import BootFirmware.Uboot.CTypes

/-
  The TFTP client, which loads a file from a server or saves
  one there.

  The server mode, multicast, the file size option and loads
  to flash are not configured.  The packets given to the
  handler come from the port of the server.

  Key definitions include:
    * `Client`
    * `storeBlock` and `loadBlock`
    * `updateBlockNumber`
    * `tftpSend`
    * `ackHandler`, `oackHandler` and `dataHandler`
    * `tftpTimeoutHandler`
    * `tftpStart`
-/

----
-- The Client
----

namespace Uboot.Tftp

/- A number as an `unsigned long` of 64 bits. -/
def ulong (n : Int) : Nat :=
  (n % 2 ^ 64).toNat

inductive TftpState where
  | sendRrq
  | data
  | oack
  | sendWrq
deriving DecidableEq, Repr

/-
  The state of the network loop.  In `again` the transfer was
  given up to be started again.
-/
inductive NetState where
  | running
  | success
  | again
deriving DecidableEq, Repr

inductive Packet where
  | rrq
  | wrq
  | ack (block : Nat)
  | data (block : Nat) (bytes : List UInt8)
deriving DecidableEq, Repr

structure Client where
  curBlock : Nat
  prevBlock : Nat
  blockWrap : Nat
  blockWrapOffset : Nat
  state : TftpState
  putActive : Bool
  putFinalBlockSent : Bool
  blockSize : Nat
  timeoutCount : Nat
  netBootFileSize : Nat
  netState : NetState
  memory : Nat → UInt8

/- The arguments of a transfer. -/
structure Transfer where
  put : Bool
  loadAddr : Nat
  saveAddr : Nat
  saveSize : Nat
  timeoutCountMax : Nat

/- The default block size. -/
def TFTP_BLOCK_SIZE : Nat := 512

/- The sequence numbers have 16 bits. -/
def TFTP_SEQUENCE_SIZE : Nat := 2 ^ 16

def ushort (n : Nat) : Nat :=
  n % TFTP_SEQUENCE_SIZE

theorem ulong_of_lt {n : Nat} (hLt : n < 2 ^ 64) :
    ulong n = n := by
  unfold ulong
  omega

theorem ushort_of_lt {n : Nat} (hLt : n < 2 ^ 16) :
    ushort n = n :=
  Nat.mod_eq_of_lt hLt

@[simp] theorem ushort_ushort (n : Nat) : ushort (ushort n) = ushort n :=
  Nat.mod_mod _ _

theorem ushort_lt (n : Nat) : ushort n < 2 ^ 16 :=
  Nat.mod_lt n (by decide)

----
-- Blocks And Memory
----

def memcpy (memory : Nat → UInt8) (dst : Nat) (src : List UInt8) :
    Nat → UInt8 :=
  fun addr => src.getD (ulong (addr - dst)) (memory addr)

/- The bytes of the memory from an address. -/
def bytesAt (memory : Nat → UInt8) (src len : Nat) :
    List UInt8 :=
  (List.range len).map fun i => memory (ulong (src + i))

@[simp] theorem length_bytesAt (memory : Nat → UInt8) (src len : Nat) :
    (bytesAt memory src len).length = len := by
  simp [bytesAt]

/- The product of the block and its size is an `int`. -/
def storeOffset (t : Client) (block : Int) : Nat :=
  ulong (block * t.blockSize + t.blockWrapOffset)

def storeBlock (transfer : Transfer) (block : Int) (src : List UInt8) (t : Client) :
    Client :=
  let offset := storeOffset t block
  let newsize := ulong (offset + src.length)
  { t with
    memory := memcpy t.memory (ulong (transfer.loadAddr + offset)) src
    netBootFileSize :=
      if t.netBootFileSize < newsize then u32 newsize
      else t.netBootFileSize }

/- The product with the length is an `unsigned int`. -/
def loadOffset (t : Client) (block len : Nat) : Nat :=
  ulong (((toInt block - 1) * len) % 2 ^ 32 + t.blockWrapOffset)

def loadBlock (transfer : Transfer) (block len : Nat) (t : Client) :
    List UInt8 :=
  let offset := loadOffset t block len
  let tosend := min (ulong (t.netBootFileSize - offset)) len
  bytesAt t.memory (transfer.saveAddr + offset) tosend

def newTransfer (t : Client) : Client :=
  { t with
    prevBlock := 0
    blockWrap := 0
    blockWrapOffset := 0
    putFinalBlockSent := false }

/- The markers of the progress are not modelled. -/
def updateBlockNumber (t : Client) : Client :=
  if t.curBlock = 0 ∧ t.prevBlock ≠ 0 then
    { t with
      blockWrap := ulong (t.blockWrap + 1)
      blockWrapOffset := ulong (t.blockWrapOffset + t.blockSize * TFTP_SEQUENCE_SIZE)
      timeoutCount := 0 }
  else
    t

----
-- Sending
----

def tftpSend (transfer : Transfer) (t : Client) :
    Client × Packet :=
  match t.state with
  | .sendRrq => (t, .rrq)
  | .sendWrq => (t, .wrq)
  | .oack | .data =>
    if t.putActive then
      let loaded := loadBlock transfer (u32 t.curBlock) t.blockSize t
      ({ t with
        putFinalBlockSent := decide (loaded.length < t.blockSize) },
        .data (ushort t.curBlock) loaded)
    else
      (t, .ack (ushort t.curBlock))

def tftpComplete (t : Client) : Client :=
  { t with netState := .success }

def restart (t : Client) : Client :=
  { t with netState := .again }

/- A step of the client, which may send a packet. -/
abbrev Reply := Client × Option Packet

def reply (sent : Client × Packet) : Reply :=
  (sent.1, some sent.2)

def silent (t : Client) : Reply :=
  (t, none)

----
-- Receiving
----

def ackHandler (transfer : Transfer) (block : Nat) (t : Client) :
    Reply :=
  if t.putActive then
    if t.putFinalBlockSent then
      silent (tftpComplete t)
    else
      let ackOk := t.curBlock == block
      let t := updateBlockNumber { t with curBlock := ushort (block + 1) }
      if ackOk then reply (tftpSend transfer t)
      else silent t
  else
    silent t

/- The option `blksize` is the only one read. -/
def oackHandler (transfer : Transfer) (blksize : Option Nat) (t : Client) :
    Reply :=
  let t :=
    { t with
      state := .oack
      blockSize := (blksize.map ushort).getD t.blockSize }
  let t :=
    if t.putActive then
      { t with
        state := .data
        curBlock := ulong (t.curBlock + 1) }
    else t
  reply (tftpSend transfer t)

/- The part of the handler after the check of the first block. -/
def dataStore (transfer : Transfer) (bytes : List UInt8) (t : Client) :
    Reply :=
  if t.curBlock = t.prevBlock then
    silent t
  else
    let t := { t with prevBlock := t.curBlock }
    let t := storeBlock transfer (toInt (ulong (t.curBlock - 1))) bytes t
    let (t, packet) := tftpSend transfer t
    if bytes.length < t.blockSize then
      (tftpComplete t, some packet)
    else
      (t, some packet)

def dataHandler (transfer : Transfer) (block : Nat) (bytes : List UInt8) (t : Client) :
    Reply :=
  let t := updateBlockNumber { t with curBlock := block }
  if t.state = .sendRrq ∨ t.state = .oack then
    let t := newTransfer { t with state := .data }
    if t.curBlock ≠ 1 then
      silent (restart t)
    else
      dataStore transfer bytes t
  else
    dataStore transfer bytes t

def tftpTimeoutHandler (transfer : Transfer) (t : Client) :
    Reply :=
  let t := { t with timeoutCount := t.timeoutCount + 1 }
  if transfer.timeoutCountMax < t.timeoutCount then
    silent (restart t)
  else
    reply (tftpSend transfer t)

----
-- The Start Of A Transfer
----

/-
  The network loop clears the file size before the start.  A
  load does not clear what the last transfer left in the
  block numbers.
-/
def tftpStart (transfer : Transfer) (last : Client) :
    Reply :=
  let t :=
    { last with
      netBootFileSize := 0
      netState := .running
      putActive := transfer.put }
  let t :=
    if transfer.put then
      newTransfer
        { t with
          netBootFileSize := u32 transfer.saveSize
          state := .sendWrq }
    else
      { t with state := .sendRrq }
  let t :=
    { t with
      timeoutCount := 0
      curBlock := 0
      blockSize := TFTP_BLOCK_SIZE }
  reply (tftpSend transfer t)

end Uboot.Tftp
