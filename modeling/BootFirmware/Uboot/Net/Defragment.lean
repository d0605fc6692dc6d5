import BootFirmware.Lib.Memory
import Mathlib.Algebra.Group.Int.Defs
import Mathlib.Algebra.Group.Nat.Defs

/-
  Reassembly of IP packets in a static buffer, which also
  holds the list of the holes left in it.

  A call that reads or writes outside the buffer, copies a
  negative number of bytes, reads past the packet received or
  does not end its search has no result.  The search goes on
  for ever once it has taken more steps than there are
  indices of holes.

  Key definitions include:
    * `Fragment.ofIp`
    * `Defrag` and `search`
    * `removeHole`, `moveHole` and `splitHole`
    * `netDefragment`
    * `ipAccepted` and `receive`
-/

----
-- Fragments
----

namespace Uboot.Net

/- `CONFIG_NET_MAXDEFRAG` of the boards that do not set it. -/
def IP_PKTSIZE : Nat := 16384

def IP_HDR_SIZE : Nat := 20

def IP_UDP_HDR_SIZE : Nat := 28

def IP_MAXUDP : Nat := IP_PKTSIZE - IP_HDR_SIZE

def u16 (n : Int) : Nat :=
  (n % 2 ^ 16).toNat

/- A field of a header, in network byte order. -/
def be16 (p : List UInt8) (off : Nat) : Nat :=
  (p.getD off 0).toNat * 256 + (p.getD (off + 1) 0).toNat

def ipLen (ip : List UInt8) : Nat := be16 ip 2
def ipId (ip : List UInt8) : Nat := be16 ip 4
def ipOff (ip : List UInt8) : Nat := be16 ip 6

/- The local variables that the header sets. -/
structure Fragment where
  offset8 : Nat
  more : Bool
  len : Int
deriving DecidableEq, Repr

def Fragment.ofIp (ip : List UInt8) : Fragment where
  offset8 := ipOff ip % 2 ^ 13
  more := (ipOff ip).testBit 13
  len := (ipLen ip : Int) - IP_HDR_SIZE

def Fragment.start (f : Fragment) : Nat :=
  f.offset8 * 8

/- The offset after the fragment. -/
def Fragment.stop (f : Fragment) : Int :=
  f.start + f.len

/- The index of the hole that a fragment leaves after it. -/
def Fragment.newh (f : Fragment) : Int :=
  f.offset8 + f.len.tdiv 8

/- The sum is an `unsigned long` where it is compared. -/
def Fragment.tooFar (f : Fragment) : Bool :=
  decide (IP_MAXUDP < (f.stop % 2 ^ 64).toNat)

----
-- The Buffer And Its Holes
----

/- The static variables. -/
structure Defrag where
  pktBuff : Memory UInt8
  firstHole : Nat
  totalLen : Nat

def le16 (m : Memory UInt8) (off : Nat) : Nat :=
  (m off).toNat + 256 * (m (off + 1)).toNat

def putLe16 (m : Memory UInt8) (off v : Nat) :
    Memory UInt8 :=
  m.write off [UInt8.ofNat v, UInt8.ofNat (v / 256)]

/- The fields of a hole but the unused one. -/
inductive Field where
  | lastByte
  | nextHole
  | prevHole
deriving DecidableEq, Repr

def Field.off : Field → Nat
  | .lastByte => 0
  | .nextHole => 2
  | .prevHole => 4

/- The offset of a hole in the buffer, by its index. -/
def holeOff (h : Int) : Int :=
  IP_HDR_SIZE + 8 * h

def inBuff (off : Int) (n : Nat) : Bool :=
  decide (0 ≤ off ∧ off + n ≤ IP_PKTSIZE)

def getField (m : Memory UInt8) (h : Int) (field : Field) :
    Option Nat :=
  if inBuff (holeOff h + field.off) 2 then
    some (le16 m (holeOff h + field.off).toNat)
  else none

def setField (m : Memory UInt8) (h : Int) (field : Field) (v : Nat) :
    Option (Memory UInt8) :=
  if inBuff (holeOff h + field.off) 2 then
    some (putLe16 m (holeOff h + field.off).toNat v)
  else none

def copyHole (m : Memory UInt8) (newh h : Int) :
    Option (Memory UInt8) :=
  if inBuff (holeOff newh) 8 && inBuff (holeOff h) 8 then
    some (m.move (holeOff newh).toNat (holeOff h).toNat 8)
  else none

/- The hole that ends at or after `start`, if there is one. -/
def search (m : Memory UInt8) (start : Nat) :
    Nat → Nat → Option (Option Nat)
  | 0, _ => none
  | fuel + 1, h =>
    (getField m h .lastByte).bind fun last =>
      if last < start then
        (getField m h .nextHole).bind fun next =>
          if next = 0 then some none
          else search m start fuel next
      else some (some h)

/- The result says that it was the last remaining hole. -/
def removeHole (s : Defrag) (h : Int) :
    Option (Bool × Defrag) :=
  (getField s.pktBuff h .prevHole).bind fun prev =>
  (getField s.pktBuff h .nextHole).bind fun next =>
    if prev = 0 ∧ next = 0 then
      some (true, s)
    else if prev = 0 then
      (setField s.pktBuff next .prevHole 0).map fun m =>
        (false, { s with pktBuff := m, firstHole := next })
    else if next = 0 then
      (setField s.pktBuff prev .nextHole 0).map fun m => (false, { s with pktBuff := m })
    else
      (setField s.pktBuff next .prevHole prev).bind fun m =>
      (getField m h .prevHole).bind fun prev =>
      (getField m h .nextHole).bind fun next =>
      (setField m prev .nextHole next).map fun m => (false, { s with pktBuff := m })

def moveHole (s : Defrag) (h newh : Int) :
    Option Defrag :=
  (copyHole s.pktBuff newh h).bind fun m =>
  (getField m newh .nextHole).bind fun next =>
  (if next = 0 then some m
    else setField m next .prevHole (u16 newh)).bind fun m =>
  (getField m newh .prevHole).bind fun prev =>
    if prev = 0 then
      some { s with pktBuff := m, firstHole := u16 newh }
    else
      (setField m prev .nextHole (u16 newh)).map fun m => { s with pktBuff := m }

def splitHole (s : Defrag) (h newh : Int) (start : Nat) :
    Option Defrag :=
  (copyHole s.pktBuff newh h).bind fun m =>
  (setField m h .lastByte (u16 start)).bind fun m =>
  (setField m h .nextHole (u16 newh)).bind fun m =>
  (setField m newh .prevHole (u16 h)).bind fun m =>
  (getField m newh .nextHole).bind fun next =>
  (if next = 0 then some m
    else setField m next .prevHole (u16 newh)).map fun m => { s with pktBuff := m }

----
-- __net_defragment
----

/- Fix the hole list for a fragment that meets a hole. -/
def fixHoles (f : Fragment) (h : Nat) (s : Defrag) :
    Option (Bool × Defrag) :=
  (getField s.pktBuff h .lastByte).bind fun last =>
    if f.offset8 ≤ h ∧ (last : Int) ≤ f.stop then
      removeHole s h
    else if (last : Int) ≤ f.stop then
      (setField s.pktBuff h .lastByte (u16 f.start)).map fun m => (false, { s with pktBuff := m })
    else if f.offset8 ≤ h then
      (moveHole s h f.newh).map fun s => (false, s)
    else
      (splitHole s h f.newh f.start).map fun s => (false, s)

/- The end of the packet is known with its last fragment. -/
def truncateHole (f : Fragment) (h : Nat) (s : Defrag) :
    Option Defrag :=
  if f.more then
    some s
  else
    (setField s.pktBuff h .lastByte (u16 f.stop)).map fun m =>
      { s with pktBuff := m, totalLen := u16 f.stop }

/- Copy the bytes of a fragment to its place. -/
def copyFragment (ip : List UInt8) (f : Fragment) (s : Defrag) :
    Option Defrag :=
  if 0 ≤ f.len ∧ IP_HDR_SIZE + f.len ≤ ip.length ∧ inBuff (holeOff f.offset8) f.len.toNat then
    some
      { s with
        pktBuff := s.pktBuff.write (holeOff f.offset8).toNat
          ((ip.drop IP_HDR_SIZE).take f.len.toNat) }
  else none

/- The length of the packet in the buffer. -/
def complete (s : Defrag) : Nat × Defrag :=
  (s.totalLen + IP_HDR_SIZE,
    { s with
      pktBuff := s.pktBuff.write 2 [UInt8.ofNat (s.totalLen / 256), UInt8.ofNat s.totalLen] })

/- The identification of the packet in the buffer. -/
def Defrag.ipId (s : Defrag) : Nat :=
  (s.pktBuff 4).toNat * 256 + (s.pktBuff 5).toNat

/- The packet is one hole, under the header of a fragment. -/
def resetStructs (ip : List UInt8) (s : Defrag) : Defrag where
  pktBuff :=
    ((((s.pktBuff.write 20 [255, 255]).write 22 [0, 0]).write
      24 [0, 0]).write 0 (ip.take IP_HDR_SIZE))
  firstHole := 0
  totalLen := 0xffff

def startPacket (ip : List UInt8) (s : Defrag) : Defrag :=
  if s.totalLen = 0 ∨ s.ipId ≠ Net.ipId ip then
    resetStructs ip s
  else s

/- A fragment that meets the hole `h`. -/
def netInsert (ip : List UInt8) (f : Fragment) (h : Nat) (s : Defrag) :
    Option (Option Nat × Defrag) :=
  -- No overlap with holes.
  if (f.offset8 : Int) + (f.len + 7).tdiv 8 ≤ h then
    some (none, s)
  else
    (truncateHole f h s).bind fun s =>
    (fixHoles f h s).bind fun r =>
    (copyFragment ip f r.2).map fun s =>
      if r.1 then
        (some (complete s).1, (complete s).2)
      else (none, s)

/-
  The result is the length of a packet that is complete, and
  is in the buffer then.
-/
def netDefragment (ip : List UInt8) (s : Defrag) :
    Option (Option Nat × Defrag) :=
  if ip.length < IP_HDR_SIZE then
    none
  else
    let f := Fragment.ofIp ip
    if f.tooFar then
      some (none, s)
    else
      let s := startPacket ip s
      (search s.pktBuff f.start (2 ^ 16) s.firstHole).bind
        fun
          | none => some (none, s)
          | some h => netInsert ip f h s

----
-- net_process_received_packet
----

/- The sum of the 16-bit words, in the order of the machine. -/
def sumWords : List UInt8 → Nat
  | [] => 0
  | [b] => b.toNat
  | b :: c :: bytes => b.toNat + 256 * c.toNat + sumWords bytes

def computeIpChecksum (bytes : List UInt8) : Nat :=
  let sum := sumWords bytes
  let sum := sum / 2 ^ 16 + sum % 2 ^ 16
  let sum := sum + sum / 2 ^ 16
  2 ^ 16 - 1 - sum % 2 ^ 16

/- All bits but the lowest are to be clear. -/
def ipChecksumOk (bytes : List UInt8) : Bool :=
  computeIpChecksum bytes < 2

/- The destination is the board's address or the broadcast. -/
def forUs (netIp : List UInt8) (ip : List UInt8) : Bool :=
  netIp == [0, 0, 0, 0] || (ip.drop 16).take 4 == netIp ||
    (ip.drop 16).take 4 == [255, 255, 255, 255]

/- The checks before a packet is given to `net_defragment`. -/
def ipAccepted (netIp : List UInt8) (ip : List UInt8) : Bool :=
  decide (IP_UDP_HDR_SIZE ≤ ip.length) &&
  decide (ipLen ip ≤ ip.length) &&
  decide ((ip.getD 0 0).toNat / 16 = 4) &&
  decide ((ip.getD 0 0).toNat % 16 ≤ 5) &&
  ipChecksumOk (ip.take IP_HDR_SIZE) &&
  forUs netIp ip

/- A packet that is not a fragment is left to others. -/
def isFragment (ip : List UInt8) : Bool :=
  let f := Fragment.ofIp ip
  decide (f.offset8 ≠ 0) || f.more

/- What becomes of the buffer when a packet is received. -/
def receive (netIp : List UInt8) (ip : List UInt8) (s : Defrag) :
    Option (Option Nat × Defrag) :=
  if ipAccepted netIp ip && isFragment ip then
    netDefragment ip s
  else some (none, s)

end Uboot.Net
