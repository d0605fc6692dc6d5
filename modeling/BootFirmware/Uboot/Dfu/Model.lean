import Mathlib.Algebra.Group.Int.Defs
import Mathlib.Algebra.Group.Nat.Defs
import Mathlib.Data.List.Basic

/-
  Downloads of device firmware: blocks are collected in a
  buffer, which is drained to the medium in chunks.

  The entity keeps a log of what was copied to the buffer and
  what was written to the medium.  The hash of the data is
  left out, as nothing depends on it.

  Key definitions include:
    * `Medium` and `DfuEntity`
    * `dfuWrite` and `dfuFlush`
    * `dfuWriteFromMemAddr`
-/

namespace Uboot.Dfu

----
-- The Entity
----

/- A chunk, with the offset that it is written at. -/
structure Chunk where
  offset : Nat
  bytes : List UInt8
deriving DecidableEq, Repr

/- A copy of so many bytes to a place in the buffer. -/
structure Copy where
  start : Nat
  size : Nat
deriving DecidableEq, Repr

/-
  The hooks of the medium.  Writing depends on what has been
  written before, and reports how much it was.
-/
structure Medium where
  writeMedium : List Chunk → Chunk → Int × Nat
  flushMedium : Option Int

/-
  `iBuf` has the bytes from the start of the buffer on, and
  `iBufEnd` is where the buffer ends.
-/
structure DfuEntity where
  offset : Nat
  iBlkSeqNum : Int
  iBuf : List UInt8
  iBufEnd : Nat
  inited : Bool
  copied : List Copy
  written : List Chunk
deriving DecidableEq, Repr

abbrev Outcome := Int × DfuEntity

/- Go on unless there was an error. -/
def Outcome.andThen (r : Outcome) (f : DfuEntity → Outcome) :
    Outcome :=
  if r.1 = 0 then f r.2 else r

----
-- Transactions
----

def dfuTransactionCleanup (dfu : DfuEntity) : DfuEntity :=
  { dfu with
    offset := 0
    iBlkSeqNum := 0
    iBuf := []
    iBufEnd := 0
    inited := false }

/- The buffer, which is there, has so many bytes. -/
def dfuTransactionInitiate (bufSize : Nat) (dfu : DfuEntity) :
    DfuEntity :=
  if dfu.inited then dfu
  else
    { dfuTransactionCleanup dfu with
      iBufEnd := bufSize
      inited := true }

def dfuWriteBufferDrain (m : Medium) (dfu : DfuEntity) :
    Outcome :=
  if dfu.iBuf = [] then (0, dfu)
  else
    let chunk := ⟨dfu.offset, dfu.iBuf⟩
    let r := m.writeMedium dfu.written chunk
    (r.1,
      { dfu with
        iBuf := []
        offset := (dfu.offset + r.2) % 2 ^ 64
        written := dfu.written ++ [chunk] })

def dfuFlush (m : Medium) (dfu : DfuEntity) : Outcome :=
  (dfuWriteBufferDrain m dfu).andThen fun dfu => (m.flushMedium.getD 0, dfuTransactionCleanup dfu)

/- An error ends the transaction. -/
def orCleanup (r : Outcome) : Outcome :=
  if r.1 = 0 then r else (r.1, dfuTransactionCleanup r.2)

/- There should be room in the buffer now. -/
def copyToBuffer (m : Medium) (buf : List UInt8) (dfu : DfuEntity) : Outcome :=
  let size := buf.length
  if dfu.iBufEnd < dfu.iBuf.length + size then
    (-1, dfuTransactionCleanup dfu)
  else
    let dfu :=
      { dfu with
        iBuf := dfu.iBuf ++ buf
        copied := dfu.copied ++ [⟨dfu.iBuf.length, size⟩] }
    -- the end of the data, or perhaps of the buffer
    if size = 0 ∨ dfu.iBufEnd < dfu.iBuf.length + size then
      orCleanup (dfuWriteBufferDrain m dfu)
    else (0, dfu)

def dfuWrite (m : Medium) (bufSize : Nat) (buf : List UInt8)
    (blkSeqNum : Int) (dfu : DfuEntity) : Outcome :=
  let dfu := dfuTransactionInitiate bufSize dfu
  if dfu.iBlkSeqNum ≠ blkSeqNum then
    (-1, dfuTransactionCleanup dfu)
  else
    let dfu := { dfu with iBlkSeqNum := (dfu.iBlkSeqNum + 1) % 2 ^ 16 }
    let r :=
      if dfu.iBufEnd < dfu.iBuf.length + buf.length then
        orCleanup (dfuWriteBufferDrain m dfu)
      else (0, dfu)
    r.andThen (copyToBuffer m buf)

----
-- Downloads
----

/- The loop, which takes no more steps than there are bytes. -/
def writeLeft (m : Medium) (bufSize : Nat) : Nat → Int → List UInt8 → DfuEntity → Outcome
  | 0, _, _, dfu => (0, dfu)
  | steps + 1, i, left, dfu =>
    if left = [] then (0, dfu)
    else
      (dfuWrite m bufSize (left.take bufSize) i dfu).andThen
        (writeLeft m bufSize steps (i + 1) (left.drop bufSize))

def dfuWriteFromMemAddr (m : Medium) (bufSize : Nat)
    (buf : List UInt8) (dfu : DfuEntity) : Outcome :=
  (writeLeft m bufSize buf.length 0 buf dfu).andThen (dfuFlush m)

/- Calls of `dfu_write`, numbered from one on. -/
def writeBlocks (m : Medium) (bufSize : Nat) : Nat → List (List UInt8) → DfuEntity → Outcome
  | _, [], dfu => (0, dfu)
  | i, buf :: rest, dfu =>
    (dfuWrite m bufSize buf (i % 2 ^ 16 : Nat) dfu).andThen (writeBlocks m bufSize (i + 1) rest)

/- A number of blocks, and a flush in the end. -/
def download (m : Medium) (bufSize : Nat)
    (blocks : List (List UInt8)) (dfu : DfuEntity) : Outcome :=
  (writeBlocks m bufSize 0 blocks dfu).andThen (dfuFlush m)

end Uboot.Dfu
