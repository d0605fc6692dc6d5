import BootFirmware.Uboot.CTypes
import Mathlib.Logic.Function.Basic

/-
  The recovery of an ext4 file system from its journal.

  The blocks of the journal are those of an inode, which is
  read from the device.  The loop over the journal can run for
  ever, and then has no result; neither has a call that reads
  outside a buffer.

  Key definitions include:
    * `Fs` and `State`
    * `tags`
    * `recoverTransaction`
    * `ext4fsCheckJournalState`
-/

----
-- Blocks
----

namespace Uboot.Ext4

abbrev Block := List UInt8

abbrev Device := Nat → Block

/- A big-endian number in a buffer. -/
def be32 (buf : Block) (ofs : Nat) : Nat :=
  (((buf.getD ofs 0).toNat * 256 + (buf.getD (ofs + 1) 0).toNat) * 256 +
    (buf.getD (ofs + 2) 0).toNat) * 256 + (buf.getD (ofs + 3) 0).toNat

def setBe32 (buf : Block) (ofs n : Nat) : Block :=
  (((buf.set ofs (.ofNat (n / 2 ^ 24))).set (ofs + 1) (.ofNat (n / 2 ^ 16))).set (ofs + 2)
    (.ofNat (n / 2 ^ 8))).set (ofs + 3) (.ofNat n)

/- A number in front of the one that is set stays. -/
theorem be32_setBe32 (buf : Block) {ofs ofs' : Nat} (hLt : ofs + 3 < ofs') (n : Nat) :
    be32 (setBe32 buf ofs' n) ofs = be32 buf ofs := by
  have hByte : ∀ k, k ≤ 3 → (setBe32 buf ofs' n).getD (ofs + k) 0 = buf.getD (ofs + k) 0 := by
    intro k hk
    unfold setBe32
    simp only [List.getD_eq_getElem?_getD]
    rw [List.getElem?_set_ne (by omega), List.getElem?_set_ne (by omega),
      List.getElem?_set_ne (by omega), List.getElem?_set_ne (by omega)]
  unfold be32
  rw [hByte 1 (by decide), hByte 2 (by decide), hByte 3 (by decide)]
  have hZero := hByte 0 (by decide)
  rw [Nat.add_zero] at hZero
  rw [hZero]

/-
  What is known of the file system.  The function
  `read_allocated_block` is that of the journal's inode, as
  it and its blocks are on the device.
-/
structure Fs where
  blksz : Nat
  blocks : Nat
  readAllocatedBlock : Device → Nat → Int

/- Nothing is read from outside the partition. -/
def Fs.devread (fs : Fs) (device : Device)
    (blknr : Int) : Option Block :=
  if 0 ≤ blknr ∧ blknr < fs.blocks then
    some (device blknr.toNat)
  else none

/- Nothing is written outside the partition. -/
def Fs.put (fs : Fs) (device : Device) (blknr : Int)
    (buf : Block) : Device :=
  if 0 ≤ blknr ∧ blknr < fs.blocks then
    Function.update device blknr.toNat buf
  else device

/- The block that holds the superblock, and where. -/
def Fs.superBlock (fs : Fs) : Nat := 1024 / fs.blksz

def Fs.superOfs (fs : Fs) : Nat := 1024 % fs.blksz

def Fs.readSuper (fs : Fs) (device : Device) : Block :=
  ((device fs.superBlock).drop fs.superOfs).take 1024

def Fs.putSuper (fs : Fs) (device : Device)
    (sb : Block) : Device :=
  let old := device fs.superBlock
  fs.put device fs.superBlock (old.take fs.superOfs ++ sb ++ old.drop (fs.superOfs + 1024))

/- The flag `EXT3_FEATURE_INCOMPAT_RECOVER`. -/
def needsRecovery (sb : Block) : Bool :=
  (sb.getD 96 0).toNat.testBit 2

def setRecover (sb : Block) : Block :=
  sb.set 96 (sb.getD 96 0 ||| 4)

/- The two variables that outlive a call, and the device. -/
structure State where
  device : Device
  sb : Block
  revkBlkList : List Block

inductive Mode where
  | scan
  | recover
deriving DecidableEq, Repr

----
-- Descriptor Blocks
----

structure Tag where
  block : Nat
  flags : Nat
deriving DecidableEq, Repr

def Tag.escape (tag : Tag) : Bool := tag.flags.testBit 0
def Tag.sameUuid (tag : Tag) : Bool := tag.flags.testBit 1
def Tag.lastTag (tag : Tag) : Bool := tag.flags.testBit 3

/- The loop over the tags of a descriptor block. -/
def tagLoop (blksz : Nat) (buf : Block) : Nat → Nat → List Tag
  | 0, _ => []
  | fuel + 1, ofs =>
    if blksz < ofs + 8 then []
    else
      let tag : Tag := ⟨be32 buf ofs, be32 buf (ofs + 4)⟩
      let ofs := ofs + 8
      let ofs := if tag.sameUuid then ofs else ofs + 16
      if tag.lastTag then [tag]
      else tag :: tagLoop blksz buf fuel ofs

/- A tag takes eight bytes at least. -/
def tags (blksz : Nat) (buf : Block) : List Tag :=
  tagLoop blksz buf (blksz / 8 + 1) 12

----
-- Revoke Blocks
----

/- The loop over the numbers of a revoke block. -/
def revokeLoop (blksz : Nat) (buf : Block)
    (blknr : Nat) : Nat → Nat → Option Bool
  | 0, _ => none
  | fuel + 1, offset =>
    if (offset : Int) < toInt (be32 buf 12) then
      if blksz < offset + 4 then none
      else if be32 buf offset = blknr then some true
      else revokeLoop blksz buf blknr fuel (offset + 4)
    else some false

/- Whether a block that comes later revokes the number. -/
def checkBlknrForRevoke (blksz blknr sequenceNo : Nat) :
    List Block → Option Bool
  | [] => some false
  | buf :: rest =>
    if sequenceNo < be32 buf 8 then
      (revokeLoop blksz buf blknr (blksz + 1) 16).bind
        fun found =>
          if found then some true
          else checkBlknrForRevoke blksz blknr sequenceNo rest
    else
      checkBlknrForRevoke blksz blknr sequenceNo rest

----
-- Recovery
----

/-
  The loop over the tags, from the journal's block `i` on.
  A read that fails leaves the buffer as it was.
-/
def replayTags (fs : Fs) (revoked : List Block) (sequenceNo : Nat) :
    List Tag → Nat → Block → Device → Option Device
  | [], _, _, device => some device
  | tag :: rest, i, buf, device =>
    (checkBlknrForRevoke fs.blksz tag.block sequenceNo
      revoked).bind fun found =>
        if found then
          replayTags fs revoked sequenceNo rest (i + 1) buf device
        else
          let buf := (fs.devread device (fs.readAllocatedBlock device i)).getD buf
          replayTags fs revoked sequenceNo rest (i + 1) buf (fs.put device tag.block buf)

/- The journal's block, or zeros. -/
def Fs.readJournal (fs : Fs) (device : Device)
    (i : Nat) : Block :=
  (fs.devread device (fs.readAllocatedBlock device i)).getD (List.replicate fs.blksz 0)

def recoverTransaction (fs : Fs) (revoked : List Block) (prevDescLogicalNo : Nat)
    (device : Device) : Option Device :=
  let buf := fs.readJournal device prevDescLogicalNo
  replayTags fs revoked (be32 buf 8) (tags fs.blksz buf)
    (prevDescLogicalNo + 1) (List.replicate fs.blksz 0) device

/- The variables of the loop over the journal. -/
structure Walk where
  i : Nat
  running : Bool
  dbFound : Bool
  currDescLogicalNo : Nat
  sequence : Nat
  revkBlkList : List Block
  device : Device

inductive Outcome where
  | goesOn (w : Walk)
  | stops (w : Walk)
  | fails (w : Walk)

/- The commit block ends a transaction. -/
def commitBlock (fs : Fs) (mode : Mode)
    (w : Walk) : Option Outcome :=
  let next :=
    if w.running ∨ w.dbFound = false then
      { w with
        running := false
        i := w.i + 1
        sequence := (w.sequence + 1) % 2 ^ 32 }
    else w
  let device :=
    if mode = .recover ∧ w.dbFound then
      recoverTransaction fs w.revkBlkList w.currDescLogicalNo w.device
    else some w.device
  device.map fun device => .goesOn { next with device, dbFound := false }

/-
  The body of the loop.  A block that is of no known type, but
  has the number expected, is read again and again.
-/
def walkStep (fs : Fs) (mode : Mode)
    (w : Walk) : Option Outcome :=
  let buf := fs.readJournal w.device w.i
  if be32 buf 8 ≠ w.sequence then
    some (.stops w)
  else if be32 buf 4 = 1 then
    if w.running then some (.fails w)
    else
      some (.goesOn
        { w with
          running := true
          currDescLogicalNo := w.i
          i := w.i + (tags fs.blksz buf).length + 1
          dbFound := true })
  else if be32 buf 4 = 2 then
    commitBlock fs mode w
  else if be32 buf 4 = 5 then
    some (.goesOn
      { w with
        i := w.i + 1
        revkBlkList :=
          if mode = .scan then w.revkBlkList ++ [buf]
          else w.revkBlkList })
  else
    some (.goesOn w)

def walkLoop (fs : Fs) (mode : Mode) : Nat → Walk → Option Outcome
  | 0, _ => none
  | fuel + 1, w =>
    match walkStep fs mode w with
    | none => none
    | some (.goesOn w) => walkLoop fs mode fuel w
    | some (.stops w) => some (.stops w)
    | some (.fails w) => some (.fails w)

/- What follows the label `end`. -/
def finish (fs : Fs) (mode : Mode) (jsb : Block)
    (st : State) : State :=
  if mode = .scan then st
  else
    let jsb := setBe32 jsb 28 1
    let jsb := setBe32 jsb 24 (be32 jsb 24 + 1)
    let device := fs.putSuper st.device (setRecover (fs.readSuper st.device))
    { device :=
        fs.put device (fs.readAllocatedBlock device 0) jsb
      sb := fs.readSuper device
      revkBlkList := [] }

def ext4fsCheckJournalState (fs : Fs) (fuel : Nat) (mode : Mode)
    (st : State) : Option (Int × State) :=
  let jsb := fs.readJournal st.device 0
  if needsRecovery st.sb = false then
    some (0, finish fs mode jsb st)
  else if be32 jsb 28 = 0 then
    some (0, finish fs mode jsb st)
  else
    -- The flag `JBD2_FEATURE_COMPAT_CHECKSUM` is set.
    let jsb := setBe32 jsb 36 (be32 jsb 36 ||| 1)
    match walkLoop fs mode fuel
        ⟨be32 jsb 20, false, false, 0, be32 jsb 24, st.revkBlkList, st.device⟩ with
    | none => none
    | some (.goesOn _) => none
    | some (.fails w) =>
      some (-1,
        { st with
          device := w.device
          revkBlkList := w.revkBlkList })
    | some (.stops w) =>
      some (0, finish fs mode (setBe32 jsb 24 w.sequence)
        { st with
          device := w.device
          revkBlkList := w.revkBlkList })

end Uboot.Ext4
