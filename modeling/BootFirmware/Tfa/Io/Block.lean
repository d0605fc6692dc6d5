import BootFirmware.Lib.Alignment
import BootFirmware.Lib.Memory
import BootFirmware.Lib.TransitionSystem
import Mathlib.Data.Int.Init
import Mathlib.Tactic.SplitIfs

/-
  Reads and writes of any number of bytes, over a driver of
  whole blocks that may stop after any number of bytes.

  For each call of the driver there is the number of bytes that
  it is ready to transfer, which is none behind the last number.
  A block number is an `int`, and what it stands for on the
  device is its product with the size of a block.

  Key definitions include:
    * `BlockDev` and `BlockState`
    * `blockRead` and `blockWrite`
    * `Within`

  Main declarations:
    * `block_within`
-/

----
-- Block Devices
----

namespace Tfa.Io

def EIO : Int := 5

def EINVAL : Int := 22

/- `size_t` -/
def sz (n : Nat) : Nat := n % 2 ^ 64

/- The block size is a power of two, and divides the buffer. -/
structure BlockDev where
  blockSize : Nat
  bufLength : Nat
  hPower : ∃ k, k < 64 ∧ blockSize = 2 ^ k
  hBuf : blockSize ∣ bufLength
  hFits : bufLength < 2 ^ 64

/- A transfer of so many bytes from the start of a block on. -/
structure Transfer where
  lba : Int
  count : Nat

/- `block_dev_state_t`, and what the driver can reach. -/
structure BlockState where
  base : Nat
  size : Nat
  filePos : Nat
  buf : Memory UInt8
  device : Int → UInt8
  log : List Transfer

section Calls

variable (d : BlockDev)

def transferIn (lba : Int) (n : Nat) (s : BlockState) :
    BlockState :=
  { s with
    buf := fun i =>
      if i < n then s.device (lba * d.blockSize + i) else s.buf i
    log := ⟨lba, n⟩ :: s.log }

def transferOut (lba : Int) (n : Nat) (s : BlockState) :
    BlockState :=
  { s with
    device := fun x =>
      if lba * d.blockSize ≤ x ∧ x < lba * d.blockSize + n then
        s.buf (x - lba * d.blockSize).toNat
      else s.device x
    log := ⟨lba, n⟩ :: s.log }

def skipOf (s : BlockState) : Nat :=
  s.filePos % d.blockSize

def lbaOf (s : BlockState) : Int :=
  (BitVec.ofNat 32 (sz (s.filePos + s.base) / d.blockSize)).toInt

def requestOf (left : Nat) (s : BlockState) : Nat :=
  let request := sz (skipOf d s + left)
  if request > d.bufLength then d.bufLength
  else sz (request + (d.blockSize - 1)) / d.blockSize * d.blockSize

/- What is between the skipped bytes and the padding. -/
def nbytesOf (request left : Nat) (s : BlockState) : Nat :=
  min (request - skipOf d s) left

def BlockState.advance (s : BlockState) (n : Nat) : BlockState :=
  { s with filePos := sz (s.filePos + n) }

/- Without a byte behind the skipped ones, there is an error. -/
def readTurn (ready left : Nat) (s : BlockState) : Nat × List UInt8 × BlockState :=
  let request := min ready (requestOf d left s)
  let t := transferIn d (lbaOf d s) request s
  let nbytes := nbytesOf d request left s
  (nbytes, t.buf.slice (skipOf d s) nbytes, t.advance nbytes)

/- The part of a turn that writes the buffer back. -/
def writeOut (ready request left : Nat) (bytes : List UInt8) (s : BlockState) : Nat × BlockState :=
  let nbytes := nbytesOf d request left s
  let t := { s with buf := s.buf.write (skipOf d s) (bytes.take nbytes) }
  let request := min ready request
  let nbytes := nbytesOf d request left s
  (nbytes, (transferOut d (lbaOf d s) request t).advance nbytes)

/- Skipped bytes and padding are read before the write. -/
def writeTurn (ready : Nat × Nat) (bytes : List UInt8) (s : BlockState) : Nat × BlockState :=
  let left := bytes.length
  let request := requestOf d left s
  if skipOf d s > 0 ∨ request - skipOf d s > left then
    let got := min ready.1 request
    let t := transferIn d (lbaOf d s) got s
    let request := got / d.blockSize * d.blockSize
    if request ≤ skipOf d s then (0, t)
    else writeOut d ready.2 request left bytes t
  else writeOut d ready.2 request left bytes s

def readLoop : List Nat → Nat → List UInt8 → BlockState → Int × List UInt8 × BlockState
  | _, 0, out, s => (0, out, s)
  | [], _, out, s => (- EIO, out, s)
  | ready :: rest, left, out, s =>
    let r := readTurn d ready left s
    if r.1 = 0 then (- EIO, out, r.2.2)
    else readLoop rest (left - r.1) (out ++ r.2.1) r.2.2

def writeLoop : List (Nat × Nat) → List UInt8 → BlockState → Int × BlockState
  | _, [], s => (0, s)
  | [], _, s => (- EIO, s)
  | ready :: rest, bytes, s =>
    let r := writeTurn d ready bytes s
    if r.1 = 0 then (- EIO, r.2)
    else writeLoop rest (bytes.drop r.1) r.2

/- With the bytes that are in the buffer of the caller. -/
def blockRead (ready : List Nat) (length : Nat) (s : BlockState) : Int × List UInt8 × BlockState :=
  readLoop d ready length [] s

def blockWrite (ready : List (Nat × Nat)) (bytes : List UInt8)
    (s : BlockState) : Int × BlockState :=
  writeLoop d ready bytes s

end Calls

inductive SeekMode where
  | set
  | cur
  | other

def blockSeek (mode : SeekMode) (offset : Nat) (s : BlockState) : Int × BlockState :=
  match mode with
  | .set => (0, { s with filePos := offset })
  | .cur => (0, s.advance offset)
  | .other => (-EINVAL, s)

----
-- The Region
----

inductive Call where
  | seek (mode : SeekMode) (offset : Nat)
  | read (ready : List Nat) (length : Nat)
  | write (ready : List (Nat × Nat)) (bytes : List UInt8)

section Region

variable (d : BlockDev)

/- The assertions of a call. -/
def Asserted (s : BlockState) : Call → Prop
  | .seek mode offset => offset < 2 ^ 63 ∧ offset < s.size ∧
      ((blockSeek mode offset s).1 = 0 → (blockSeek mode offset s).2.filePos < s.size)
  | .read _ length => 0 < length ∧ length ≤ s.size
  | .write _ bytes => 0 < bytes.length ∧ bytes.length ≤ s.size

def exec (s : BlockState) : Call → BlockState
  | .seek mode offset => (blockSeek mode offset s).2
  | .read ready length => (blockRead d ready length s).2.2
  | .write ready bytes => (blockWrite d ready bytes s).2

/- From `block_open` on, for any region of whole blocks. -/
def blockIo : TransitionSystem BlockState Call where
  init s := d.blockSize ∣ s.base ∧ d.blockSize ∣ s.size ∧
    s.base < 2 ^ 64 ∧ s.size < 2 ^ 64 ∧ s.filePos = 0 ∧ s.log = []
  step s c t := Asserted s c ∧ t = exec d s c

/- All bytes of a transfer are bytes of the region. -/
def Inside (s : BlockState) (x : Transfer) : Prop :=
  ∀ i < x.count, (s.base : Int) ≤ x.lba * d.blockSize + i ∧
    x.lba * d.blockSize + i < s.base + s.size

def Within (s : BlockState) : Prop :=
  s.filePos ≤ s.size ∧ ∀ x ∈ s.log, Inside d s x

/- The addresses that an `int` and a `size_t` have room for. -/
def limit : Nat := min (2 ^ 31 * d.blockSize) (2 ^ 64)

def Fits (s : BlockState) (length : Nat) : Prop :=
  s.filePos + length ≤ s.size ∧ s.base + s.filePos + length ≤ limit d

/- A read or a write does not go on behind the region. -/
def Fair (s : BlockState) : Call → Prop
  | .seek _ _ => True
  | .read _ length => Fits d s length
  | .write _ bytes => Fits d s bytes.length

end Region

section Moves

variable {d : BlockDev} {s t u : BlockState} {left m n : Nat}

theorem BlockDev.pos (d : BlockDev) :
    0 < d.blockSize := by
  rcases d.hPower with ⟨k, -, hk⟩
  exact hk ▸ Nat.two_pow_pos k

theorem sz_le (n : Nat) :
    sz n ≤ n :=
  Nat.mod_le n _

/- The block of the position is the one that is asked for. -/
theorem lbaOf_mul (hBase : d.blockSize ∣ s.base) (hLimit : s.base + s.filePos < limit d) :
    lbaOf d s * d.blockSize + skipOf d s = s.base + s.filePos := by
  have hWord : s.filePos + s.base < 2 ^ 64 :=
    Nat.add_comm _ _ ▸ Nat.lt_of_lt_of_le hLimit (Nat.min_le_right _ _)
  have hInt : (s.filePos + s.base) / d.blockSize < 2 ^ 31 := by
    rw [Nat.div_lt_iff_lt_mul d.pos, Nat.add_comm]
    exact Nat.lt_of_lt_of_le hLimit (Nat.min_le_left _ _)
  have hSkip : skipOf d s = (s.filePos + s.base) % d.blockSize := by
    unfold skipOf
    rw [Nat.add_mod, Nat.mod_eq_zero_of_dvd hBase, Nat.add_zero, Nat.mod_mod]
  have hDiv := Nat.div_add_mod' (s.filePos + s.base) d.blockSize
  have hLba : lbaOf d s = ((s.filePos + s.base) / d.blockSize : Nat) := by
    unfold lbaOf sz
    rw [Nat.mod_eq_of_lt hWord, BitVec.toInt_ofNat']
    generalize (s.filePos + s.base) / d.blockSize = q at hInt ⊢
    exact Int.bmod_eq_of_le (by omega) (by omega)
  rw [hLba, hSkip, ← Int.natCast_mul]
  omega

theorem requestOf_le (d : BlockDev) (left : Nat) (s : BlockState) :
    requestOf d left s ≤ Alignment.roundUp d.blockSize (skipOf d s + left) := by
  have hPos := d.pos
  have hWord := sz_le (skipOf d s + left)
  unfold requestOf
  dsimp only
  split
  · have hUp := Alignment.le_roundUp (skipOf d s + left) hPos
    omega
  · have hSum := sz_le (sz (skipOf d s + left) + (d.blockSize - 1))
    exact Nat.mul_le_mul_right _ (Nat.div_le_div_right (by omega))

/- Whole blocks, of which a part is left behind the position. -/
structure Ready (d : BlockDev) (s : BlockState) (left : Nat) : Prop where
  base : d.blockSize ∣ s.base
  size : d.blockSize ∣ s.size
  fits : Fits d s left

/- What lies between two states within the region. -/
structure Moves (d : BlockDev) (s t : BlockState) (n : Nat) : Prop where
  base : t.base = s.base
  size : t.size = s.size
  pos : t.filePos ≤ s.filePos + n
  log : ∀ x ∈ t.log, x ∈ s.log ∨ Inside d s x

theorem Moves.trans (hFirst : Moves d s t m) (hThen : Moves d t u n) :
    Moves d s u (m + n) := by
  have hPos := hThen.pos
  have hBefore := hFirst.pos
  refine ⟨hThen.base.trans hFirst.base, hThen.size.trans hFirst.size, by omega, fun x hx => ?_⟩
  rcases hThen.log x hx with hOld | hNew
  · exact hFirst.log x hOld
  · unfold Inside at hNew
    rw [hFirst.base, hFirst.size] at hNew
    exact Or.inr hNew

/- A transfer of a request, or of a part of it. -/
theorem Ready.moves (hReady : Ready d s left) (hLeft : 0 < left)
    (hRequest : n ≤ requestOf d left s) (hBase : t.base = s.base)
    (hSize : t.size = s.size) (hPos : t.filePos ≤ s.filePos + m)
    (hLog : t.log = ⟨lbaOf d s, n⟩ :: s.log) :
    Moves d s t m := by
  refine ⟨hBase, hSize, hPos, fun x hx => ?_⟩
  rw [hLog] at hx
  rcases List.mem_cons.mp hx with rfl | hOld
  · refine Or.inr fun i hi => ?_
    rcases hReady.fits with ⟨hFits, hLimit⟩
    have hStart := lbaOf_mul hReady.base (show s.base + s.filePos < limit d by omega)
    have hDiv := Nat.div_add_mod' s.filePos d.blockSize
    have hEnd : Alignment.roundUp d.blockSize (skipOf d s + left) ≤
        s.size - s.filePos / d.blockSize * d.blockSize := by
      refine Alignment.roundUp_le d.pos (Nat.dvd_sub hReady.size (Nat.dvd_mul_left _ _)) ?_
      unfold skipOf
      omega
    have hLe := requestOf_le d left s
    unfold skipOf at hStart
    dsimp only at hi ⊢
    omega
  · exact Or.inl hOld

theorem Ready.next (hReady : Ready d s left) (hMoves : Moves d s t n) (hLe : n ≤ left) :
    Ready d t (left - n) := by
  have hPos := hMoves.pos
  rcases hReady.fits with ⟨hFits, hLimit⟩
  refine ⟨hMoves.base ▸ hReady.base, hMoves.size ▸ hReady.size, ?_, ?_⟩
  · rw [hMoves.size]
    omega
  · rw [hMoves.base]
    omega

theorem nbytesOf_le (d : BlockDev) (request left : Nat) (s : BlockState) :
    nbytesOf d request left s ≤ left :=
  Nat.min_le_right _ _

theorem readTurn_moves (ready : Nat) (hReady : Ready d s left) (hLeft : 0 < left) :
    Moves d s (readTurn d ready left s).2.2 (readTurn d ready left s).1 :=
  hReady.moves hLeft (Nat.min_le_right ready _) rfl rfl (sz_le _) rfl

theorem writeOut_moves (ready : Nat) (bytes : List UInt8) (hReady : Ready d s left)
    (hLeft : 0 < left) (hRequest : m ≤ requestOf d left s) :
    Moves d s (writeOut d ready m left bytes s).2 (writeOut d ready m left bytes s).1 :=
  hReady.moves hLeft (Nat.le_trans (Nat.min_le_right ready m) hRequest) rfl rfl (sz_le _) rfl

theorem writeTurn_moves (ready : Nat × Nat) {bytes : List UInt8}
    (hReady : Ready d s bytes.length) (hLeft : 0 < bytes.length) :
    Moves d s (writeTurn d ready bytes s).2 (writeTurn d ready bytes s).1 ∧
      (writeTurn d ready bytes s).1 ≤ bytes.length := by
  unfold writeTurn
  dsimp only
  split_ifs with hPartial hShort
  · exact ⟨hReady.moves hLeft (Nat.min_le_right ready.1 _) rfl rfl
      (Nat.le_add_right _ _) rfl, Nat.zero_le _⟩
  · refine ⟨?_, nbytesOf_le _ _ _ _⟩
    have hIn := hReady.moves (m := 0) hLeft
      (Nat.min_le_right ready.1 _) rfl rfl (Nat.le_refl _) rfl
      (t := transferIn d (lbaOf d s) (min ready.1
        (requestOf d bytes.length s)) s)
    have hOut := writeOut_moves ready.2 bytes (hReady.next hIn (Nat.zero_le _)) hLeft
      (m := min ready.1 (requestOf d bytes.length s) /
        d.blockSize * d.blockSize)
      (Nat.le_trans (Nat.div_mul_le_self _ _) (Nat.min_le_right _ _))
    have hBoth := hIn.trans hOut
    rw [Nat.zero_add] at hBoth
    exact hBoth
  · exact ⟨writeOut_moves ready.2 bytes hReady hLeft (Nat.le_refl _), nbytesOf_le _ _ _ _⟩

theorem Moves.refl (d : BlockDev) (s : BlockState) (n : Nat) :
    Moves d s s n :=
  ⟨rfl, rfl, Nat.le_add_right _ _, fun _ hx => Or.inl hx⟩

/- The turns of a loop, each of which takes its part. -/
theorem Ready.loop (hReady : Ready d s left) (hTurn : Moves d s t n) (hLe : n ≤ left)
    (hRest : Ready d t (left - n) → Moves d t u (left - n)) :
    Moves d s u left := by
  have hBoth := hTurn.trans (hRest (hReady.next hTurn hLe))
  rw [Nat.add_sub_cancel' hLe] at hBoth
  exact hBoth

theorem readLoop_moves (ready : List Nat) (out : List UInt8) (hReady : Ready d s left) :
    Moves d s (readLoop d ready left out s).2.2 left := by
  induction ready generalizing left out s with
  | nil => cases left <;> exact Moves.refl d s _
  | cons now rest ih =>
    cases left with
    | zero => exact Moves.refl d s _
    | succ left =>
      have hTurn := readTurn_moves now hReady (Nat.succ_pos left)
      have hLe := nbytesOf_le d (min now (requestOf d (left + 1) s)) (left + 1) s
      refine hReady.loop hTurn hLe fun hRest => ?_
      rw [readLoop.eq_3 _ _ _ _ _ _ (Nat.succ_ne_zero left)]
      split
      · exact Moves.refl d _ _
      · exact ih _ hRest

theorem writeLoop_moves
    (ready : List (Nat × Nat)) (bytes : List UInt8) (hReady : Ready d s bytes.length) :
    Moves d s (writeLoop d ready bytes s).2 bytes.length := by
  induction ready generalizing bytes s with
  | nil => cases bytes <;> exact Moves.refl d s _
  | cons now rest ih =>
    cases bytes with
    | nil => exact Moves.refl d s _
    | cons b bytes =>
      rcases writeTurn_moves now hReady (Nat.succ_pos _) with ⟨hTurn, hLe⟩
      refine hReady.loop hTurn hLe fun hRest => ?_
      rw [← List.length_drop] at hRest ⊢
      unfold writeLoop
      dsimp only
      split
      · exact Moves.refl d _ _
      · exact ih _ hRest

theorem Moves.within (hMoves : Moves d s t n) (hFits : Fits d s n) (hWithin : Within d s) :
    Within d t := by
  have hPos := hMoves.pos
  refine ⟨hMoves.size ▸ Nat.le_trans hPos hFits.1, fun x hx => ?_⟩
  unfold Inside
  rw [hMoves.base, hMoves.size]
  exact (hMoves.log x hx).elim (hWithin.2 x) id

end Moves

/- What holds between two calls. -/
structure Sound (d : BlockDev) (s : BlockState) : Prop where
  base : d.blockSize ∣ s.base
  size : d.blockSize ∣ s.size
  within : Within d s

theorem Sound.of_moves {d : BlockDev} {s t : BlockState} {n : Nat}
    (hSound : Sound d s) (hFits : Fits d s n) (hMoves : Ready d s n → Moves d s t n) :
    Sound d t := by
  have hDone := hMoves ⟨hSound.base, hSound.size, hFits⟩
  exact ⟨hDone.base ▸ hSound.base, hDone.size ▸ hSound.size, hDone.within hFits hSound.within⟩

theorem Sound.step {d : BlockDev} {s : BlockState} {c : Call}
    (hSound : Sound d s) (hAsserted : Asserted s c) (hFair : Fair d s c) :
    Sound d (exec d s c) := by
  cases c with
  | seek mode offset =>
    have hPos := hAsserted.2.2
    cases mode with
    | set => exact ⟨hSound.base, hSound.size, Nat.le_of_lt (hPos rfl), hSound.within.2⟩
    | cur => exact ⟨hSound.base, hSound.size, Nat.le_of_lt (hPos rfl), hSound.within.2⟩
    | other => exact hSound
  | read ready length => exact hSound.of_moves hFair (readLoop_moves ready [])
  | write ready bytes => exact hSound.of_moves hFair (writeLoop_moves ready bytes)

/- In runs whose reads and writes end with the region. -/
theorem block_within (d : BlockDev) (s : BlockState) (hReach : (blockIo d).ReachableBy (Fair d) s) :
    Within d s := by
  refine (hReach.invariant (I := Sound d) ?_ ?_).within
  · rintro s ⟨hBase, hSize, -, -, hPos, hLog⟩
    refine ⟨hBase, hSize, hPos ▸ Nat.zero_le _, fun x hx => ?_⟩
    rw [hLog] at hx
    cases hx
  · rintro s c _ hSound hFair ⟨hAsserted, rfl⟩
    exact hSound.step hAsserted hFair

/- A region of one block behind another. -/
def sectors : BlockDev where
  blockSize := 512
  bufLength := 512
  hPower := ⟨9, by decide, rfl⟩
  hBuf := Nat.dvd_refl 512
  hFits := by decide

def opened : BlockState where
  base := 512
  size := 512
  filePos := 0
  buf _ := 0
  device _ := 0
  log := []

theorem opened_reachable (ok : BlockState → Call → Prop) :
    (blockIo sectors).ReachableBy ok opened :=
  .start ⟨by decide, by decide, by decide, by decide, rfl, rfl⟩

theorem block_within_read :
    Within sectors (exec sectors opened (.read [512] 512)) ∧
      (exec sectors opened (.read [512] 512)).filePos = 512 :=
  ⟨block_within sectors _ (.next (opened_reachable _) (l := .read [512] 512) ⟨by decide, by decide⟩
    ⟨⟨by decide, by decide⟩, rfl⟩), by decide⟩

/- From the middle on, a read of its size is in the next block. -/
theorem block_within_seek :
    ∃ s, (blockIo sectors).Reachable s ∧ s.filePos > s.size ∧
      ∃ x ∈ s.log, 0 < x.count ∧ x.lba * sectors.blockSize ≥ s.base + s.size := by
  refine ⟨_, .next (.next (opened_reachable _) trivial (l := .seek .set 256)
    ⟨⟨by decide, by decide, fun _ => by decide⟩, rfl⟩) trivial
    (l := .read [512, 512] 512) ⟨⟨by decide, by decide⟩, rfl⟩,
    by decide, ⟨2, 512⟩, List.mem_cons_self .., by decide, by decide⟩

end Tfa.Io
