import BootFirmware.Tfa.Io.Block

/-
  What reads and writes of any number of bytes do to the
  bytes of the device.

  They are right for every driver and every device as long as
  the blocks have numbers that an `int` holds.  Behind these
  other blocks are read.

  Key definitions include:
    * `bytesAt` and `replaced`
    * `ReadRight` and `WriteRight`

  Main declarations:
    * `block_exact`
-/

----
-- Bytes Of A Device
----

namespace Tfa.Io

open List

def bytesAt (f : Int → UInt8) (a n : Nat) : List UInt8 :=
  Memory.slice (fun i => f i) a n

/- The device with other bytes from an address on. -/
def replaced (f : Int → UInt8) (a : Nat) (bytes : List UInt8) : Int → UInt8 :=
  fun x =>
    if (a : Int) ≤ x then (bytes[(x - a).toNat]?).getD (f x) else f x

theorem replaced_nil (f : Int → UInt8) (a : Nat) :
    replaced f a [] = f := by
  funext x
  exact ite_self _

/- Bytes that are replaced in two parts. -/
theorem replaced_append (f : Int → UInt8) (a : Nat) (xs ys : List UInt8) :
    replaced (replaced f a xs) (a + xs.length) ys = replaced f a (xs ++ ys) := by
  funext x
  unfold replaced
  by_cases hBelow : (a : Int) ≤ x
  · rw [if_pos hBelow]
    by_cases hFirst : (x - a).toNat < xs.length
    · rw [if_neg (by omega), if_pos hBelow, getElem?_append_left hFirst]
    · rw [if_pos (by omega), if_pos hBelow, getElem?_append_right (Nat.not_lt.mp hFirst),
        getElem?_eq_none (Nat.not_lt.mp hFirst)]
      congr 3
      omega
  · rw [if_neg (by omega), if_neg hBelow, if_neg hBelow]

section Parts

variable {f : Int → UInt8} {a b n : Nat}

theorem bytesAt_parts {left : Nat} (hLe : n ≤ left) (hNext : n = left ∨ b = a + n) :
    bytesAt f a n ++ bytesAt f b (left - n) = bytesAt f a left := by
  rcases hNext with rfl | rfl
  · rw [Nat.sub_self]
    exact append_nil _
  · unfold bytesAt
    rw [← Memory.slice_add, Nat.add_sub_cancel' hLe]

theorem replaced_parts
    {bytes : List UInt8} (hLe : n ≤ bytes.length) (hNext : n = bytes.length ∨ b = a + n) :
    replaced (replaced f a (bytes.take n)) b (bytes.drop n) = replaced f a bytes := by
  rcases hNext with rfl | rfl
  · rw [take_length, drop_length, replaced_nil]
  · have hLength := length_take_of_le hLe
    have hAppend := replaced_append f a (bytes.take n) (bytes.drop n)
    rwa [hLength, take_append_drop] at hAppend

end Parts

section Right

variable (d : BlockDev)

/- The driver transfers any part of what it is asked for. -/
def ReadRight (ready : List Nat) (length : Nat) (s : BlockState) :
    Prop :=
  let r := blockRead d ready length s
  r.1 = 0 →
    r.2.1 = bytesAt s.device (s.base + s.filePos) length ∧ r.2.2.filePos = sz (s.filePos + length)

def WriteRight (ready : List (Nat × Nat)) (bytes : List UInt8) (s : BlockState) : Prop :=
  let r := blockWrite d ready bytes s
  r.1 = 0 → r.2.device = replaced s.device (s.base + s.filePos) bytes ∧
      r.2.filePos = sz (s.filePos + bytes.length)

end Right

----
-- Turns
----

section Turns

variable {d : BlockDev} {s t : BlockState} {left : Nat}

/- So many bytes to go, at addresses with a block number. -/
structure Ahead (d : BlockDev) (s : BlockState) (left : Nat) : Prop where
  base : d.blockSize ∣ s.base
  word : s.filePos < 2 ^ 64
  fits : s.base + s.filePos + left ≤ limit d

theorem Ahead.start (hAhead : Ahead d s left) (hLeft : 0 < left) :
    lbaOf d s * d.blockSize + skipOf d s = s.base + s.filePos := by
  have hFits := hAhead.fits
  exact lbaOf_mul hAhead.base (by omega)

/- What is left behind a turn, if anything is. -/
theorem Ahead.advance {n : Nat} (hAhead : Ahead d s left) (hBase : t.base = s.base)
    (hPos : t.filePos = sz (s.filePos + n)) (hLe : n ≤ left) :
    Ahead d t (left - n) ∧ sz (t.filePos + (left - n)) = sz (s.filePos + left) ∧
      (n = left ∨ t.base + t.filePos = s.base + s.filePos + n) := by
  have hFits := hAhead.fits
  have hLess := sz_le (s.filePos + n)
  rw [hBase, hPos]
  refine ⟨⟨hBase ▸ hAhead.base, hPos ▸ Nat.mod_lt _ (by decide), ?_⟩, ?_, ?_⟩
  · rw [hBase, hPos]
    omega
  · unfold sz
    rw [Nat.mod_add_mod, Nat.add_assoc, Nat.add_sub_cancel' hLe]
  · unfold limit at hFits
    unfold sz
    rcases Nat.eq_or_lt_of_le hLe with hAll | hSome
    · exact Or.inl hAll
    · rw [Nat.mod_eq_of_lt (by omega), Nat.add_assoc]
      exact Or.inr rfl

theorem readTurn_right (ready : Nat) (hAhead : Ahead d s left) (hLeft : 0 < left) :
    (readTurn d ready left s).2.1 =
      bytesAt s.device (s.base + s.filePos) (readTurn d ready left s).1 := by
  have hStart := hAhead.start hLeft
  refine Memory.slice_congr fun i hi => ?_
  have hIn : skipOf d s + i < min ready (requestOf d left s) := by
    unfold readTurn nbytesOf at hi
    omega
  refine (if_pos hIn).trans (congrArg s.device ?_)
  omega

/- The buffer holds the blocks around the bytes. -/
theorem writeOut_right {bytes : List UInt8} {m : Nat}
    (ready : Nat) (hAhead : Ahead d s bytes.length) (hLeft : 0 < bytes.length)
    (hBuf : ∀ i < m, i < skipOf d s ∨ skipOf d s + bytes.length ≤ i →
      s.buf i = s.device (lbaOf d s * d.blockSize + i)) :
    (writeOut d ready m bytes.length bytes s).2.device =
      replaced s.device (s.base + s.filePos) (bytes.take
        (writeOut d ready m bytes.length bytes s).1) := by
  have hStart := hAhead.start hLeft
  funext x
  unfold writeOut transferOut replaced BlockState.advance
  dsimp only
  by_cases hIn : lbaOf d s * d.blockSize ≤ x ∧ x < lbaOf d s * d.blockSize + (min ready m : Nat)
  · rw [if_pos hIn]
    obtain ⟨i, hi⟩ : ∃ i : Nat, x = lbaOf d s * d.blockSize + i :=
      ⟨(x - lbaOf d s * d.blockSize).toNat, by omega⟩
    have hOut := hBuf i (by omega)
    rw [← hi] at hOut
    have hCell : (x - lbaOf d s * d.blockSize).toNat = i := by omega
    rw [hCell]
    unfold Memory.write
    by_cases hSkip : skipOf d s ≤ i
    · have hIndex : (x - (s.base + s.filePos : Nat)).toNat = i - skipOf d s := by omega
      rw [if_pos hSkip, if_pos (by omega), hIndex, getElem?_take, getElem?_take]
      unfold nbytesOf
      by_cases hByte : i - skipOf d s < bytes.length
      · rw [if_pos (by omega), if_pos (by omega), getElem?_eq_getElem hByte]
        rfl
      · rw [if_neg (by omega), if_neg (by omega)]
        exact hOut (by omega)
    · rw [if_neg hSkip, if_neg (by omega)]
      exact hOut (by omega)
  · rw [if_neg hIn]
    split
    · rw [getElem?_eq_none]
      · rfl
      · rw [length_take]
        unfold nbytesOf
        omega
    · rfl

theorem writeTurn_right {bytes : List UInt8}
    (ready : Nat × Nat) (hAhead : Ahead d s bytes.length) (hLeft : 0 < bytes.length)
    (hDone : (writeTurn d ready bytes s).1 ≠ 0) :
    (writeTurn d ready bytes s).2.device =
        replaced s.device (s.base + s.filePos) (bytes.take (writeTurn d ready bytes s).1) ∧
      (writeTurn d ready bytes s).2.base = s.base ∧
      (writeTurn d ready bytes s).2.filePos = sz (s.filePos + (writeTurn d ready bytes s).1) ∧
      (writeTurn d ready bytes s).1 ≤ bytes.length := by
  unfold writeTurn at hDone ⊢
  dsimp only at hDone ⊢
  split_ifs at hDone ⊢ with hPartial hShort
  · exact absurd rfl hDone
  · refine ⟨?_, rfl, rfl, nbytesOf_le _ _ _ _⟩
    refine writeOut_right
      (s := transferIn d (lbaOf d s) (min ready.1
        (requestOf d bytes.length s)) s)
      ready.2 ⟨hAhead.base, hAhead.word, hAhead.fits⟩ hLeft
      fun i hi _ => ?_
    have hGot := Nat.div_mul_le_self (min ready.1 (requestOf d bytes.length s)) d.blockSize
    exact if_pos (by omega)
  · refine ⟨?_, rfl, rfl, nbytesOf_le _ _ _ _⟩
    exact writeOut_right ready.2 hAhead hLeft fun i hi hOut => by
      omega

theorem readLoop_zero (ready : List Nat) (out : List UInt8) :
    readLoop d ready 0 out s = (0, out, s) := by
  cases ready <;> rfl

theorem readLoop_right (ready : List Nat) (out : List UInt8) (hAhead : Ahead d s left)
    (hDone : (readLoop d ready left out s).1 = 0) :
    (readLoop d ready left out s).2.1 = out ++ bytesAt s.device (s.base + s.filePos) left ∧
      (readLoop d ready left out s).2.2.filePos = sz (s.filePos + left) := by
  induction ready generalizing left out s with
  | nil =>
    cases left with
    | zero => exact ⟨(append_nil out).symm, (Nat.mod_eq_of_lt hAhead.word).symm⟩
    | succ left => cases hDone
  | cons now rest ih =>
    rcases Nat.eq_zero_or_pos left with rfl | hLeft
    · rw [readLoop_zero]
      exact ⟨(append_nil out).symm, (Nat.mod_eq_of_lt hAhead.word).symm⟩
    · rw [readLoop.eq_3 _ _ _ _ _ _ (Nat.ne_of_gt hLeft)] at hDone ⊢
      split at hDone
      · cases hDone
      · rename_i hSome
        rcases hAhead.advance (t := (readTurn d now left s).2.2)
          rfl rfl (nbytesOf_le _ _ _ _) with ⟨hRest, hEnd, hNext⟩
        rcases ih _ hRest hDone with ⟨hOut, hPos⟩
        rw [if_neg hSome]
        refine ⟨hOut.trans ?_, hPos.trans hEnd⟩
        rw [readTurn_right now hAhead hLeft, append_assoc]
        exact congrArg (out ++ ·) (bytesAt_parts (nbytesOf_le _ _ _ _) hNext)

theorem writeLoop_right
    (ready : List (Nat × Nat)) (bytes : List UInt8) (hAhead : Ahead d s bytes.length)
    (hDone : (writeLoop d ready bytes s).1 = 0) :
    (writeLoop d ready bytes s).2.device = replaced s.device (s.base + s.filePos) bytes ∧
      (writeLoop d ready bytes s).2.filePos = sz (s.filePos + bytes.length) := by
  induction ready generalizing bytes s with
  | nil =>
    cases bytes with
    | nil => exact ⟨(replaced_nil _ _).symm, (Nat.mod_eq_of_lt hAhead.word).symm⟩
    | cons b bytes => cases hDone
  | cons now rest ih =>
    cases bytes with
    | nil => exact ⟨(replaced_nil _ _).symm, (Nat.mod_eq_of_lt hAhead.word).symm⟩
    | cons b bytes =>
      unfold writeLoop at hDone ⊢
      dsimp only at hDone ⊢
      split at hDone
      · cases hDone
      · rename_i hSome
        rw [if_neg hSome]
        rcases writeTurn_right now hAhead (Nat.succ_pos _) hSome with ⟨hDevice, hBase, hPos, hLe⟩
        rcases hAhead.advance hBase hPos hLe with ⟨hRest, hEnd, hNext⟩
        rw [← length_drop] at hRest hEnd
        rcases ih _ hRest hDone with ⟨hThen, hLast⟩
        refine ⟨hThen.trans ?_, hLast.trans hEnd⟩
        rw [hDevice, replaced_parts hLe hNext]

end Turns

----
-- Behind The Last Block Number
----

/- A device that differs behind the addresses. -/
def marked (d : BlockDev) : Int → UInt8 :=
  fun x => if x < limit d then 0 else 1

section Behind

variable (d : BlockDev) (s : BlockState) {left : Nat}

/- Whole blocks in a word leave room for one more. -/
theorem BlockDev.next_le {n : Nat} (hDvd : d.blockSize ∣ n) (hLt : n < 2 ^ 64) :
    n + d.blockSize ≤ 2 ^ 64 := by
  rcases d.hPower with ⟨k, hk, hSize⟩
  have hWord : d.blockSize ∣ 2 ^ 64 := hSize ▸ Nat.pow_dvd_pow 2 (Nat.le_of_lt hk)
  have hRest := Nat.le_of_dvd (by omega) (Nat.dvd_sub hWord hDvd)
  omega

theorem lbaOf_below : lbaOf d s * d.blockSize + d.blockSize ≤ limit d := by
  have hWord := Nat.mod_lt (s.filePos + s.base) (show 0 < 2 ^ 64 by decide)
  have hBlock := d.next_le (Nat.dvd_mul_left _ _) (Nat.lt_of_le_of_lt
    (Nat.div_mul_le_self (sz (s.filePos + s.base)) d.blockSize) hWord)
  unfold lbaOf limit
  generalize sz (s.filePos + s.base) / d.blockSize = q at hBlock ⊢
  have hInt := BitVec.toInt_lt (x := BitVec.ofNat 32 q)
  have hLe : (BitVec.ofNat 32 q).toInt ≤ q := by
    rw [BitVec.toInt_eq_toNat_cond, BitVec.toNat_ofNat]
    split <;> omega
  generalize (BitVec.ofNat 32 q).toInt = lba at hInt hLe ⊢
  have hFirst : (lba + 1) * d.blockSize ≤ 2 ^ 31 * d.blockSize :=
    Int.mul_le_mul_of_nonneg_right (by omega) (by omega)
  have hLast : lba * d.blockSize ≤ q * d.blockSize := Int.mul_le_mul_of_nonneg_right hLe (by omega)
  rw [Int.add_mul, Int.one_mul] at hFirst
  rw [← Int.natCast_mul] at hLast
  omega

variable (hBuf : 0 < d.bufLength) (hFew : left + d.blockSize ≤ 2 ^ 64)
include hBuf hFew

theorem le_requestOf (hLeft : 0 < left) :
    d.blockSize ≤ requestOf d left s := by
  have hSkip : skipOf d s < d.blockSize := Nat.mod_lt _ d.pos
  have hWord : sz (skipOf d s + left) = skipOf d s + left := Nat.mod_eq_of_lt (by omega)
  unfold requestOf
  dsimp only
  rw [hWord]
  split
  · exact Nat.le_of_dvd hBuf d.hBuf
  · have hRest := d.next_le d.hBuf d.hFits
    have hSum : sz (skipOf d s + left + (d.blockSize - 1)) =
        skipOf d s + left + (d.blockSize - 1) :=
      Nat.mod_eq_of_lt (by omega)
    rw [hSum]
    exact Nat.le_mul_of_pos_left _ (Nat.div_pos (by omega) d.pos)

/- A driver that transfers one block at a time gets there. -/
theorem readLoop_marked
    {n : Nat} (out : List UInt8) (hLeft : left ≤ n) (hDevice : s.device = marked d) :
    (readLoop d (List.replicate n d.blockSize) left out s).1 = 0 ∧
      ∀ b ∈ (readLoop d (List.replicate n d.blockSize) left out s).2.1, b ∈ out ∨ b = 0 := by
  induction n generalizing left out s with
  | zero =>
    rw [Nat.le_zero.mp hLeft, readLoop_zero]
    exact ⟨rfl, fun b hb => Or.inl hb⟩
  | succ n ih =>
    rcases Nat.eq_zero_or_pos left with rfl | hPos
    · rw [readLoop_zero]
      exact ⟨rfl, fun b hb => Or.inl hb⟩
    · have hRequest := le_requestOf d s hBuf hFew hPos
      have hSkip : skipOf d s < d.blockSize := Nat.mod_lt _ d.pos
      have hBytes : (readTurn d d.blockSize left s).1 = min (d.blockSize - skipOf d s) left := by
        unfold readTurn nbytesOf
        rw [Nat.min_eq_left hRequest]
      rw [replicate_succ, readLoop.eq_3 _ _ _ _ _ _ (Nat.ne_of_gt hPos), if_neg (by omega)]
      have hLess : left - (readTurn d d.blockSize left s).1 ≤ n := by omega
      rcases ih (readTurn d d.blockSize left s).2.2 (by omega)
        (out ++ (readTurn d d.blockSize left s).2.1) hLess
        hDevice with ⟨hDone, hOut⟩
      refine ⟨hDone, fun b hb => ?_⟩
      rcases hOut b hb with hOld | hZero
      · rcases mem_append.mp hOld with hOld | hNew
        · exact Or.inl hOld
        · rcases mem_map.mp hNew with ⟨i, hi, rfl⟩
          have hIn := mem_range.mp hi
          have hBelow := lbaOf_below d s
          unfold nbytesOf at hIn
          refine Or.inr ((if_pos (by omega)).trans ?_)
          rw [hDevice]
          exact if_pos (by omega)
      · exact Or.inr hZero

end Behind

/- For every driver and all that the device may hold. -/
theorem block_exact (d : BlockDev) (s : BlockState) (length : Nat)
    (hBuf : 0 < d.bufLength) (hBase : d.blockSize ∣ s.base) (hSize : d.blockSize ∣ s.size)
    (hWords : s.filePos < 2 ^ 64 ∧ s.size < 2 ^ 64) (hLength : 0 < length ∧ length ≤ s.size) :
    (∀ device buf, (∀ ready, ReadRight d ready length { s with device, buf }) ∧
      ∀ ready bytes, bytes.length = length → WriteRight d ready bytes { s with device, buf }) ↔
      s.base + s.filePos + length ≤ limit d := by
  constructor
  · intro hRight
    have hFew := d.next_le hSize hWords.2
    rcases readLoop_marked d { s with device := marked d } hBuf
      (by omega) [] (Nat.le_refl length) rfl with ⟨hDone, hZero⟩
    have hOut := ((hRight (marked d) s.buf).1 _ hDone).1
    by_contra hNot
    have hMem : marked d (s.base + s.filePos + (length - 1) : Nat) ∈
        bytesAt (marked d) (s.base + s.filePos) length :=
      mem_map.mpr ⟨length - 1, mem_range.mpr (by omega), rfl⟩
    rcases hZero _ (hOut ▸ hMem) with hNone | hByte
    · cases hNone
    · unfold marked at hByte
      rw [if_neg (by omega)] at hByte
      cases hByte
  · intro hFits device buf
    refine ⟨fun ready hDone => readLoop_right ready [] ⟨hBase, hWords.1, hFits⟩ hDone, ?_⟩
    rintro ready bytes rfl hDone
    exact writeLoop_right ready bytes ⟨hBase, hWords.1, hFits⟩ hDone

theorem block_exact_sector : WriteRight sectors [(512, 100), (512, 512)] [1, 2, 3] opened :=
  ((block_exact sectors opened 3 (by decide) (by decide) (by decide)
    (by decide) (by decide)).mpr (by decide) opened.device
    opened.buf).2 _ [1, 2, 3] rfl

/- A block whose number is negative as an `int`. -/
def distant : BlockState :=
  { opened with base := 2 ^ 40, device := fun x => if x < 0 then 0 else 1 }

theorem block_exact_distant : ¬ ReadRight sectors [512] 1 distant :=
  fun hRight => absurd (hRight rfl).1 (by decide)

end Tfa.Io
