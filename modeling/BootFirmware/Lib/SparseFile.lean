import Mathlib.Data.List.Basic

/-
  Files that are written at offsets.  What is skipped before
  a write reads as zeros, but only after that write: a file
  does not grow by moving its position.

  Key definitions include:
    * `writeAt` and `readAt`
    * `Write`, `Covers` and `writeAll`

  The rules used by the developments built on top are:
    * `prefix_writeAt` and `length_writeAt`
    * `readAt_writeAt`
    * `readAt_extends`
    * `getElem?_writeAll_of_not_covers`
    * `getElem?_writeAll_covers`
    * `eq_of_shifted`
-/

namespace SparseFile

open List

variable {α : Type}

/- Write at an offset, after zeros if the file is shorter. -/
def writeAt (zero : α) (file : List α) (off : Nat) (xs : List α) : List α :=
  if xs = [] then file
  else
    (file ++ List.replicate (off - file.length) zero).take off ++ xs ++ file.drop (off + xs.length)

/- What is there of a range. -/
def readAt (file : List α) (off len : Nat) : List α :=
  (file.drop off).take len

section Rules

variable {zero : α} {file xs : List α} {off len : Nat}

theorem writeAt_end (hSome : xs ≠ []) (hEnd : file.length ≤ off) :
    writeAt zero file off xs = file ++ List.replicate (off - file.length) zero ++ xs := by
  have hLength : (file ++ List.replicate (off - file.length) zero).length = off := by
    rw [length_append, length_replicate]
    omega
  unfold writeAt
  rw [if_neg hSome, take_of_length_le (Nat.le_of_eq hLength),
    drop_eq_nil_of_le (by omega), append_nil]

theorem prefix_writeAt (zero : α) (xs : List α) (hEnd : file.length ≤ off) :
    file <+: writeAt zero file off xs := by
  by_cases hSome : xs = []
  · have hSame : writeAt zero file off xs = file := by
      exact if_pos hSome
    exact prefix_iff_eq_append.mpr (by simp [hSame])
  · rw [writeAt_end hSome hEnd, append_assoc]
    exact prefix_append file _

theorem length_writeAt (zero : α) (xs : List α) (hEnd : file.length ≤ off) :
    (writeAt zero file off xs).length =
      if xs = [] then file.length else off + xs.length := by
  by_cases hSome : xs = []
  · unfold writeAt
    rw [if_pos hSome, if_pos hSome]
  · rw [if_neg hSome, writeAt_end hSome hEnd, length_append, length_append, length_replicate]
    omega

theorem readAt_writeAt (hEnd : file.length ≤ off) :
    readAt (writeAt zero file off xs) off xs.length = xs := by
  unfold readAt
  by_cases hSome : xs = []
  · rw [hSome]
    exact take_zero
  · have hLength : (file ++ List.replicate (off - file.length) zero).length = off := by
      rw [length_append, length_replicate]
      omega
    rw [writeAt_end hSome hEnd, drop_left' hLength, take_length]

theorem readAt_extends
    {file' : List α} (hPrefix : file <+: file') (hInside : off + len ≤ file.length) :
    readAt file' off len = readAt file off len := by
  rcases hPrefix with ⟨rest, rfl⟩
  unfold readAt
  rw [drop_append_of_le_length (by omega)]
  rw [take_append_of_le_length]
  rw [length_drop]
  omega

theorem readAt_zero (file : List α) (off : Nat) :
    readAt file off 0 = [] :=
  take_zero

theorem length_readAt (hInside : off + len ≤ file.length) :
    (readAt file off len).length = len := by
  unfold readAt
  rw [length_take, length_drop]
  omega

/- What stands after the first part. -/
theorem readAt_append (front mid back : List α) :
    readAt (front ++ mid ++ back) front.length mid.length = mid := by
  unfold readAt
  rw [append_assoc, drop_left, take_left]

end Rules

----
-- Writes Inside The File
----

structure Write (α : Type) where
  ofs : Nat
  data : List α

def Covers (w : Write α) (k : Nat) : Prop :=
  w.ofs ≤ k ∧ k < w.ofs + w.data.length

/- A write that does not make the file longer. -/
def FitsIn (w : Write α) (file : List α) : Prop :=
  w.ofs + w.data.length ≤ file.length

section One

variable {zero : α} {file : List α} {w : Write α}

theorem writeAt_of_fitsIn (hFits : FitsIn w file) :
    writeAt zero file w.ofs w.data =
      file.take w.ofs ++ w.data ++ file.drop (w.ofs + w.data.length) := by
  unfold FitsIn at hFits
  unfold writeAt
  split
  · next hEmpty =>
      rw [hEmpty, append_nil, length_nil, Nat.add_zero, take_append_drop]
  · rw [Nat.sub_eq_zero_of_le (by omega), replicate_zero, append_nil]

theorem length_writeAt_of_fitsIn (hFits : FitsIn w file) :
    (writeAt zero file w.ofs w.data).length = file.length := by
  rw [writeAt_of_fitsIn hFits]
  unfold FitsIn at hFits
  rw [length_append, length_append, length_take, length_drop]
  omega

theorem getElem?_writeAt_of_not_covers (hFits : FitsIn w file) {k : Nat} (hNot : ¬ Covers w k) :
    (writeAt zero file w.ofs w.data)[k]? = file[k]? := by
  rw [writeAt_of_fitsIn hFits]
  unfold FitsIn at hFits
  unfold Covers at hNot
  have hTake : (file.take w.ofs).length = w.ofs := by
    rw [length_take]
    omega
  by_cases hLt : k < w.ofs
  · rw [append_assoc, getElem?_append_left (by omega), getElem?_take_of_lt hLt]
  · rw [getElem?_append_right (by rw [length_append]; omega), getElem?_drop, length_append]
    congr 1
    omega

theorem getElem?_writeAt_covers (hFits : FitsIn w file) {k : Nat} (hk : k < w.data.length) :
    (writeAt zero file w.ofs w.data)[w.ofs + k]? = w.data[k]? := by
  rw [writeAt_of_fitsIn hFits]
  unfold FitsIn at hFits
  have hTake : (file.take w.ofs).length = w.ofs := by
    rw [length_take]
    omega
  rw [getElem?_append_left (by rw [length_append]; omega),
    getElem?_append_right (by omega), hTake, Nat.add_sub_cancel_left]

end One

/- The writes are made one after the other. -/
def writeAll (zero : α) (file : List α)
    (ws : List (Write α)) : List α :=
  ws.foldl (fun file w => writeAt zero file w.ofs w.data) file

section All

variable {zero : α} {file : List α} {ws : List (Write α)}

theorem FitsIn.of_length_eq
    {w : Write α} (hFits : FitsIn w file) {file' : List α} (hLength : file'.length = file.length) :
    FitsIn w file' := by
  unfold FitsIn at hFits ⊢
  omega

/- The first write keeps the room for the others. -/
theorem fitsIn_rest
    {w : Write α} (hFits : ∀ o ∈ w :: ws, FitsIn o file) (o : Write α) (ho : o ∈ ws) :
    FitsIn o (writeAt zero file w.ofs w.data) :=
  (hFits o (mem_cons_of_mem _ ho)).of_length_eq
    (length_writeAt_of_fitsIn (hFits w mem_cons_self))

section

variable (hFits : ∀ w ∈ ws, FitsIn w file)
include hFits

theorem length_writeAll : (writeAll zero file ws).length = file.length := by
  induction ws generalizing file with
  | nil => rfl
  | cons w ws ih =>
    exact (ih (fitsIn_rest hFits)).trans (length_writeAt_of_fitsIn (hFits w mem_cons_self))

theorem getElem?_writeAll_of_not_covers {k : Nat} (hNot : ∀ w ∈ ws, ¬ Covers w k) :
    (writeAll zero file ws)[k]? = file[k]? := by
  induction ws generalizing file with
  | nil => rfl
  | cons w ws ih =>
    have hFirst := hFits w mem_cons_self
    exact (ih (fitsIn_rest hFits) fun o ho =>
      hNot o (mem_cons_of_mem _ ho)).trans
        (getElem?_writeAt_of_not_covers hFirst (hNot w mem_cons_self))

/- Of writes apart from each other, each one is read back. -/
theorem getElem?_writeAll_covers
    (hApart : ws.Pairwise fun v w => ∀ k, Covers v k → ¬ Covers w k) {w : Write α} (hw : w ∈ ws)
    {k : Nat} (hk : k < w.data.length) :
    (writeAll zero file ws)[w.ofs + k]? = w.data[k]? := by
  induction ws generalizing file with
  | nil => cases hw
  | cons v ws ih =>
    rcases pairwise_cons.mp hApart with ⟨hHead, hTail⟩
    have hFirst := hFits v mem_cons_self
    rcases mem_cons.mp hw with rfl | hIn
    · have hCovers : Covers w (w.ofs + k) := ⟨by omega, by omega⟩
      exact (getElem?_writeAll_of_not_covers (fitsIn_rest hFits)
        fun o ho => hHead o ho _ hCovers).trans (getElem?_writeAt_covers hFirst hk)
    · exact ih (fitsIn_rest hFits) hTail hIn

end

end All

/-
  A text that is followed by nothing but the filler, and is
  also found further on, is itself the filler.
-/
theorem eq_of_shifted {text : List α} {filler : α} {shift : Nat}
    (read : Nat → Option α) (hShift : 0 < shift) (hText : ∀ k, k < text.length → read k = text[k]?)
    (hFill : ∀ k, text.length ≤ k → k < text.length + shift → read k = some filler)
    (hAgain : ∀ k, k < text.length → read (shift + k) = text[k]?) (k : Nat) (hk : k < text.length) :
    text[k]? = some filler := by
  -- The byte `shift` further on says what this one is.
  induction hLeft : text.length - k using Nat.strongRecOn generalizing k with
  | _ left ih =>
    rw [← hAgain k hk]
    by_cases hIn : shift + k < text.length
    · rw [hText _ hIn]
      exact ih (text.length - (shift + k)) (by omega) (shift + k) hIn rfl
    · exact hFill _ (by omega) (by omega)

end SparseFile
