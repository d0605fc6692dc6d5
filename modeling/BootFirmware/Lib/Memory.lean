import Mathlib.Data.List.Basic
import Mathlib.Logic.Function.Basic

/-
  Memory as a function from addresses, and what is read from
  ranges of it after writes and copies.

  Key definitions include:
    * `Memory.slice` and `Memory.write`
    * `Memory.move` and `Memory.copyForward`

  The rules used by the developments built on top are:
    * `slice_add`, `take_slice` and `drop_slice`
    * `slice_write_self` and `slice_write_apart`
    * `copyForward_eq_move`
-/

/- Memory cells of a type, by address. -/
abbrev Memory (α : Type) : Type := Nat → α

namespace Memory

open List Function

variable {α : Type}

/- The cells of a range. -/
def slice (m : Memory α) (off len : Nat) : List α :=
  (List.range len).map fun i => m (off + i)

/- Write cells from an address on. -/
def write (m : Memory α) (off : Nat) (xs : List α) : Memory α :=
  fun j => if off ≤ j then (xs[j - off]?).getD (m j) else m j

/- Copy a range as if through a buffer. -/
def move (m : Memory α) (dst src len : Nat) : Memory α :=
  m.write dst (m.slice src len)

/- Copy a range one cell after the other, upwards. -/
def copyForward (m : Memory α)
    (dst src : Nat) : Nat → Memory α
  | 0 => m
  | len + 1 => copyForward (update m dst (m src)) (dst + 1) (src + 1) len

----
-- Ranges
----

@[simp] theorem length_slice (m : Memory α) (off len : Nat) :
    (m.slice off len).length = len := by
  simp [slice]

@[simp] theorem slice_zero (m : Memory α) (off : Nat) :
    m.slice off 0 = [] := rfl

@[simp] theorem getElem?_slice (m : Memory α) (off len i : Nat) :
    (m.slice off len)[i]? =
      if i < len then some (m (off + i)) else none := by
  by_cases hi : i < len <;> simp [slice, hi]

theorem slice_congr
    {m m' : Memory α} {off off' len : Nat} (hSame : ∀ i, i < len → m (off + i) = m' (off' + i)) :
    m.slice off len = m'.slice off' len := by
  apply map_congr_left
  intro i hi
  exact hSame i (mem_range.mp hi)

section

variable (m : Memory α)

theorem slice_add (off a b : Nat) :
    m.slice off (a + b) = m.slice off a ++ m.slice (off + a) b := by
  unfold slice
  rw [range_add, map_append, map_map]
  congr 1
  apply map_congr_left
  intro i _
  exact congrArg m (Nat.add_assoc off a i).symm

theorem slice_succ (off len : Nat) :
    m.slice off (len + 1) = m off :: m.slice (off + 1) len := by
  rw [Nat.add_comm len 1, slice_add]
  rfl

theorem take_slice (off len n : Nat) :
    (m.slice off len).take n = m.slice off (min n len) := by
  unfold slice
  rw [← map_take, take_range]

theorem drop_slice (off len n : Nat) :
    (m.slice off len).drop n = m.slice (off + n) (len - n) := by
  by_cases hn : n ≤ len
  · rcases Nat.exists_eq_add_of_le hn with ⟨rest, rfl⟩
    rw [slice_add, drop_left' (length_slice m off n), Nat.add_sub_cancel_left]
  · rw [drop_eq_nil_of_le (by simp; omega), show len - n = 0 by omega, slice_zero]

end

----
-- Writes
----

variable {m : Memory α} {xs : List α}

theorem write_of_lt {off j : Nat} (hj : j < off) :
    m.write off xs j = m j := by
  simp [write, Nat.not_le.mpr hj]

theorem write_of_le {off j : Nat} (hj : off + xs.length ≤ j) :
    m.write off xs j = m j := by
  unfold write
  rw [getElem?_eq_none (by omega)]
  exact ite_self _

@[simp] theorem write_nil (m : Memory α) (off : Nat) :
    m.write off [] = m := by
  funext j
  simp [write]

/- What was written is read back. -/
theorem slice_write_self (m : Memory α) (off : Nat) (xs : List α) :
    (m.write off xs).slice off xs.length = xs := by
  apply ext_getElem?
  intro i
  rw [getElem?_slice]
  by_cases hi : i < xs.length
  · rw [if_pos hi]
    simp [write, hi]
  · rw [if_neg hi, getElem?_eq_none (by omega)]

/- A range apart from the one written keeps its cells. -/
theorem slice_write_apart {off len dst : Nat} (hApart : off + len ≤ dst ∨ dst + xs.length ≤ off) :
    (m.write dst xs).slice off len = m.slice off len := by
  apply slice_congr
  intro i hi
  rcases hApart with hBelow | hAbove
  · exact write_of_lt (by omega)
  · exact write_of_le (by omega)

----
-- Copies
----

theorem move_apply (m : Memory α) (dst src len j : Nat) :
    m.move dst src len j =
      if dst ≤ j ∧ j < dst + len then m (src + (j - dst))
      else m j := by
  unfold move
  by_cases hIn : dst ≤ j ∧ j < dst + len
  · have hj : j - dst < len := by omega
    rw [if_pos hIn, write, if_pos hIn.1, getElem?_slice, if_pos hj]
    rfl
  · rw [if_neg hIn]
    by_cases hLt : j < dst
    · exact write_of_lt hLt
    · exact write_of_le (by rw [length_slice]; omega)

/- What was copied is read at its new place. -/
theorem slice_move_self (m : Memory α) (dst src len : Nat) :
    (m.move dst src len).slice dst len = m.slice src len := by
  have hSelf := slice_write_self m dst (m.slice src len)
  rwa [length_slice] at hSelf

theorem slice_move_apart {off len dst src n : Nat} (hApart : off + len ≤ dst ∨ dst + n ≤ off) :
    (m.move dst src n).slice off len = m.slice off len := by
  apply slice_write_apart
  rwa [length_slice]

/-
  Copying upwards cell by cell is a move when the target
  does not start inside the source.
-/
theorem copyForward_eq_move {dst src len : Nat} (hSafe : dst ≤ src ∨ src + len ≤ dst) :
    m.copyForward dst src len = m.move dst src len := by
  induction len generalizing m dst src with
  | zero => simp [copyForward, move]
  | succ len ih =>
    rw [copyForward, ih (by omega)]
    have hTail : slice (update m dst (m src)) (src + 1) len = m.slice (src + 1) len := by
      apply slice_congr
      intro i hi
      exact update_of_ne (by omega) _ _
    unfold move
    rw [hTail, slice_succ]
    funext j
    rcases Nat.lt_trichotomy j dst with hLt | rfl | hGt
    · rw [write_of_lt (by omega), write_of_lt hLt, update_of_ne (by omega)]
    · rw [write_of_lt (by omega), update_self]
      simp [write]
    · have hStep : j - dst = j - (dst + 1) + 1 := by omega
      rw [write, write, if_pos (by omega), if_pos (by omega), hStep, getElem?_cons_succ,
        update_of_ne (by omega)]

end Memory
