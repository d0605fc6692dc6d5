import BootFirmware.Uboot.Membuff.Model
import Mathlib.Data.List.TakeDrop

/-
  A memory buffer is a bounded byte queue.

  The queue is the bytes from the tail to the head, which
  lie in one range of the block or in two.  Every call acts
  on the queue as `Fifo.Step` says, and stays inside the
  block.

  Key definitions include:
    * `Membuff.used` and `Membuff.contents`
    * `Membuff.Valid`
    * `Fifo.Step` and `Fifo.Run`

  The main results are:
    * `contents_fill` and `contents_advance`
    * `readlineLoop_eq`
    * `call_fifo`
    * `membuff_is_fifo`
-/

----
-- The Queue In The Block
----

namespace Uboot.Membuff

open List

/- The number of bytes queued. -/
def used (mb : Membuff) : Nat :=
  if mb.tail ≤ mb.head then mb.head - mb.tail
  else mb.size - mb.tail + mb.head

/- The bytes queued, the next one to read first. -/
def contents (mb : Membuff) : List UInt8 :=
  if mb.tail ≤ mb.head then
    mb.mem.slice mb.tail (mb.head - mb.tail)
  else
    mb.mem.slice mb.tail (mb.size - mb.tail) ++ mb.mem.slice 0 mb.head

/- Head and tail point into the block. -/
structure Valid (mb : Membuff) : Prop where
  head_lt : mb.head < mb.size
  tail_lt : mb.tail < mb.size

/- The room left: one byte of the block is never used. -/
def room (mb : Membuff) : Nat :=
  mb.size - 1 - mb.used

@[simp] theorem length_contents (mb : Membuff) :
    mb.contents.length = mb.used := by
  unfold contents used
  split <;> simp

variable {mb : Membuff}

theorem used_lt (hValid : mb.Valid) :
    mb.used < mb.size := by
  rcases hValid with ⟨hHead, hTail⟩
  unfold used
  split <;> omega

/- The buffer with the head moved past bytes written. -/
def fill (mb : Membuff) (xs : List UInt8) : Membuff :=
  { mb with
    mem := mb.mem.write mb.head xs
    head :=
      if mb.head + xs.length = mb.size then 0
      else mb.head + xs.length }

/- The buffer with the tail moved past bytes read. -/
def advance (mb : Membuff) (k : Nat) : Membuff :=
  { mb with
    tail :=
      if mb.tail + k < mb.size then mb.tail + k
      else mb.tail + k - mb.size }

/- Bytes written at the head come last. -/
theorem contents_fill (xs : List UInt8) (hValid : mb.Valid) (hEnd : mb.head + xs.length ≤ mb.size)
    (hRoom : xs.length ≤ mb.room) :
    (mb.fill xs).contents = mb.contents ++ xs ∧ (mb.fill xs).Valid := by
  rcases hValid with ⟨hHead, hTail⟩
  unfold room used at hRoom
  by_cases hOrder : mb.tail ≤ mb.head
  · rw [if_pos hOrder] at hRoom
    have hOld :
        (mb.mem.write mb.head xs).slice mb.tail (mb.head - mb.tail) =
          mb.mem.slice mb.tail (mb.head - mb.tail) :=
      Memory.slice_write_apart (Or.inl (by omega))
    have hSplit : mb.head + xs.length - mb.tail = mb.head - mb.tail + xs.length := by omega
    have hAll :
        (mb.mem.write mb.head xs).slice mb.tail (mb.head + xs.length - mb.tail) =
          mb.mem.slice mb.tail (mb.head - mb.tail) ++ xs := by
      rw [hSplit, Memory.slice_add, hOld, Nat.add_sub_cancel' hOrder, Memory.slice_write_self]
    by_cases hWrap : mb.head + xs.length = mb.size
    · have hPos : ¬ mb.tail ≤ 0 := by omega
      refine ⟨?_, ⟨?_, hTail⟩⟩
      · unfold contents fill
        rw [if_pos hOrder, if_pos hWrap]
        rw [if_neg hPos, Memory.slice_zero, append_nil, ← hWrap, hAll]
      · unfold fill
        rw [if_pos hWrap]
        dsimp only
        omega
    · refine ⟨?_, ⟨?_, hTail⟩⟩
      · unfold contents fill
        rw [if_pos hOrder, if_neg hWrap]
        dsimp only
        rw [if_pos (by omega), hAll]
      · unfold fill
        rw [if_neg hWrap]
        dsimp only
        omega
  · rw [if_neg hOrder] at hRoom
    have hWrap : ¬ mb.head + xs.length = mb.size := by omega
    have hTop :
        (mb.mem.write mb.head xs).slice mb.tail (mb.size - mb.tail) =
          mb.mem.slice mb.tail (mb.size - mb.tail) :=
      Memory.slice_write_apart (Or.inr (by omega))
    have hBottom :
        (mb.mem.write mb.head xs).slice 0 (mb.head + xs.length) = mb.mem.slice 0 mb.head ++ xs := by
      rw [Memory.slice_add, Nat.zero_add, Memory.slice_write_self,
        Memory.slice_write_apart (Or.inl (by omega))]
    refine ⟨?_, ⟨?_, hTail⟩⟩
    · unfold contents fill
      rw [if_neg hOrder, if_neg hWrap]
      dsimp only
      rw [if_neg (by omega), hTop, hBottom, append_assoc]
    · unfold fill
      rw [if_neg hWrap]
      dsimp only
      omega

variable {k : Nat}

/- Bytes read at the tail are taken off the front. -/
theorem contents_advance (hValid : mb.Valid) (hk : k ≤ mb.used) :
    (mb.advance k).contents = mb.contents.drop k ∧ (mb.advance k).Valid := by
  rcases hValid with ⟨hHead, hTail⟩
  unfold used at hk
  by_cases hOrder : mb.tail ≤ mb.head
  · rw [if_pos hOrder] at hk
    have hIn : mb.tail + k < mb.size := by omega
    refine ⟨?_, ⟨hHead, ?_⟩⟩
    · unfold contents advance
      rw [if_pos hOrder, if_pos hIn]
      dsimp only
      rw [if_pos (by omega), Memory.drop_slice, Nat.sub_add_eq]
    · unfold advance
      rw [if_pos hIn]
      exact hIn
  · rw [if_neg hOrder] at hk
    by_cases hIn : mb.tail + k < mb.size
    · refine ⟨?_, ⟨hHead, ?_⟩⟩
      · unfold contents advance
        rw [if_neg hOrder, if_pos hIn]
        dsimp only
        rw [if_neg (by omega), drop_append_of_le_length (by simp; omega),
          Memory.drop_slice, Nat.sub_add_eq]
      · unfold advance
        rw [if_pos hIn]
        exact hIn
    · refine ⟨?_, ⟨hHead, ?_⟩⟩
      · unfold contents advance
        rw [if_neg hOrder, if_neg hIn]
        dsimp only
        rw [if_pos (by omega), drop_append, Memory.length_slice, Memory.drop_slice,
          Memory.drop_slice,
          show mb.size - mb.tail - k = 0 by omega, Memory.slice_zero, nil_append]
        congr 1 <;> omega
      · unfold advance
        rw [if_neg hIn]
        dsimp only
        omega

theorem contents_take_slice (hk : k ≤ mb.used) (hEnd : mb.tail + k ≤ mb.size) :
    mb.mem.slice mb.tail k = mb.contents.take k := by
  unfold used at hk
  unfold contents
  by_cases hOrder : mb.tail ≤ mb.head
  · rw [if_pos hOrder] at hk ⊢
    rw [Memory.take_slice, Nat.min_eq_left hk]
  · rw [if_neg hOrder]
    rw [take_append_of_le_length (by simp; omega),
      Memory.take_slice, Nat.min_eq_left (by omega)]

----
-- Writing
----

theorem capLen_natCast (len maxlen : Nat) :
    capLen len maxlen = ((min len maxlen : Nat) : Int) := by
  unfold capLen
  split <;> omega

/-
  What `membuff_putraw` allows to write: at most what was
  asked for and what fits, up to the end of the block, and
  less only when the rest fits at its start.
-/
theorem membuffPutraw_eq (hValid : mb.Valid) (n : Nat) :
    ∃ k : Nat, mb.membuffPutraw n true = ({ mb with
            head :=
              if mb.head + k = mb.size then 0
              else mb.head + k },
          mb.head, (k : Int)) ∧
      k ≤ n ∧ k ≤ mb.room ∧ mb.head + k ≤ mb.size ∧
      (k = min n mb.room ∨ (mb.tail ≤ mb.head ∧ 0 < mb.tail ∧ mb.head + k = mb.size)) := by
  rcases hValid with ⟨hHead, hTail⟩
  unfold membuffPutraw room used
  by_cases hOrder : mb.tail ≤ mb.head
  · have hSub : (mb.size : Int) - mb.head - 1 = ((mb.size - mb.head - 1 : Nat) : Int) := by omega
    rw [if_pos (ge_iff_le.mpr hOrder), if_pos hOrder, hSub, capLen_natCast]
    by_cases hMore : mb.size - mb.head - 1 < n ∧ mb.tail ≠ 0
    · have hTest :
          ((n : Int) < 0 ∨
            ((min (mb.size - mb.head - 1) n : Nat) : Int) < n) ∧ mb.tail ≠ 0 := by omega
      refine ⟨mb.size - mb.head, ?_, by omega, by omega,
        by omega, Or.inr ⟨hOrder, by omega, by omega⟩⟩
      have hLen :
          ((min (mb.size - mb.head - 1) n : Nat) : Int) + 1 =
            ((mb.size - mb.head : Nat) : Int) := by omega
      have hWrap : mb.head + (mb.size - mb.head) = mb.size := by omega
      simp only [if_true, if_pos hTest, if_pos hWrap, hLen]
    · have hTest :
          ¬ (((n : Int) < 0 ∨
            ((min (mb.size - mb.head - 1) n : Nat) : Int) < n) ∧ mb.tail ≠ 0) := by omega
      refine ⟨min (mb.size - mb.head - 1) n, ?_, by omega, by omega, by omega, Or.inl (by omega)⟩
      have hIn : ¬ mb.head + min (mb.size - mb.head - 1) n = mb.size := by omega
      simp only [if_true, if_neg hTest, if_neg hIn, Int.toNat_natCast]
  · have hSub : (mb.tail : Int) - mb.head - 1 = ((mb.tail - mb.head - 1 : Nat) : Int) := by omega
    rw [if_neg (show ¬ mb.head ≥ mb.tail from hOrder), if_neg hOrder, hSub, capLen_natCast]
    refine ⟨min (mb.tail - mb.head - 1) n, ?_, by omega, by omega, by omega, Or.inl (by omega)⟩
    have hIn : ¬ mb.head + min (mb.tail - mb.head - 1) n = mb.size := by omega
    simp only [if_true, if_neg hIn, Int.toNat_natCast]

theorem putLoop_succ (hValid : mb.Valid) (i : Nat) (buff : List UInt8) (written : Int) :
    ∃ k : Nat, putLoop (i + 1) mb buff written =
        putLoop i (mb.fill (buff.take k)) (buff.drop k) (written + k) ∧
      (mb.fill (buff.take k)).contents = mb.contents ++ buff.take k ∧
      (mb.fill (buff.take k)).Valid ∧ k ≤ buff.length ∧ k ≤ mb.room ∧ (k = min buff.length mb.room ∨
        (mb.tail ≤ mb.head ∧ (mb.fill (buff.take k)).head < (mb.fill (buff.take k)).tail)) := by
  rcases membuffPutraw_eq hValid buff.length with ⟨k, hRaw, hLe, hRoom, hEnd, hRest⟩
  have hTake : (buff.take k).length = k := by rw [length_take, Nat.min_eq_left hLe]
  have hFill := contents_fill (buff.take k) hValid
    (by rw [hTake]; exact hEnd) (by rw [hTake]; exact hRoom)
  refine ⟨k, ?_, hFill.1, hFill.2, hLe, hRoom, ?_⟩
  · rw [putLoop, hRaw]
    dsimp only
    rw [Int.toNat_natCast, store, hTake, if_pos hEnd]
    rw [fill, hTake]
  · rcases hRest with hAll | ⟨hOrder, hTail, hWrap⟩
    · exact Or.inl hAll
    · refine Or.inr ⟨hOrder, ?_⟩
      unfold fill
      rw [hTake, if_pos hWrap]
      exact hTail

variable {mb mb' : Membuff}

theorem room_of_append
    {xs : List UInt8} (hSize : mb'.size = mb.size) (hAppend : mb'.contents = mb.contents ++ xs) :
    mb'.used = mb.used + xs.length ∧ mb'.room = mb.room - xs.length := by
  have hUsed : mb'.used = mb.used + xs.length := by
    rw [← length_contents mb', hAppend, length_append, length_contents]
  refine ⟨hUsed, ?_⟩
  unfold room
  rw [hUsed, hSize]
  omega

/- Everything that fits is written after the bytes queued. -/
theorem membuffPut_eq (hValid : mb.Valid) (buff : List UInt8) :
    ∃ mb', mb.membuffPut buff = some (mb', ((min buff.length mb.room : Nat) : Int)) ∧
      mb'.contents = mb.contents ++ buff.take (min buff.length mb.room) ∧
      mb'.Valid ∧ mb'.size = mb.size := by
  rcases putLoop_succ hValid 1 buff 0 with ⟨k, hRun, hCont, hValid', hLe, hRoom, hRest⟩
  let mid := mb.fill (buff.take k)
  have hTake : (buff.take k).length = k := by rw [length_take, Nat.min_eq_left hLe]
  have hSame : mid.size = mb.size := rfl
  have hMid := (room_of_append hSame hCont).2
  rw [hTake] at hMid
  rcases putLoop_succ hValid' 0 (buff.drop k) (0 + k) with
    ⟨k', hRun', hCont', hValid'', hLe', hRoom', hRest'⟩
  rw [length_drop] at hLe' hRest'
  have hTotal : k + k' = min buff.length mb.room := by
    change k' ≤ mid.room at hRoom'
    change k' = min (buff.length - k) mid.room ∨ (mid.tail ≤ mid.head ∧ _) at hRest'
    rcases hRest with hAll | ⟨_, hWrapped⟩
    · omega
    · change mid.head < mid.tail at hWrapped
      omega
  refine ⟨mid.fill ((buff.drop k).take k'), ?_, ?_, hValid'', rfl⟩
  · unfold membuffPut
    rw [hRun, hRun', putLoop, ← hTotal]
    simp [mid]
  · rw [hCont', hCont, append_assoc, ← take_add, hTotal]

theorem membuffPutbyte_eq (hValid : mb.Valid) (ch : Int) :
    ∃ mb', mb.membuffPutbyte ch = some (mb', decide (0 < mb.room)) ∧ mb'.contents =
        (if 0 < mb.room then
          mb.contents ++ [UInt8.ofNat (ch % 256).toNat]
        else
          mb.contents) ∧
      mb'.Valid ∧ mb'.size = mb.size := by
  let byte := UInt8.ofNat (ch % 256).toNat
  rcases membuffPutraw_eq hValid 1 with ⟨k, hRaw, hLe, hRoom, hEnd, hRest⟩
  rw [Int.natCast_one] at hRaw
  unfold membuffPutbyte
  rw [hRaw]
  dsimp only
  by_cases hPos : 0 < mb.room
  · have hOne : k = 1 := by
      rcases hValid with ⟨hHead, hTail⟩
      omega
    subst hOne
    have hFill := contents_fill [byte] hValid hEnd hRoom
    refine ⟨mb.fill [byte], ?_, ?_, hFill.2, rfl⟩
    · rw [Int.natCast_one, if_neg (by omega), store,
        if_pos (show mb.head + [byte].length ≤ mb.size from hEnd), decide_eq_true hPos]
      rfl
    · rw [if_pos hPos]
      exact hFill.1
  · have hZero : k = 0 := by omega
    have hHead : ¬ mb.head + 0 = mb.size := by
      have hLt := hValid.head_lt
      omega
    subst hZero
    refine ⟨mb, ?_, ?_, hValid, rfl⟩
    · rw [Int.natCast_zero, if_pos (by omega), if_neg hHead, decide_eq_false hPos]
      rfl
    · rw [if_neg hPos]

----
-- Reading
----

/-
  What `membuff_getraw` finds at the tail: at most what was
  asked for and what is queued, up to the end of the block,
  and less only when the rest is at its start.
-/
theorem membuffGetraw_eq (hValid : mb.Valid) (n : Nat) (update : Bool) :
    ∃ k : Nat,
      mb.membuffGetraw n update = (if update then mb.advance k else mb, mb.tail, (k : Int)) ∧
      k ≤ n ∧ k ≤ mb.used ∧ mb.tail + k ≤ mb.size ∧
      (k = min n mb.used ∨ (mb.head < mb.tail ∧ mb.tail + k = mb.size)) := by
  rcases hValid with ⟨hHead, hTail⟩
  unfold membuffGetraw used advance
  by_cases hAbove : mb.head > mb.tail
  · have hSub : (mb.head : Int) - mb.tail = ((mb.head - mb.tail : Nat) : Int) := by omega
    rw [if_pos hAbove, if_pos (Nat.le_of_lt hAbove), hSub, capLen_natCast]
    refine ⟨min (mb.head - mb.tail) n, ?_, by omega, by omega, by omega, Or.inl (by omega)⟩
    rw [if_pos (show mb.tail + min (mb.head - mb.tail) n < mb.size by omega)]
    simp only [Int.toNat_natCast]
  · rw [if_neg hAbove]
    by_cases hBelow : mb.head < mb.tail
    · have hSub : (mb.size : Int) - mb.tail = ((mb.size - mb.tail : Nat) : Int) := by omega
      rw [if_pos hBelow, if_neg (Nat.not_le.mpr hBelow), hSub, capLen_natCast]
      refine ⟨min (mb.size - mb.tail) n, ?_, by omega, by omega, by omega, by omega⟩
      have hTailEq :
          (if mb.tail + min (mb.size - mb.tail) n = mb.size
            then 0
            else mb.tail + min (mb.size - mb.tail) n) =
          if mb.tail + min (mb.size - mb.tail) n < mb.size
            then mb.tail + min (mb.size - mb.tail) n
            else mb.tail + min (mb.size - mb.tail) n -
              mb.size := by
        split <;> split <;> omega
      simp only [Int.toNat_natCast, hTailEq]
    · rw [if_neg hBelow, if_pos (by omega)]
      refine ⟨0, ?_, by omega, by omega, by omega, Or.inl (by omega)⟩
      rw [if_pos (show mb.tail + 0 < mb.size by omega)]
      simp

theorem load_eq (hk : k ≤ mb.used) (hEnd : mb.tail + k ≤ mb.size) :
    mb.load mb.tail k = some (mb.contents.take k) := by
  unfold load
  rw [if_pos hEnd, contents_take_slice hk hEnd]

section

variable (hValid : mb.Valid)
include hValid

theorem used_advance {k : Nat} (hk : k ≤ mb.used) :
    (mb.advance k).used = mb.used - k := by
  rw [← length_contents, (contents_advance hValid hk).1, length_drop, length_contents]

theorem getLoop_succ (i n : Nat) (out : List UInt8) :
    ∃ k : Nat, getLoop (i + 1) mb n out = (if k = 0 then
          some (mb.advance k, out ++ mb.contents.take k)
        else
          getLoop i (mb.advance k) ((n - k : Nat) : Int) (out ++ mb.contents.take k)) ∧
      k ≤ n ∧ k ≤ mb.used ∧ (k = min n mb.used ∨ (mb.head < mb.tail ∧ mb.tail + k = mb.size)) := by
  rcases membuffGetraw_eq hValid n true with ⟨k, hRaw, hLe, hUsed, hEnd, hRest⟩
  refine ⟨k, ?_, hLe, hUsed, hRest⟩
  rw [getLoop, hRaw]
  have hLoad := load_eq hUsed hEnd
  dsimp only
  rw [Int.toNat_natCast]
  unfold load at hLoad ⊢
  rw [if_pos hEnd] at hLoad
  have hSub : (n : Int) - k = ((n - k : Nat) : Int) := by omega
  have hSlice := Option.some.inj hLoad
  simp only [if_true, advance, if_pos hEnd, hSlice, hSub, Int.natCast_eq_zero]

/- The first bytes are read, as many as there are. -/
theorem membuffGet_eq (n : Nat) :
    ∃ mb', mb.membuffGet n = some (mb', mb.contents.take n) ∧ mb'.contents = mb.contents.drop n ∧
      mb'.Valid ∧ mb'.size = mb.size := by
  have hTakeUsed :
      ∀ m, min n mb.used = m →
        mb.contents.take m = mb.contents.take n ∧ mb.contents.drop m = mb.contents.drop n := by
    intro m hm
    rcases Nat.le_total n mb.used with hLe | hGe
    · rw [← hm, Nat.min_eq_left hLe]
      exact ⟨rfl, rfl⟩
    · have hLen : mb.contents.length ≤ n := by
        rw [length_contents]
        exact hGe
      have hLen' : mb.contents.length ≤ m := by
        rw [length_contents]
        omega
      rw [take_of_length_le hLen, take_of_length_le hLen', drop_eq_nil_of_le hLen,
        drop_eq_nil_of_le hLen']
      exact ⟨rfl, rfl⟩
  rcases getLoop_succ hValid 1 n [] with ⟨k, hRun, hLe, hUsed, hRest⟩
  have hAdv := contents_advance hValid hUsed
  have hLeft := used_advance hValid hUsed
  unfold membuffGet
  rw [hRun, nil_append]
  by_cases hk : k = 0
  · rw [if_pos hk]
    have hMin : min n mb.used = k := by
      rcases hRest with hAll | ⟨_, hWrap⟩
      · exact hAll.symm
      · have hTail := hValid.tail_lt
        omega
    rcases hTakeUsed k hMin with ⟨hTake, hDrop⟩
    exact ⟨mb.advance k, by rw [hTake], by rw [hAdv.1, hDrop], hAdv.2, rfl⟩
  · rw [if_neg hk]
    rcases getLoop_succ hAdv.2 0 (n - k) (mb.contents.take k) with ⟨k', hRun', hLe', hUsed', hRest'⟩
    have hAdv' := contents_advance hAdv.2 hUsed'
    have hMin : min n mb.used = k + k' := by
      rw [hLeft] at hUsed' hRest'
      rcases hRest with hAll | ⟨hBelow, hWrap⟩
      · omega
      · rcases hRest' with hAll' | ⟨hBelow', _⟩
        · omega
        · exfalso
          unfold advance at hBelow'
          rw [if_neg (by omega)] at hBelow'
          dsimp only at hBelow'
          omega
    rcases hTakeUsed (k + k') hMin with ⟨hTake, hDrop⟩
    refine ⟨(mb.advance k).advance k', ?_, ?_, hAdv'.2, rfl⟩
    · rw [hRun', getLoop, ite_self, hAdv.1, ← take_add, hTake]
    · rw [hAdv'.1, hAdv.1, drop_drop, hDrop]

/- The first byte, or -1 when there is none. -/
theorem byteAt_eq (update : Bool) :
    mb.byteAt update =
      match mb.contents with
      | [] => some (mb, -1)
      | b :: _ => some (if update then mb.advance 1 else mb, (b.toNat : Int)) := by
  rcases membuffGetraw_eq hValid 1 update with ⟨k, hRaw, hLe, hUsed, hEnd, hRest⟩
  rw [Int.natCast_one] at hRaw
  have hk : k = min 1 mb.used := by
    rcases hRest with hAll | ⟨hBelow, hWrap⟩
    · exact hAll
    · have hTail := hValid.tail_lt
      omega
  have hLen := length_contents mb
  unfold byteAt
  rw [hRaw]
  dsimp only
  cases hCont : mb.contents with
  | nil =>
    rw [hCont, length_nil] at hLen
    have hZero : k = 0 := by omega
    subst hZero
    have hSame : mb.advance 0 = mb := by
      unfold advance
      rw [if_pos (by exact hValid.tail_lt), Nat.add_zero]
    rw [Int.natCast_zero, if_pos (by omega), hSame, ite_self]
  | cons b rest =>
    rw [hCont, length_cons] at hLen
    have hOne : k = 1 := by omega
    subst hOne
    have hLoad := load_eq hUsed hEnd
    rw [hCont] at hLoad
    rw [Int.natCast_one, if_neg (by omega)]
    unfold load at hLoad ⊢
    rw [if_pos hEnd] at hLoad
    have hSlice := Option.some.inj hLoad
    cases update
    · simp [hEnd, hSlice]
    · simp [advance, hEnd, hSlice]

theorem membuffGetraw_negative (update : Bool) :
    mb.membuffGetraw (-1) update = mb.membuffGetraw mb.size update := by
  rcases hValid with ⟨hHead, hTail⟩
  have hCap : ∀ len : Int, 0 ≤ len → len ≤ mb.size → capLen len (-1) = capLen len mb.size := by
    intro len hPos hLe
    unfold capLen
    rw [if_neg (by omega), if_neg (by omega)]
  unfold membuffGetraw
  by_cases hAbove : mb.head > mb.tail
  · rw [if_pos hAbove, if_pos hAbove, hCap _ (by omega) (by omega)]
  · rw [if_neg hAbove, if_neg hAbove]
    by_cases hBelow : mb.head < mb.tail
    · rw [if_pos hBelow, if_pos hBelow, hCap _ (by omega) (by omega)]
    · rw [if_neg hBelow, if_neg hBelow]

theorem membuffAvail_eq : mb.membuffAvail = mb.used := by
  have hLt := used_lt hValid
  rcases membuffGetraw_eq hValid mb.size true with ⟨k, hRaw, hLe, hUsed, hEnd, hRest⟩
  have hAdv := contents_advance hValid hUsed
  have hLeft := used_advance hValid hUsed
  have hSize : (mb.advance k).size = mb.size := rfl
  rcases membuffGetraw_eq hAdv.2 mb.size true with ⟨k', hRaw', hLe', hUsed', hEnd', hRest'⟩
  unfold membuffAvail
  rw [membuffGetraw_negative hValid, hRaw]
  dsimp only
  rw [if_pos rfl, membuffGetraw_negative hAdv.2, hSize, hRaw']
  dsimp only
  rcases hRest with hAll | ⟨hBelow, hWrap⟩
  · omega
  · rcases hRest' with hAll' | ⟨hBelow', _⟩
    · omega
    · exfalso
      unfold advance at hBelow'
      rw [if_neg (by omega)] at hBelow'
      dsimp only at hBelow'
      omega

/- Together, the bytes queued and the room fill the block. -/
theorem membuffAvail_add_membuffFree : mb.membuffAvail + mb.membuffFree = (mb.size : Int) - 1 := by
  have hLt := used_lt hValid
  unfold membuffFree
  rw [if_neg (by omega)]
  omega

----
-- Lines
----

/- Where a byte of the queue lies in the block. -/
theorem getElem?_contents {i : Nat} (hi : i < mb.used) :
    mb.contents[i]? = some (mb.mem
        (if mb.tail + i < mb.size then mb.tail + i
          else mb.tail + i - mb.size)) := by
  rcases hValid with ⟨hHead, hTail⟩
  unfold used at hi
  unfold contents
  by_cases hOrder : mb.tail ≤ mb.head
  · rw [if_pos hOrder] at hi ⊢
    rw [Memory.getElem?_slice, if_pos hi, if_pos (by omega)]
  · rw [if_neg hOrder] at hi ⊢
    by_cases hTop : i < mb.size - mb.tail
    · rw [getElem?_append_left (by simpa using hTop),
        Memory.getElem?_slice, if_pos hTop, if_pos (by omega)]
    · rw [getElem?_append_right (by simp; omega), Memory.length_slice, Memory.getElem?_slice,
        if_pos (by omega), if_neg (by omega)]
      congr 2
      omega

end

/-
  The positions of the reading loop after `i` bytes: within
  one range, in the upper one, or in the lower one.
-/
structure ReadingAt
    (mb : Membuff)
    (i s endp : Nat) : Prop where
  le_used : i ≤ mb.used
  straight : mb.tail ≤ mb.head → s = mb.tail + i ∧ endp = mb.head
  upper : mb.head < mb.tail → i < mb.size - mb.tail → s = mb.tail + i ∧ endp = mb.size
  lower : mb.head < mb.tail → mb.size - mb.tail ≤ i → s = i - (mb.size - mb.tail) ∧ endp = mb.head

/- The position after byte `j`. -/
def positionAfter (mb : Membuff) (j : Nat) : Nat :=
  if mb.tail ≤ mb.head ∨ j < mb.size - mb.tail then
    mb.tail + j + 1
  else
    j + 1 - (mb.size - mb.tail)

theorem ReadingAt.load
    {i s endp : Nat} (hValid : mb.Valid) (hAt : ReadingAt mb i s endp) (hi : i < mb.used) :
    s < endp ∧ mb.positionAfter i = s + 1 ∧
      ∃ b, mb.load s 1 = some [b] ∧ mb.contents[i]? = some b := by
  have hByte := getElem?_contents hValid hi
  rcases hValid with ⟨hHead, hTail⟩
  rcases hAt with ⟨_, hStraight, hUpper, hLower⟩
  unfold used at hi
  unfold positionAfter Membuff.load
  by_cases hOrder : mb.tail ≤ mb.head
  · rcases hStraight hOrder with ⟨rfl, rfl⟩
    rw [if_pos hOrder] at hi
    refine ⟨by omega, by rw [if_pos (Or.inl hOrder)], mb.mem (mb.tail + i), ?_, ?_⟩
    · rw [if_pos (by omega)]
      rfl
    · rw [hByte, if_pos (by omega)]
  · rw [if_neg hOrder] at hi
    by_cases hTop : i < mb.size - mb.tail
    · rcases hUpper (by omega) hTop with ⟨rfl, rfl⟩
      refine ⟨by omega, by rw [if_pos (Or.inr hTop)], mb.mem (mb.tail + i), ?_, ?_⟩
      · rw [if_pos (by omega)]
        rfl
      · rw [hByte, if_pos (by omega)]
    · rcases hLower (by omega) (by omega) with ⟨rfl, rfl⟩
      refine ⟨by omega, ?_, mb.mem (i - (mb.size - mb.tail)), ?_, ?_⟩
      · rw [if_neg (by omega)]
        omega
      · rw [if_pos (by omega)]
        rfl
      · rw [hByte, if_neg (by omega)]
        congr 2
        omega

/- At the end of the queue nothing is left to read. -/
theorem ReadingAt.done {s endp : Nat} (hAt : ReadingAt mb mb.used s endp) :
    ¬ s < endp := by
  rcases hAt with ⟨_, hStraight, _, hLower⟩
  by_cases hOrder : mb.tail ≤ mb.head
  · have hPos := hStraight hOrder
    unfold used at hPos
    rw [if_pos hOrder] at hPos
    omega
  · have hUsed : mb.used = mb.size - mb.tail + mb.head := by
      unfold used
      rw [if_neg hOrder]
    omega

/-
  Once the lower range is read it is read again, but it
  holds no end of a line.
-/
theorem readlineLoop_again {signed : Bool} {minch : Int}
    (hValid : mb.Valid) (hNone : ∀ j, j < mb.head → endsLine signed minch (mb.mem j) = false)
    (room s : Nat) (out : List UInt8) :
    readlineLoop signed minch mb room s mb.head out = some none := by
  induction room generalizing s out with
  | zero => rfl
  | succ room ih =>
    rw [readlineLoop]
    by_cases hEnd : s < mb.head
    · have hIn : s + 1 ≤ mb.size := by
        have hHead := hValid.head_lt
        omega
      have hLoad : mb.load s 1 = some [mb.mem s] := by
        unfold load
        rw [if_pos hIn]
        rfl
      rw [if_neg (not_not.mpr hEnd), hLoad]
      simp only [any_cons, hNone s hEnd, any_nil, Bool.or_false, ih, ite_self, if_false,
        Bool.false_eq_true]
    · rw [if_pos hEnd]

/- The first byte that ends a line, if it is in the queue. -/
def lineEnd (signed : Bool) (minch : Int)
    (bytes : List UInt8) : Option Nat :=
  bytes.findIdx? (endsLine signed minch)

/-
  The loop copies the queue up to the first end of a line,
  if that comes before the room is used up.
-/
theorem readlineLoop_eq
    (signed : Bool) (minch : Int) (hValid : mb.Valid) (room : Nat) {i s endp : Nat}
    (hAt : ReadingAt mb i s endp)
    (hBefore : ∀ j, lineEnd signed minch mb.contents = some j → i ≤ j) :
    readlineLoop signed minch mb room s endp (mb.contents.take i) = some
        (match lineEnd signed minch mb.contents with
          | some j =>
            if j < i + room then
              some (mb.contents.take (j + 1), mb.positionAfter j)
            else
              none
          | none => none) := by
  induction room generalizing i s endp with
  | zero =>
    rw [readlineLoop]
    cases hEnd : lineEnd signed minch mb.contents with
    | none => rfl
    | some j =>
      have hLe := hBefore j hEnd
      dsimp only
      rw [if_neg (by omega)]
  | succ room ih =>
    rcases Nat.lt_or_ge i mb.used with hi | hGe
    · rcases hAt.load hValid hi with ⟨hLt, hPos, b, hLoad, hByte⟩
      have hTake : mb.contents.take i ++ [b] = mb.contents.take (i + 1) := by
        rw [take_add_one, hByte]
        rfl
      rw [readlineLoop, if_neg (not_not.mpr hLt), hLoad]
      dsimp only
      rw [hTake]
      by_cases hb : endsLine signed minch b = true
      · have hEnd : lineEnd signed minch mb.contents = some i := by
          have hSome : (lineEnd signed minch mb.contents).isSome := by
            unfold lineEnd
            rw [findIdx?_isSome, any_eq_true]
            exact ⟨b, mem_of_getElem? hByte, hb⟩
          rcases Option.isSome_iff_exists.mp hSome with ⟨j, hj⟩
          have hLe := hBefore j hj
          rcases Nat.eq_or_lt_of_le hLe with rfl | hBad
          · exact hj
          · exfalso
            have hFirst := (findIdx?_eq_some_iff_getElem.mp hj).2.2 i hBad
            rw [getElem?_eq_some_iff] at hByte
            rcases hByte with ⟨_, hEq⟩
            rw [hEq] at hFirst
            exact hFirst hb
        rw [hEnd]
        simp [hb, hPos]
      · have hNext : ∀ j, lineEnd signed minch mb.contents = some j → i + 1 ≤ j := by
          intro j hj
          have hLe := hBefore j hj
          rcases Nat.eq_or_lt_of_le hLe with rfl | hGt
          · exfalso
            rcases findIdx?_eq_some_iff_getElem.mp hj with ⟨hIn, hEnds, _⟩
            rw [getElem?_eq_getElem hIn] at hByte
            rw [Option.some.inj hByte] at hEnds
            exact hb hEnds
          · exact hGt
        have hRoom : i + (room + 1) = i + 1 + room := by omega
        simp only [any_cons, hb, any_nil, Bool.or_false, if_false, hRoom,
          Bool.false_eq_true]
        by_cases hJump : s + 1 = endp ∧ mb.tail > mb.head
        · rw [if_pos hJump]
          by_cases hTop : i < mb.size - mb.tail
          · -- the upper range is done
            have hSame := hAt.upper hJump.2 hTop
            apply ih _ hNext
            exact {
              le_used := hi
              straight := fun hOrder => by omega
              upper := fun _ hIn => by omega
              lower := fun _ _ => ⟨by omega, rfl⟩ }
          · -- the lower range is done
            have hSame := hAt.lower hJump.2 (by omega)
            have hAll : i + 1 = mb.used := by
              unfold used
              rw [if_neg (by omega)]
              omega
            have hNone : lineEnd signed minch mb.contents = none := by
              cases hEnd : lineEnd signed minch mb.contents with
              | none => rfl
              | some j =>
                have hLe := hNext j hEnd
                have hIn := (findIdx?_eq_some_iff_getElem.mp hEnd).1
                rw [length_contents] at hIn
                omega
            rw [hNone]
            apply readlineLoop_again hValid
            intro j hj
            have hMem : mb.mem j ∈ mb.contents := by
              unfold contents
              rw [if_neg (by omega)]
              apply mem_append_right
              apply mem_of_getElem? (i := j)
              rw [Memory.getElem?_slice, if_pos hj, Nat.zero_add]
            have hNo := findIdx?_eq_none_iff.mp hNone (mb.mem j) hMem
            simpa using hNo
        · rw [if_neg hJump]
          apply ih _ hNext
          have hSt := hAt.straight
          have hUp := hAt.upper
          have hLo := hAt.lower
          exact {
            le_used := hi
            straight := fun hOrder => by
              omega
            upper := fun hOrder hIn => by
              omega
            lower := fun hOrder hIn => by
              by_cases hTop : i < mb.size - mb.tail
              · omega
              · omega }
    · have hAll : i = mb.used := Nat.le_antisymm hAt.le_used hGe
      have hNone : lineEnd signed minch mb.contents = none := by
        cases hEnd : lineEnd signed minch mb.contents with
        | none => rfl
        | some j =>
          have hLe := hBefore j hEnd
          have hIn := (findIdx?_eq_some_iff_getElem.mp hEnd).1
          rw [length_contents] at hIn
          omega
      rw [readlineLoop, hNone, if_pos ((hAll ▸ hAt).done)]

theorem advance_positionAfter {j : Nat} (hValid : mb.Valid) (hj : j < mb.used) :
    { mb with
      tail :=
        if mb.positionAfter j = mb.size then 0
        else mb.positionAfter j } = mb.advance (j + 1) := by
  rcases hValid with ⟨hHead, hTail⟩
  unfold used at hj
  unfold positionAfter advance
  congr 1
  by_cases hOrder : mb.tail ≤ mb.head
  · rw [if_pos hOrder] at hj
    rw [if_pos (Or.inl hOrder), if_neg (by omega), if_pos (by omega)]
    omega
  · rw [if_neg hOrder] at hj
    by_cases hTop : j < mb.size - mb.tail
    · rw [if_pos (Or.inr hTop)]
      split <;> split <;> omega
    · rw [if_neg (show ¬ (mb.tail ≤ mb.head ∨ j < mb.size - mb.tail) by omega),
        if_neg (by omega), if_neg (by omega)]
      omega

/-
  A line is read when it is complete and, with its end, not
  longer than `maxlen - 1`.
-/
theorem membuffReadline_eq (signed : Bool) (hValid : mb.Valid) (maxlen : Nat) (minch : Int) :
    mb.membuffReadline signed maxlen minch =
      match lineEnd signed minch mb.contents with
      | some j =>
        if j < maxlen - 1 then
          some (mb.advance (j + 1), (j : Int) + 1, mb.contents.take j)
        else
          some (mb, 0, [])
      | none => some (mb, 0, []) := by
  have hStart : ReadingAt mb 0 mb.tail (if mb.head ≥ mb.tail then mb.head else mb.size) := by
    have hTail := hValid.tail_lt
    exact {
      le_used := Nat.zero_le _
      straight := fun hOrder => ⟨rfl, if_pos hOrder⟩
      upper := fun hOrder _ => ⟨rfl, if_neg (by omega)⟩
      lower := fun _ hTop => by omega }
  have hLoop := readlineLoop_eq signed minch hValid (maxlen - 1) hStart (fun j _ => Nat.zero_le j)
  rw [take_zero, Nat.zero_add] at hLoop
  have hRoom : ((maxlen : Int) - 1).toNat = maxlen - 1 := by omega
  unfold membuffReadline
  rw [hRoom]
  dsimp only
  rw [hLoop]
  cases hEnd : lineEnd signed minch mb.contents with
  | none => rfl
  | some j =>
    have hIn := (findIdx?_eq_some_iff_getElem.mp hEnd).1
    have hUsed : j < mb.used := by rwa [length_contents] at hIn
    by_cases hFits : j < maxlen - 1
    · have hLen : (mb.contents.take (j + 1)).length = j + 1 := by
        rw [length_take]
        omega
      have hLine : (mb.contents.take (j + 1)).dropLast = mb.contents.take j := by
        rw [dropLast_eq_take, hLen, take_take]
        congr 1
        omega
      simp only [if_pos hFits, advance_positionAfter hValid hUsed, hLen, hLine,
        Int.natCast_add, Int.natCast_one]
    · simp only [if_neg hFits]

----
-- Moving And Extending
----

/- Making the bytes contiguous keeps them, done or not. -/
theorem membuffMakecontig_eq (hValid : mb.Valid) :
    ∃ mb' ok, mb.membuffMakecontig = some (mb', ok) ∧ mb'.contents = mb.contents ∧
      mb'.Valid ∧ mb'.size = mb.size := by
  have hCopy := hValid
  rcases hCopy with ⟨hHead, hTail⟩
  unfold membuffMakecontig
  by_cases hSplit : mb.tail > mb.head
  · rw [if_pos hSplit]
    by_cases hFull : mb.head + (mb.size - mb.tail) ≥ mb.tail
    · rw [if_pos hFull]
      exact ⟨mb, false, rfl, rfl, hValid, rfl⟩
    · rw [if_neg hFull, if_pos (by omega)]
      refine ⟨_, true, rfl, ?_, ⟨by dsimp only; omega, by dsimp only; omega⟩, rfl⟩
      let lifted := mb.mem.move (mb.size - mb.tail) 0 mb.head
      have hUpper :
          lifted.slice mb.tail (mb.size - mb.tail) = mb.mem.slice mb.tail (mb.size - mb.tail) :=
        Memory.slice_move_apart (Or.inr (by omega))
      have hLower : lifted.slice (mb.size - mb.tail) mb.head = mb.mem.slice 0 mb.head :=
        Memory.slice_move_self _ _ _ _
      have hKeep :
          (lifted.move 0 mb.tail (mb.size - mb.tail)).slice (mb.size - mb.tail) mb.head =
            lifted.slice (mb.size - mb.tail) mb.head :=
        Memory.slice_move_apart (Or.inr (by omega))
      unfold contents
      rw [if_pos (Nat.zero_le _), if_neg (by omega),
        Memory.copyForward_eq_move (Or.inl (Nat.zero_le _)),
        Nat.sub_zero, Memory.slice_add, Nat.zero_add, Memory.slice_move_self, hKeep, hUpper, hLower]
  · rw [if_neg hSplit]
    refine ⟨_, true, rfl, ?_, ⟨by dsimp only; omega, by dsimp only; omega⟩, rfl⟩
    unfold contents
    rw [if_pos (Nat.zero_le _), if_pos (by omega),
      Memory.copyForward_eq_move (Or.inl (Nat.zero_le _)), Nat.sub_zero, Memory.slice_move_self]

/-
  Extending keeps the bytes: in a larger block when it
  succeeds, in the same one when it fails.
-/
theorem membuffExtendBy_eq {grow : Nat} {max ret : Int} {realloc : Option (Memory UInt8)}
    (hValid : mb.Valid) (hRun : mb.membuffExtendBy grow max realloc = some (mb', ret)) :
    mb'.contents = mb.contents ∧ mb'.Valid ∧
      (ret = 0 ∧ mb.size < mb'.size ∨ ret < 0 ∧ mb' = mb) := by
  rcases hValid with ⟨hHead, hTail⟩
  unfold membuffExtendBy at hRun
  split at hRun
  · cases hRun
  split at hRun
  · cases hRun
  dsimp only at hRun
  rename_i size _
  generalize hSize : (if max ≠ -1 then min (size : Int) max else (size : Int)) = size' at hRun
  split at hRun
  · cases hRun
    exact ⟨rfl, ⟨hHead, hTail⟩, Or.inr ⟨by decide, rfl⟩⟩
  split at hRun
  · cases hRun
    exact ⟨rfl, ⟨hHead, hTail⟩, Or.inr ⟨by decide, rfl⟩⟩
  rename_i fresh
  have hNew : size'.toNat = mb.size + (size' - mb.size).toNat := by omega
  have hPos : 0 < (size' - mb.size).toNat := by omega
  rw [hNew] at hRun
  generalize (size' - mb.size).toNat = more at hRun hPos
  have hOld :
      ∀ off len, off + len ≤ mb.size →
        Memory.slice (fun j => if j < mb.size then mb.mem j else fresh j) off len =
          mb.mem.slice off len := by
    intro off len hIn
    apply Memory.slice_congr
    intro i hi
    exact if_pos (by omega)
  split at hRun
  · cases hRun
    refine ⟨?_, ⟨by dsimp only; omega, by dsimp only; omega⟩, Or.inl ⟨rfl, by dsimp only; omega⟩⟩
    have hTop : mb.size + more - (mb.tail + more) = mb.size - mb.tail := by omega
    unfold contents
    dsimp only
    rw [if_neg (by omega), if_neg (by omega), hTop, Memory.slice_move_self,
      Memory.slice_move_apart (Or.inl (by omega)), hOld _ _ (by omega), hOld _ _ (by omega)]
  · cases hRun
    refine ⟨?_, ⟨by dsimp only; omega, by dsimp only; omega⟩, Or.inl ⟨rfl, by dsimp only; omega⟩⟩
    unfold contents
    dsimp only
    rw [if_pos (by omega), if_pos (by omega), hOld _ _ (by omega)]

end Membuff

----
-- The Abstract Queue
----

/- A byte queue that holds at most `capacity` bytes. -/
structure Fifo where
  capacity : Nat
  bytes : List UInt8

namespace Fifo

open Membuff

/- What each call does to a queue, and what it gives back. -/
def Step (signed : Bool)
    (q : Fifo) : Call → Reply → Fifo → Prop
  | .put buff, reply, q' =>
    let n := min buff.length (q.capacity - q.bytes.length)
    reply = .count n ∧ q' = { q with bytes := q.bytes ++ buff.take n }
  | .putbyte ch, reply, q' =>
    if q.bytes.length < q.capacity then
      reply = .flag true ∧ q' =
          { q with
            bytes := q.bytes ++ [UInt8.ofNat (ch % 256).toNat] }
    else
      reply = .flag false ∧ q' = q
  | .get maxlen, reply, q' =>
    reply = .bytes (q.bytes.take maxlen) ∧ q' = { q with bytes := q.bytes.drop maxlen }
  | .getbyte, reply, q' =>
    match q.bytes with
    | [] => reply = .count (-1) ∧ q' = q
    | b :: rest => reply = .count b.toNat ∧ q' = { q with bytes := rest }
  | .peekbyte, reply, q' =>
    q' = q ∧
      match q.bytes with
      | [] => reply = .count (-1)
      | b :: _ => reply = .count b.toNat
  | .readline maxlen minch, reply, q' =>
    match lineEnd signed minch q.bytes with
    | some j =>
      if j + 1 ≤ maxlen - 1 then
        reply = .line (j + 1) (q.bytes.take j) ∧ q' = { q with bytes := q.bytes.drop (j + 1) }
      else
        reply = .line 0 [] ∧ q' = q
    | none => reply = .line 0 [] ∧ q' = q
  | .makecontig, reply, q' => (∃ ok, reply = .flag ok) ∧ q' = q
  | .extendBy _ _ _, reply, q' =>
    (reply = .count 0 ∧ q.capacity < q'.capacity ∧ q'.bytes = q.bytes) ∨
    (∃ err, err < 0 ∧ reply = .count err ∧ q' = q)

/- What a sequence of calls does to a queue. -/
def Run (signed : Bool) :
    Fifo → List Call → List Reply → Fifo → Prop
  | q, [], replies, q' => replies = [] ∧ q' = q
  | q, c :: rest, replies, q' =>
    ∃ reply replies' mid, replies = reply :: replies' ∧ q.Step signed c reply mid ∧
      mid.Run signed rest replies' q'

end Fifo

namespace Membuff

/- The queue that a buffer holds. -/
def toFifo (mb : Membuff) : Fifo where
  capacity := mb.size - 1
  bytes := mb.contents

/- Extending whose arithmetic overflows or does not end. -/
def Call.Overflows (mb : Membuff) : Call → Prop
  | .extendBy grow _ _ =>
    intMax < mb.size + grow ∨ doubleSize mb.size (mb.size + grow) = none
  | _ => False

variable {mb mb' : Membuff}

theorem toFifo_eq
    {bytes : List UInt8} (hSize : mb'.size = mb.size) (hBytes : mb'.contents = bytes) :
    mb'.toFifo = { mb.toFifo with bytes := bytes } := by
  unfold toFifo
  rw [hSize, hBytes]

/- Each call acts on the queue of the buffer. -/
theorem call_fifo
    (signed : Bool) {mb : Membuff} {c : Call} (hValid : mb.Valid) (hDefined : ¬ c.Overflows mb) :
    ∃ mb' reply, mb.call signed c = some (mb', reply) ∧ mb'.Valid ∧
      mb.toFifo.Step signed c reply mb'.toFifo := by
  have hRoom : mb.room = mb.size - 1 - mb.contents.length := by
    rw [length_contents]
    rfl
  cases c with
  | put buff =>
    rcases membuffPut_eq hValid buff with ⟨mb', hRun, hCont, hValid', hSize⟩
    refine ⟨mb', _, by rw [call, hRun]; rfl, hValid', ?_⟩
    rw [hRoom] at hCont ⊢
    exact ⟨rfl, toFifo_eq hSize hCont⟩
  | putbyte ch =>
    rcases membuffPutbyte_eq hValid ch with ⟨mb', hRun, hCont, hValid', hSize⟩
    refine ⟨mb', .flag (decide (0 < mb.room)), by rw [call, hRun]; rfl, hValid', ?_⟩
    change if mb.contents.length < mb.size - 1 then _ else _
    by_cases hPos : 0 < mb.room
    · rw [if_pos hPos] at hCont
      rw [if_pos (by omega)]
      exact ⟨by simp [hPos], toFifo_eq hSize hCont⟩
    · rw [if_neg hPos] at hCont
      rw [if_neg (by omega)]
      exact ⟨by simp [hPos], toFifo_eq hSize hCont⟩
  | get maxlen =>
    rcases membuffGet_eq hValid maxlen with ⟨mb', hRun, hCont, hValid', hSize⟩
    exact ⟨mb', _, by rw [call, hRun]; rfl, hValid', rfl, toFifo_eq hSize hCont⟩
  | getbyte =>
    have hByte := byteAt_eq hValid true
    cases hCont : mb.contents with
    | nil =>
      rw [hCont] at hByte
      refine ⟨mb, .count (-1), by rw [call, membuffGetbyte, hByte]; rfl, hValid, ?_⟩
      simp [Fifo.Step, toFifo, hCont]
    | cons b rest =>
      rw [hCont] at hByte
      have hUsed : 1 ≤ mb.used := by
        rw [← length_contents, hCont, List.length_cons]
        omega
      have hAdv := contents_advance hValid hUsed
      rw [hCont, List.drop_one, List.tail_cons] at hAdv
      refine ⟨mb.advance 1, .count b.toNat, by rw [call, membuffGetbyte, hByte]; rfl, hAdv.2, ?_⟩
      have hSize : (mb.advance 1).size = mb.size := rfl
      simp [Fifo.Step, toFifo, hCont, hAdv.1, hSize]
  | peekbyte =>
    have hByte := byteAt_eq hValid false
    cases hCont : mb.contents with
    | nil =>
      rw [hCont] at hByte
      refine ⟨mb, .count (-1), by rw [call, membuffPeekbyte, hByte]; rfl, hValid, ?_⟩
      simp [Fifo.Step, toFifo, hCont]
    | cons b rest =>
      rw [hCont] at hByte
      refine ⟨mb, .count b.toNat, by rw [call, membuffPeekbyte, hByte]; rfl, hValid, ?_⟩
      simp [Fifo.Step, toFifo, hCont]
  | readline maxlen minch =>
    have hLine := membuffReadline_eq signed hValid maxlen minch
    cases hEnd : lineEnd signed minch mb.contents with
    | none =>
      rw [hEnd] at hLine
      refine ⟨mb, .line 0 [], by rw [call, hLine]; rfl, hValid, ?_⟩
      simp [Fifo.Step, toFifo, hEnd]
    | some j =>
      rw [hEnd] at hLine
      dsimp only at hLine
      have hIn := (List.findIdx?_eq_some_iff_getElem.mp hEnd).1
      have hUsed : j + 1 ≤ mb.used := by rwa [length_contents] at hIn
      have hAdv := contents_advance hValid hUsed
      have hSize : (mb.advance (j + 1)).size = mb.size := rfl
      by_cases hFits : j < maxlen - 1
      · rw [if_pos hFits] at hLine
        refine ⟨mb.advance (j + 1), .line (j + 1) (mb.contents.take j),
          by rw [call, hLine]; rfl, hAdv.2, ?_⟩
        simp [Fifo.Step, toFifo, hEnd, hAdv.1, hSize, Nat.succ_le_of_lt hFits]
      · rw [if_neg hFits] at hLine
        refine ⟨mb, .line 0 [], by rw [call, hLine]; rfl, hValid, ?_⟩
        simp [Fifo.Step, toFifo, hEnd, show ¬ j + 1 ≤ maxlen - 1 by omega]
  | makecontig =>
    rcases membuffMakecontig_eq hValid with ⟨mb', ok, hRun, hCont, hValid', hSize⟩
    exact ⟨mb', _, by rw [call, hRun]; rfl, hValid', ⟨ok, rfl⟩, toFifo_eq hSize hCont⟩
  | extendBy grow max realloc =>
    have hSome : ∃ mb' ret, mb.membuffExtendBy grow max realloc = some (mb', ret) := by
      unfold Call.Overflows at hDefined
      rw [not_or] at hDefined
      unfold membuffExtendBy
      rw [if_neg hDefined.1]
      cases hDouble : doubleSize mb.size (mb.size + grow) with
      | none => exact absurd hDouble hDefined.2
      | some size =>
        dsimp only
        generalize
          (if max ≠ -1 then min (size : Int) max
            else (size : Int)) = size'
        split
        · exact ⟨_, _, rfl⟩
        · split
          · exact ⟨_, _, rfl⟩
          · split
            · exact ⟨_, _, rfl⟩
            · exact ⟨_, _, rfl⟩
    rcases hSome with ⟨mb', ret, hRun⟩
    rcases membuffExtendBy_eq hValid hRun with ⟨hCont, hValid', hRet⟩
    refine ⟨mb', .count ret, by rw [call, hRun]; rfl, hValid', ?_⟩
    rcases hRet with ⟨rfl, hGrown⟩ | ⟨hNeg, rfl⟩
    · refine Or.inl ⟨rfl, ?_, hCont⟩
      unfold toFifo
      dsimp only
      have hLt := hValid.head_lt
      omega
    · exact Or.inr ⟨ret, hNeg, rfl, rfl⟩

----
-- Whole Sequences
----

/- Successive calls, with what they give back. -/
def calls (signed : Bool) :
    List Call → Membuff → Option (Membuff × List Reply)
  | [], mb => some (mb, [])
  | c :: rest, mb =>
    match mb.call signed c with
    | none => none
    | some (mb, reply) => (calls signed rest mb).map fun r => (r.1, reply :: r.2)

theorem calls_fifo {signed : Bool} {cs : List Call} {replies : List Reply}
    (hValid : mb.Valid) (hRun : mb.calls signed cs = some (mb', replies)) :
    mb'.Valid ∧ mb.toFifo.Run signed cs replies mb'.toFifo := by
  induction cs generalizing mb replies with
  | nil =>
    cases hRun
    exact ⟨hValid, rfl, rfl⟩
  | cons c rest ih =>
    rw [calls] at hRun
    have hDefined : ¬ c.Overflows mb := by
      intro hOver
      cases c with
      | extendBy grow max realloc =>
        have hNone : mb.membuffExtendBy grow max realloc = none := by
          unfold membuffExtendBy
          rcases hOver with hBig | hDouble
          · rw [if_pos hBig]
          · rw [hDouble]
            exact ite_self none
        rw [call, hNone] at hRun
        cases hRun
      | _ => exact hOver
    rcases call_fifo signed hValid hDefined with ⟨mid, reply, hCall, hValid', hStep⟩
    rw [hCall] at hRun
    rcases Option.map_eq_some_iff.mp hRun with ⟨⟨last, replies'⟩, hRest, hEq⟩
    cases hEq
    rcases ih hValid' hRest with ⟨hLast, hQueue⟩
    exact ⟨hLast, reply, replies', mid.toFifo, rfl, hStep, hQueue⟩

/-
  From a new buffer on, every sequence of calls acts on a
  queue that holds one byte less than the block, and the
  counts add up.  A call has no result only when extending
  overflows.
-/
theorem membuff_is_fifo (signed : Bool) (mem : Memory UInt8) (size : Nat) (hSize : 1 ≤ size)
    (cs : List Call) (mb : Membuff) (replies : List Reply)
    (hRun : (membuffInit mem size).calls signed cs = some (mb, replies)) :
    Fifo.Run signed ⟨size - 1, []⟩ cs replies ⟨mb.size - 1, mb.contents⟩ ∧
      mb.contents.length ≤ mb.size - 1 ∧ mb.membuffAvail + mb.membuffFree = (mb.size : Int) - 1 ∧
      mb.membuffAvail = mb.contents.length ∧
      (∀ c, ¬ c.Overflows mb → (mb.call signed c).isSome) := by
  have hStart : (membuffInit mem size).Valid := ⟨hSize, hSize⟩
  rcases calls_fifo hStart hRun with ⟨hValid, hQueue⟩
  have hLt := used_lt hValid
  refine ⟨hQueue, ?_, membuffAvail_add_membuffFree hValid, ?_, ?_⟩
  · rw [length_contents]
    omega
  · rw [length_contents, membuffAvail_eq hValid]
  · intro c hDefined
    rcases call_fifo signed hValid hDefined with ⟨mb', reply, hCall, _⟩
    rw [hCall]
    rfl

/- A line that wraps around the end of a block of four. -/
theorem membuff_is_fifo_wrapped :
    ∃ mb replies, (membuffInit (fun _ => 0) 4).calls false
          [.put [97, 98, 99], .get 2, .put [10, 100], .readline 8 0] = some (mb, replies) ∧
        replies = [.count 3, .bytes [97, 98], .count 2, .line 2 [99]] ∧ Fifo.Run false ⟨3, []⟩
          [.put [97, 98, 99], .get 2, .put [10, 100],
            .readline 8 0] replies ⟨mb.size - 1, [100]⟩ := by
  have hSome :
      ((membuffInit (fun _ => 0) 4).calls false
        [.put [97, 98, 99], .get 2, .put [10, 100],
          .readline 8 0]).map (fun r => (r.2, r.1.contents)) =
        some ([.count 3, .bytes [97, 98], .count 2, .line 2 [99]], [100]) := by
    decide
  rcases Option.map_eq_some_iff.mp hSome with ⟨⟨mb, replies⟩, hRun, hEq⟩
  rcases Prod.mk.inj hEq with ⟨rfl, hCont⟩
  have hQueue := (membuff_is_fifo false (fun _ => 0) 4 (by decide) _ mb _ hRun).1
  rw [show mb.contents = [100] from hCont] at hQueue
  exact ⟨mb, _, hRun, rfl, hQueue⟩

end Uboot.Membuff
