import BootFirmware.Tfa.Xlat.Blocks
import Mathlib.Data.List.Perm.Basic
import Mathlib.Data.List.InsertIdx

/-
  The array of regions of a context.

  Two regions of the array are compatible: nested or apart,
  never the same area, and apart when one of them is
  dynamic.  The array is sorted by end address, then by
  size, so that of two nested regions the inner one comes
  first.

  Key definitions include:
    * `Compatible` and `Before`
    * `ArrayOk`
    * `IsMaxOver`

  The main results are:
    * `ArrayOk.insert`
    * `ArrayOk.inner_first`
    * `isMaxOver_insert`
-/

namespace Tfa.Xlat

open List

----
-- Compatible Regions
----

/- `attr & MT_DYNAMIC`. -/
def MmapRegion.IsDynamic (q : MmapRegion) : Prop :=
  q.attr &&& mtDynamic ≠ 0

structure Compatible
    (cfg : Config)
    (q q' : MmapRegion) : Prop where
  nested_or_apart : q.Within q' ∨ q'.Within q ∨ q.Apart q'
  not_same : ¬ (q.baseVa = q'.baseVa ∧ q.size = q'.size)
  dynamic_apart : cfg.platXlatTablesDynamic = true → q.IsDynamic ∨ q'.IsDynamic → q.Apart q'

variable {cfg : Config} {q q' : MmapRegion}

theorem Compatible.symm (hCompat : Compatible cfg q q') :
    Compatible cfg q' q := by
  refine ⟨?_, ?_, ?_⟩
  · rcases hCompat.nested_or_apart with hIn | hOut | hApart
    · exact Or.inr (Or.inl hIn)
    · exact Or.inl hOut
    · exact Or.inr (Or.inr hApart.symm)
  · rintro ⟨hVa, hSize⟩
    exact hCompat.not_same ⟨hVa.symm, hSize.symm⟩
  · intro hDyn hEither
    exact (hCompat.dynamic_apart hDyn hEither.symm).symm

/- What the loop that looks for overlaps lets pass. -/
theorem compatible_of_allowed {mm q : MmapRegion}
    (hValid : mm.Valid cfg) (hq : q.Valid cfg) (hAllowed : overlapAllowed cfg mm q = true) :
    Compatible cfg mm q := by
  have hEnd := hValid.endVa_eq
  have hEnd' := hq.endVa_eq
  have hPos' := hq.size_pos
  unfold overlapAllowed at hAllowed
  dsimp only at hAllowed
  rw [hEnd, hEnd'] at hAllowed
  split at hAllowed
  · have hNested : mm.Within q ∨ q.Within mm := by
      unfold MmapRegion.Within
      omega
    split at hAllowed
    · cases hAllowed
    rename_i hStatic
    split at hAllowed
    · cases hAllowed
    split at hAllowed
    · cases hAllowed
    rename_i hOther
    refine ⟨?_, hOther, ?_⟩
    · rcases hNested with hIn | hOut
      · exact Or.inl hIn
      · exact Or.inr (Or.inl hOut)
    · intro hDyn hEither
      exact absurd ⟨hDyn, hEither⟩ hStatic
  · have hSeparated := of_decide_eq_true hAllowed
    have hApart : mm.Apart q := by
      unfold MmapRegion.Apart
      omega
    refine ⟨Or.inr (Or.inr hApart), ?_, fun _ _ => hApart⟩
    rintro ⟨hSameVa, hSameSize⟩
    omega

/- The order of the array. -/
def Before (q q' : MmapRegion) : Prop :=
  q.endVa < q'.endVa ∨ (q.endVa = q'.endVa ∧ q.size ≤ q'.size)

theorem Before.trans {q q' q'' : MmapRegion} (hFirst : Before q q') (hSecond : Before q' q'') :
    Before q q'' := by
  unfold Before at *
  omega

/- Of two nested regions the inner one comes first. -/
theorem within_of_before (hq : q.Valid cfg) (hq' : q'.Valid cfg)
    (hCompat : Compatible cfg q q') (hBefore : Before q q') :
    q.Within q' ∨ q.Apart q' := by
  have hEnd := hq.endVa_eq
  have hEnd' := hq'.endVa_eq
  rcases hCompat.nested_or_apart with hIn | hOut | hApart
  · exact Or.inl hIn
  · -- The outer one first would make the areas the same.
    have hNot := hCompat.not_same
    unfold Before at hBefore
    unfold MmapRegion.Within at hOut
    exfalso
    apply hNot
    omega
  · exact Or.inr hApart

----
-- The Array
----

structure ArrayOk
    (cfg : Config)
    (mmap : List MmapRegion) : Prop where
  valid : ∀ q ∈ mmap, q.Valid cfg
  compatible : mmap.Pairwise (Compatible cfg)
  sorted : mmap.Pairwise Before

theorem arrayOk_nil (cfg : Config) :
    ArrayOk cfg [] :=
  ⟨fun _ hMem => absurd hMem not_mem_nil, .nil, .nil⟩

variable {l : List MmapRegion}

/- Insertion at a place that the order allows. -/
theorem pairwise_insertIdx {R : MmapRegion → MmapRegion → Prop} {i : Nat} {q : MmapRegion}
    (hPair : l.Pairwise R) (hBefore : ∀ a ∈ l.take i, R a q) (hAfter : ∀ b ∈ l.drop i, R q b) :
    (l.insertIdx i q).Pairwise R := by
  induction l generalizing i with
  | nil =>
    cases i with
    | zero => exact pairwise_singleton R q
    | succ i => exact hPair
  | cons a l ih =>
    cases i with
    | zero =>
      rw [insertIdx_zero]
      exact pairwise_cons.mpr ⟨hAfter, hPair⟩
    | succ i =>
      rw [insertIdx_succ_cons]
      rcases pairwise_cons.mp hPair with ⟨hHead, hTail⟩
      refine pairwise_cons.mpr ⟨?_, ?_⟩
      · intro b hMem
        rcases eq_or_mem_of_mem_insertIdx hMem with
          rfl | hOld
        · exact hBefore a mem_cons_self
        · exact hHead b hOld
      · apply ih hTail
        · intro b hMem
          exact hBefore b (mem_cons_of_mem a hMem)
        · exact hAfter

section

variable (mm : MmapRegion)

/- What the two loops that look for the place skip. -/
theorem skipLowerEnd_spec (hSorted : l.Pairwise Before) :
    (∀ q ∈ l.take (skipLowerEnd mm l), q.endVa < mm.endVa) ∧
    (∀ q ∈ l.drop (skipLowerEnd mm l), mm.endVa ≤ q.endVa) := by
  induction l with
  | nil =>
    constructor
    · intro q hMem
      cases hMem
    · intro q hMem
      cases hMem
  | cons a l ih =>
    rcases pairwise_cons.mp hSorted with ⟨hHead, hTail⟩
    unfold skipLowerEnd
    by_cases hLower : a.endVa < mm.endVa
    · rw [if_pos hLower, take_succ_cons, drop_succ_cons]
      refine ⟨?_, (ih hTail).2⟩
      intro q hMem
      rcases mem_cons.mp hMem with rfl | hRest
      · exact hLower
      · exact (ih hTail).1 q hRest
    · rw [if_neg hLower, take_zero, drop_zero]
      constructor
      · intro q hMem
        cases hMem
      · intro q hMem
        rcases mem_cons.mp hMem with rfl | hRest
        · omega
        · have hBefore := hHead q hRest
          unfold Before at hBefore
          omega

theorem skipSmaller_spec (hSorted : l.Pairwise Before) (hEnds : ∀ q ∈ l, mm.endVa ≤ q.endVa) :
    (∀ q ∈ l.take (skipSmaller mm l), Before q mm) ∧
    (∀ q ∈ l.drop (skipSmaller mm l), Before mm q) := by
  induction l with
  | nil =>
    constructor
    · intro q hMem
      cases hMem
    · intro q hMem
      cases hMem
  | cons a l ih =>
    rcases pairwise_cons.mp hSorted with ⟨hHead, hTail⟩
    have hRestEnds : ∀ q ∈ l, mm.endVa ≤ q.endVa := fun q hMem => hEnds q (mem_cons_of_mem a hMem)
    have hIh := ih hTail hRestEnds
    unfold skipSmaller
    by_cases hSmaller : a.endVa = mm.endVa ∧ a.size < mm.size
    · rw [if_pos hSmaller, take_succ_cons, drop_succ_cons]
      refine ⟨?_, hIh.2⟩
      intro q hMem
      rcases mem_cons.mp hMem with rfl | hRest
      · right
        omega
      · exact hIh.1 q hRest
    · rw [if_neg hSmaller, take_zero, drop_zero]
      have hHere : Before mm a := by
        have hEnd := hEnds a mem_cons_self
        unfold Before
        omega
      constructor
      · intro q hMem
        cases hMem
      · intro q hMem
        rcases mem_cons.mp hMem with rfl | hRest
        · exact hHere
        · exact hHere.trans (hHead q hRest)

section

variable (l : List MmapRegion)

theorem skipLowerEnd_le : skipLowerEnd mm l ≤ l.length := by
  induction l with
  | nil => exact Nat.le_refl 0
  | cons a l ih =>
    unfold skipLowerEnd
    split
    · exact Nat.succ_le_succ ih
    · exact Nat.zero_le _

theorem skipSmaller_le : skipSmaller mm l ≤ l.length := by
  induction l with
  | nil => exact Nat.le_refl 0
  | cons a l ih =>
    unfold skipSmaller
    split
    · exact Nat.succ_le_succ ih
    · exact Nat.zero_le _

theorem mmapCursor_le : mmapCursor l mm ≤ l.length := by
  have hLower := skipLowerEnd_le mm l
  have hSmaller := skipSmaller_le mm (l.drop (skipLowerEnd mm l))
  rw [length_drop] at hSmaller
  unfold mmapCursor
  dsimp only
  omega

end

/- The place of a new region keeps the order. -/
theorem mmapCursor_spec (hSorted : l.Pairwise Before) :
    (∀ q ∈ l.take (mmapCursor l mm), Before q mm) ∧
    (∀ q ∈ l.drop (mmapCursor l mm), Before mm q) := by
  have hLower := skipLowerEnd_spec mm hSorted
  have hRest := skipSmaller_spec mm (hSorted.sublist (drop_sublist _ l)) hLower.2
  unfold mmapCursor
  constructor
  · intro q hMem
    rw [take_add, mem_append] at hMem
    rcases hMem with hFirst | hSecond
    · exact Or.inl (hLower.1 q hFirst)
    · exact hRest.1 q hSecond
  · intro q hMem
    rw [← drop_drop] at hMem
    exact hRest.2 q hMem

end

namespace ArrayOk

variable {cfg : Config} {mmap : List MmapRegion}
variable {mm : MmapRegion}

theorem insert_perm (mmap : List MmapRegion) (mm : MmapRegion) :
    (mmap.insertIdx (mmapCursor mmap mm) mm).Perm (mm :: mmap) :=
  perm_insertIdx mm mmap (mmapCursor_le mm mmap)

theorem compatible_new
    (hOk : ArrayOk cfg mmap) (hSize : mm.size ≠ 0) (hCheck : mmapAddRegionCheck cfg mmap mm = 0) :
    ∀ q ∈ mmap, Compatible cfg mm q := by
  have hValid := valid_of_check hSize hCheck
  have hAll : mmap.all (overlapAllowed cfg mm) = true := by
    by_contra hNot
    unfold mmapAddRegionCheck at hCheck
    rw [if_pos hNot] at hCheck
    split at hCheck
    · cases hCheck
    split at hCheck
    · cases hCheck
    split at hCheck
    · cases hCheck
    split at hCheck
    · cases hCheck
    split at hCheck
    · cases hCheck
    split at hCheck
    · cases hCheck
    · cases hCheck
  intro q hMem
  exact compatible_of_allowed hValid (hOk.valid q hMem) (all_eq_true.mp hAll q hMem)

theorem insert
    (hOk : ArrayOk cfg mmap) (hSize : mm.size ≠ 0) (hCheck : mmapAddRegionCheck cfg mmap mm = 0) :
    ArrayOk cfg (mmap.insertIdx (mmapCursor mmap mm) mm) := by
  have hPerm := insert_perm mmap mm
  have hPlace := mmapCursor_spec mm hOk.sorted
  refine ⟨?_, ?_, ?_⟩
  · intro q hMem
    rcases mem_cons.mp (hPerm.mem_iff.mp hMem) with
      rfl | hOld
    · exact valid_of_check hSize hCheck
    · exact hOk.valid q hOld
  · rw [hPerm.pairwise_iff Compatible.symm]
    exact pairwise_cons.mpr ⟨hOk.compatible_new hSize hCheck, hOk.compatible⟩
  · exact pairwise_insertIdx hOk.sorted hPlace.1 hPlace.2

/- A region lies inside a later one or apart from it. -/
theorem inner_first (hOk : ArrayOk cfg mmap) :
    mmap.Pairwise fun q q' => q.Within q' ∨ q.Apart q' := by
  apply (hOk.compatible.and hOk.sorted).imp_of_mem
  intro q q' hMem hMem' hBoth
  exact within_of_before (hOk.valid q hMem) (hOk.valid q' hMem') hBoth.1 hBoth.2

end ArrayOk

----
-- Largest Addresses
----

/- The largest value over an array, 0 for an empty one. -/
def IsMaxOver (f : MmapRegion → Nat) (mmap : List MmapRegion)
    (m : Nat) : Prop :=
  (∀ q ∈ mmap, f q ≤ m) ∧ ((mmap = [] ∧ m = 0) ∨ ∃ q ∈ mmap, f q = m)

theorem isMaxOver_insert
    {f : MmapRegion → Nat} {mmap mmap' : List MmapRegion} {mm : MmapRegion} {m : Nat}
    (hPerm : mmap'.Perm (mm :: mmap)) (hMax : IsMaxOver f mmap m) :
    IsMaxOver f mmap' (if f mm > m then f mm else m) := by
  have hMem : ∀ q, q ∈ mmap' ↔ q = mm ∨ q ∈ mmap := by
    intro q
    rw [hPerm.mem_iff, mem_cons]
  constructor
  · intro q hq
    rcases (hMem q).mp hq with rfl | hOld
    · split <;> omega
    · have hLe := hMax.1 q hOld
      split <;> omega
  · right
    by_cases hNew : f mm > m
    · rw [if_pos hNew]
      exact ⟨mm, (hMem mm).mpr (Or.inl rfl), rfl⟩
    · rw [if_neg hNew]
      rcases hMax.2 with ⟨_, hZero⟩ | ⟨q, hq, hEq⟩
      · exact ⟨mm, (hMem mm).mpr (Or.inl rfl), by omega⟩
      · exact ⟨q, (hMem q).mpr (Or.inr hq), hEq⟩

end Tfa.Xlat
