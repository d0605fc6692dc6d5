import Mathlib.Data.List.Induction
import Mathlib.Tactic.SplitIfs

/-
  Regions that cover chosen pieces of a sequence.

  The pieces lie one after the other.  A run of chosen pieces
  becomes a region, and so does a piece that ends a run
  without being chosen, where it is marked to.  A run that
  begins where the region before it ends is joined with it.

  Key definitions include:
    * `Region` and `Piece`
    * `Runs.add` and `runs`
    * `Covered`

  The rules used by the developments built on top are:
    * `Runs.Ordered.add`
    * `marked_runs`
    * `sorted_regions` and `inRegions_regions`
-/

namespace RegionRuns

open List

structure Region where
  offset : Nat
  size : Nat
deriving DecidableEq, Repr

namespace Region

def stop (r : Region) : Nat :=
  r.offset + r.size

def Contains (r : Region) (b : Nat) : Prop :=
  r.offset ≤ b ∧ b < r.stop

instance (r : Region) (b : Nat) : Decidable (r.Contains b) :=
  inferInstanceAs (Decidable (_ ∧ _))

end Region

/- A piece with its size, and whether it is chosen. -/
structure Piece where
  size : Nat
  chosen : Bool
  tail : Bool
deriving DecidableEq, Repr

/-
  The regions that are closed, the newest one first, the
  start of the run that is open and the end of the pieces.
-/
structure Runs where
  closed : List Region
  start : Option Nat
  pos : Nat
deriving DecidableEq, Repr

namespace Runs

/- Begin a run, or go on with the region before it. -/
def begin (s : Runs) : Runs :=
  match s.closed with
  | [] => { s with start := some s.pos }
  | r :: rest =>
    if r.stop = s.pos then
      { s with closed := rest, start := some r.offset }
    else { s with start := some s.pos }

/- End a run, at an offset. -/
def close (s : Runs) (stop : Nat) : Runs :=
  match s.start with
  | none => s
  | some a =>
    { s with
      closed := ⟨a, stop - a⟩ :: s.closed
      start := none }

def add (s : Runs) (p : Piece) : Runs :=
  if p.chosen then
    { (if s.start.isNone then s.begin else s) with
      pos := s.pos + p.size }
  else
    { s.close (if p.tail then s.pos + p.size else s.pos) with
      pos := s.pos + p.size }

/- The regions, when the last run is open to the end. -/
def regions (s : Runs) : List Region :=
  (s.close s.pos).closed.reverse

/- A byte of a region or of the run that is open. -/
def Marked (s : Runs) (b : Nat) : Prop :=
  (∃ r ∈ s.closed, r.Contains b) ∨ ∃ a, s.start = some a ∧ a ≤ b ∧ b < s.pos

/- The regions are apart, and before the run that is open. -/
structure Ordered (s : Runs) : Prop where
  hSorted : s.closed.Pairwise fun r r' => r'.stop < r.offset
  hSize : ∀ r ∈ s.closed, 0 < r.size
  hClosed : ∀ r ∈ s.closed, r.stop ≤ s.pos
  hStart : ∀ a, s.start = some a → a < s.pos ∧ ∀ r ∈ s.closed, r.stop < a

end Runs

def init (base : Nat) : Runs :=
  ⟨[], none, base⟩

/- The runs of a sequence of pieces. -/
def runs (base : Nat) (pieces : List Piece) : Runs :=
  pieces.foldl Runs.add (init base)

def sizes (pieces : List Piece) : Nat :=
  pieces.foldl (fun n p => n + p.size) 0

def lastChosen (pieces : List Piece) : Bool :=
  pieces.getLast?.any Piece.chosen

/- What is covered of a piece that comes after others. -/
def Covered (before : List Piece) (p : Piece) : Prop :=
  p.chosen = true ∨ (p.tail = true ∧ lastChosen before = true)

/- The pieces of a sequence have a size. -/
def Sized (pieces : List Piece) : Prop :=
  ∀ p ∈ pieces, 0 < p.size

namespace Runs

variable {s : Runs} {p : Piece}

@[simp] theorem add_pos : (s.add p).pos = s.pos + p.size := by
  unfold add
  split_ifs <;> rfl

theorem begin_start : s.begin.start.isSome = true := by
  unfold begin
  cases s.closed with
  | nil => rfl
  | cons r rest =>
    by_cases hJoin : r.stop = s.pos
    · simp [hJoin]
    · simp [hJoin]

/- A run is open just after a chosen piece. -/
theorem add_start : (s.add p).start.isSome = p.chosen := by
  unfold add
  by_cases hChosen : p.chosen = true
  · rw [if_pos hChosen, hChosen]
    cases hStart : s.start with
    | none => exact begin_start
    | some a => simp [hStart]
  · rw [if_neg hChosen]
    rw [Bool.not_eq_true] at hChosen
    rw [hChosen]
    unfold close
    cases hStart : s.start <;> simp [hStart]

----
-- One More Piece
----

/- A run that begins takes a region back, or is apart. -/
theorem begin_cases (s : Runs) :
    (∃ r rest, s.closed = r :: rest ∧ r.stop = s.pos ∧ s.begin = ⟨rest, some r.offset, s.pos⟩) ∨
    ((∀ r ∈ s.closed.head?, r.stop ≠ s.pos) ∧ s.begin = ⟨s.closed, some s.pos, s.pos⟩) := by
  unfold begin
  cases hClosed : s.closed with
  | nil => exact .inr ⟨nofun, rfl⟩
  | cons r rest =>
    by_cases hJoin : r.stop = s.pos
    · exact .inl ⟨r, rest, rfl, hJoin, if_pos hJoin⟩
    · refine .inr ⟨?_, if_neg hJoin⟩
      intro r' hr
      rwa [← Option.some.inj hr]

/- The states that a piece leads to. -/
theorem add_cases (s : Runs) (p : Piece) :
    (p.chosen = true ∧ (∃ a, s.start = some a) ∧ s.add p = ⟨s.closed, s.start, s.pos + p.size⟩) ∨
    (p.chosen = true ∧ s.start = none ∧ ((∃ r rest, s.closed = r :: rest ∧ r.stop = s.pos ∧
        s.add p = ⟨rest, some r.offset, s.pos + p.size⟩) ∨
      ((∀ r ∈ s.closed.head?, r.stop ≠ s.pos) ∧
        s.add p = ⟨s.closed, some s.pos, s.pos + p.size⟩))) ∨
    (p.chosen = false ∧ s.start = none ∧ s.add p = ⟨s.closed, none, s.pos + p.size⟩) ∨
    (p.chosen = false ∧ ∃ a, s.start = some a ∧ s.add p =
        ⟨⟨a, (if p.tail then s.pos + p.size else s.pos) - a⟩ ::
          s.closed, none, s.pos + p.size⟩) := by
  unfold add
  cases hChosen : p.chosen with
  | true =>
    cases hStart : s.start with
    | some a => exact .inl ⟨rfl, ⟨a, rfl⟩, by simp [hStart]⟩
    | none =>
      refine .inr (.inl ⟨rfl, rfl, ?_⟩)
      rcases begin_cases s with ⟨r, rest, hClosed, hJoin, hBegin⟩ | ⟨hApart, hBegin⟩
      · exact .inl ⟨r, rest, hClosed, hJoin, by simp [hBegin]⟩
      · exact .inr ⟨hApart, by simp [hBegin]⟩
  | false =>
    cases hStart : s.start with
    | none =>
      exact .inr (.inr (.inl ⟨rfl, rfl, by
        simp [close, hStart]⟩))
    | some a =>
      exact .inr (.inr (.inr ⟨rfl, a, rfl, by
        simp [close, hStart]⟩))

theorem Ordered.add (hOrdered : Ordered s) (hSize : 0 < p.size) :
    Ordered (s.add p) := by
  rcases hOrdered with ⟨hSorted, hSizes, hClosed, hStart⟩
  rcases add_cases s p with ⟨-, ⟨a, hOpen⟩, hAdd⟩ | ⟨-, hNone, hJoin | hApart⟩ |
    ⟨-, hNone, hAdd⟩ | ⟨-, a, hOpen, hAdd⟩
  · rw [hAdd]
    refine ⟨hSorted, hSizes, ?_, ?_⟩
    · exact fun r hr => Nat.le_add_right_of_le (hClosed r hr)
    · intro a' ha'
      have hBefore := hStart a' ha'
      exact ⟨Nat.lt_add_right p.size hBefore.1, hBefore.2⟩
  · rcases hJoin with ⟨r, rest, hEq, hStop, hAdd⟩
    rw [hEq] at hSorted hSizes hClosed
    rcases pairwise_cons.mp hSorted with ⟨hOlder, hRest⟩
    rw [hAdd]
    refine ⟨hRest, ?_, ?_, ?_⟩
    · exact fun r' hr' => hSizes r' (mem_cons_of_mem r hr')
    · exact fun r' hr' => Nat.le_add_right_of_le (hClosed r' (mem_cons_of_mem r hr'))
    · intro a ha
      have hEqStart : r.offset = a := Option.some.inj ha
      unfold Region.stop at hStop
      refine ⟨by simp only; omega, ?_⟩
      intro r' hr'
      rw [← hEqStart]
      exact hOlder r' hr'
  · rcases hApart with ⟨hHead, hAdd⟩
    rw [hAdd]
    refine ⟨hSorted, hSizes, ?_, ?_⟩
    · exact fun r hr => Nat.le_add_right_of_le (hClosed r hr)
    · intro a ha
      have hEqStart : s.pos = a := Option.some.inj ha
      rw [← hEqStart]
      refine ⟨Nat.lt_add_of_pos_right hSize, ?_⟩
      intro r hr
      cases hList : s.closed with
      | nil =>
        rw [hList] at hr
        exact absurd hr not_mem_nil
      | cons first rest =>
        rw [hList] at hr hSorted hHead
        have hFirst := hClosed first (by rw [hList]; exact mem_cons_self)
        have hNe := hHead first rfl
        rcases mem_cons.mp hr with rfl | hr
        · omega
        · have hOlder := (pairwise_cons.mp hSorted).1 r hr
          unfold Region.stop at *
          omega
  · rw [hAdd]
    refine ⟨hSorted, hSizes, ?_, nofun⟩
    exact fun r hr => Nat.le_add_right_of_le (hClosed r hr)
  · rcases hStart a hOpen with ⟨hBelow, hOlder⟩
    rw [hAdd]
    refine ⟨pairwise_cons.mpr ⟨hOlder, hSorted⟩, ?_, ?_, nofun⟩
    · intro r hr
      rcases mem_cons.mp hr with rfl | hr
      · simp only
        split_ifs <;> omega
      · exact hSizes r hr
    · intro r hr
      rcases mem_cons.mp hr with rfl | hr
      · simp only [Region.stop]
        split_ifs <;> omega
      · exact Nat.le_add_right_of_le (hClosed r hr)

theorem Ordered.marked_add {b : Nat} (hOrdered : Ordered s) :
    (s.add p).Marked b ↔ s.Marked b ∨ ((s.pos ≤ b ∧ b < s.pos + p.size) ∧
          (p.chosen = true ∨ (p.tail = true ∧ s.start.isSome = true))) := by
  rcases hOrdered with ⟨-, hSizes, -, hStart⟩
  unfold Marked
  rcases add_cases s p with ⟨hChosen, ⟨a, hOpen⟩, hAdd⟩ | ⟨hChosen, hNone, hJoin | hApart⟩ |
    ⟨hChosen, hNone, hAdd⟩ | ⟨hChosen, a, hOpen, hAdd⟩
  · have hBefore := (hStart a hOpen).1
    rw [hAdd, hChosen, hOpen]
    simp only [Option.some.injEq, exists_eq_left', true_or, and_true, or_assoc]
    refine or_congr_right ?_
    omega
  · rcases hJoin with ⟨r, rest, hEq, hStop, hAdd⟩
    rw [hAdd, hChosen, hNone, hEq]
    simp only [Option.some.injEq, exists_eq_left',
      mem_cons, exists_eq_or_imp, reduceCtorEq, false_and,
      exists_false, or_false, true_or, and_true, Region.Contains, hStop]
    rw [or_comm (a := r.offset ≤ b ∧ b < s.pos), or_assoc]
    refine or_congr_right ?_
    unfold Region.stop at hStop
    omega
  · rcases hApart with ⟨-, hAdd⟩
    rw [hAdd, hChosen, hNone]
    simp only [Option.some.injEq, exists_eq_left',
      reduceCtorEq, false_and, exists_false, or_false, true_or, and_true]
  · rw [hAdd, hChosen, hNone]
    simp
  · have hBefore := (hStart a hOpen).1
    rw [hAdd, hChosen, hOpen]
    simp only [Option.some.injEq, exists_eq_left',
      mem_cons, exists_eq_or_imp, reduceCtorEq, false_and,
      exists_false, or_false, Bool.false_eq_true, false_or,
      Option.isSome_some, and_true, Region.Contains, Region.stop]
    rw [or_comm, or_assoc]
    refine or_congr_right ?_
    split_ifs with hTail
    · simp only [hTail, and_true]
      omega
    · simp only [hTail, Bool.false_eq_true, and_false, or_false]
      omega

end Runs

----
-- All The Pieces
----

section Pieces

variable {base : Nat} {pieces : List Piece}

theorem runs_append (base : Nat) (pieces : List Piece) (p : Piece) :
    runs base (pieces ++ [p]) = (runs base pieces).add p := by
  unfold runs
  rw [foldl_append]
  rfl

theorem sizes_append (pieces : List Piece) (p : Piece) :
    sizes (pieces ++ [p]) = sizes pieces + p.size := by
  unfold sizes
  rw [foldl_append]
  rfl

@[simp] theorem runs_pos (base : Nat) (pieces : List Piece) :
    (runs base pieces).pos = base + sizes pieces := by
  induction pieces using List.reverseRecOn with
  | nil => rfl
  | append_singleton pieces p ih => rw [runs_append, Runs.add_pos, ih, sizes_append, Nat.add_assoc]

theorem runs_start (base : Nat) (pieces : List Piece) :
    (runs base pieces).start.isSome = lastChosen pieces := by
  rcases eq_nil_or_concat pieces with rfl | ⟨front, p, rfl⟩
  · rfl
  · rw [concat_eq_append, runs_append, Runs.add_start]
    unfold lastChosen
    rw [getLast?_concat]
    rfl

theorem ordered_runs (hSized : Sized pieces) :
    (runs base pieces).Ordered := by
  induction pieces using List.reverseRecOn with
  | nil => exact ⟨.nil, nofun, nofun, nofun⟩
  | append_singleton pieces p ih =>
    rw [runs_append]
    refine (ih fun q hq => hSized q ?_).add (hSized p ?_)
    · exact mem_append_left _ hq
    · exact mem_append_right _ mem_cons_self

/- The bytes of a piece that comes after others. -/
def Inside (base : Nat) (before : List Piece) (p : Piece) (b : Nat) : Prop :=
  base + sizes before ≤ b ∧ b < base + sizes before + p.size

theorem marked_runs {b : Nat} (hSized : Sized pieces) :
    (runs base pieces).Marked b ↔ ∃ before p after, pieces = before ++ p :: after ∧
        Inside base before p b ∧ Covered before p := by
  induction pieces using List.reverseRecOn with
  | nil =>
    constructor
    · rintro (⟨r, hr, -⟩ | ⟨a, ha, -⟩)
      · exact absurd hr not_mem_nil
      · exact absurd ha nofun
    · rintro ⟨before, p, after, hEq, -⟩
      exact absurd hEq (by simp)
  | append_singleton pieces p ih =>
    have hBefore : Sized pieces := fun q hq => hSized q (mem_append_left _ hq)
    rw [runs_append, (ordered_runs hBefore).marked_add, ih hBefore, runs_pos, runs_start]
    constructor
    · rintro (⟨before, q, after, rfl, hIn⟩ | ⟨hIn, hCovered⟩)
      · exact ⟨before, q, after ++ [p], by simp, hIn⟩
      · exact ⟨pieces, p, [], rfl, hIn, hCovered⟩
    · rintro ⟨before, q, after, hEq, hIn, hCovered⟩
      rcases eq_nil_or_concat after with
        rfl | ⟨init, last, rfl⟩
      · rcases append_inj' hEq rfl with ⟨rfl, hLast⟩
        cases hLast
        exact .inr ⟨hIn, hCovered⟩
      · rw [concat_eq_append] at hEq
        have hSplit : pieces ++ [p] = (before ++ q :: init) ++ [last] := by rw [hEq]; simp
        rcases append_inj' hSplit rfl with ⟨rfl, -⟩
        exact .inl ⟨before, q, init, rfl, hIn, hCovered⟩

/- Pieces that hold the same byte are the same piece. -/
theorem inside_unique {b : Nat} {before before' after after' : List Piece} {p p' : Piece}
    (hFirst : pieces = before ++ p :: after) (hSecond : pieces = before' ++ p' :: after')
    (hIn : Inside base before p b) (hIn' : Inside base before' p' b) :
    before = before' ∧ p = p' := by
  have hMono : ∀ front rest : List Piece, sizes front ≤ sizes (front ++ rest) := by
    intro front rest
    induction rest using List.reverseRecOn with
    | nil => simp
    | append_singleton rest q ih =>
      rw [← append_assoc, sizes_append]
      exact Nat.le_add_right_of_le ih
  unfold Inside at hIn hIn'
  rw [hFirst] at hSecond
  rcases append_eq_append_iff.mp hSecond with ⟨mid, hBefore, hRest⟩ | ⟨mid, hBefore, hRest⟩
  · cases mid with
    | nil =>
      rw [append_nil] at hBefore
      exact ⟨hBefore.symm, (List.cons.inj hRest).1⟩
    | cons q mid =>
      rcases List.cons.inj hRest with ⟨rfl, -⟩
      have hLe := hMono (before ++ [p]) mid
      rw [sizes_append, append_assoc] at hLe
      rw [hBefore] at hIn'
      simp only [cons_append, nil_append] at hLe
      omega
  · cases mid with
    | nil =>
      rw [append_nil] at hBefore
      exact ⟨hBefore, (List.cons.inj hRest).1.symm⟩
    | cons q mid =>
      rcases List.cons.inj hRest with ⟨rfl, -⟩
      have hLe := hMono (before' ++ [p']) mid
      rw [sizes_append, append_assoc] at hLe
      rw [hBefore] at hIn
      simp only [cons_append, nil_append] at hLe
      omega

end Pieces

----
-- The List Of Regions
----

def InRegions (regions : List Region) (b : Nat) : Prop :=
  ∃ r ∈ regions, r.Contains b

instance (regions : List Region) (b : Nat) : Decidable (InRegions regions b) :=
  inferInstanceAs (Decidable (∃ r ∈ regions, r.Contains b))

/- In order, apart from each other and not empty. -/
def Sorted (regions : List Region) : Prop :=
  regions.Pairwise (fun r r' => r.stop < r'.offset) ∧ ∀ r ∈ regions, 0 < r.size

theorem Runs.Ordered.close {s : Runs} (hOrdered : s.Ordered) :
    (s.close s.pos).closed.Pairwise (fun r r' => r'.stop < r.offset) ∧
      ∀ r ∈ (s.close s.pos).closed, 0 < r.size := by
  unfold Runs.close
  cases hStart : s.start with
  | none => exact ⟨hOrdered.hSorted, hOrdered.hSize⟩
  | some a =>
    rcases hOrdered.hStart a hStart with ⟨hBelow, hOlder⟩
    refine ⟨pairwise_cons.mpr ⟨hOlder, hOrdered.hSorted⟩, ?_⟩
    intro r hr
    rcases mem_cons.mp hr with rfl | hr
    · exact Nat.sub_pos_of_lt hBelow
    · exact hOrdered.hSize r hr

theorem sorted_regions {base : Nat} {pieces : List Piece} (hSized : Sized pieces) :
    Sorted (runs base pieces).regions := by
  have hOrdered : (runs base pieces).Ordered := ordered_runs hSized
  rcases hOrdered.close with ⟨hSorted, hSize⟩
  constructor
  · exact pairwise_reverse.mpr hSorted
  · exact fun r hr => hSize r (mem_reverse.mp hr)

theorem Runs.inRegions_iff {s : Runs} {b : Nat} :
    InRegions s.regions b ↔ s.Marked b := by
  unfold InRegions Runs.regions Runs.close Runs.Marked
  cases hStart : s.start with
  | none => simp
  | some a =>
    simp only [mem_reverse, mem_cons,
      exists_eq_or_imp, Option.some.injEq, exists_eq_left', Region.Contains, Region.stop]
    rw [or_comm]
    refine or_congr_right ?_
    omega

/- A byte of a piece is in a region if it is covered. -/
theorem inRegions_regions {base b : Nat} {before after : List Piece} {p : Piece}
    (hSized : Sized (before ++ p :: after)) (hIn : Inside base before p b) :
    InRegions (runs base (before ++ p :: after)).regions b ↔ Covered before p := by
  rw [Runs.inRegions_iff, marked_runs hSized]
  constructor
  · rintro ⟨before', p', after', hEq, hIn', hCovered⟩
    rcases inside_unique rfl hEq hIn hIn' with ⟨rfl, rfl⟩
    exact hCovered
  · exact fun hCovered => ⟨before, p, after, rfl, hIn, hCovered⟩

end RegionRuns
