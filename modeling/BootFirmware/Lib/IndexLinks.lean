import Mathlib.Data.List.Nodup
import Mathlib.Logic.Function.Basic

/-
  Doubly linked lists of indices.

  The links are two functions from indices.  A segment of a
  list is read with the indices before and after it, so that
  a list is cut and joined at any of its members.

  Key definitions include:
    * `Segment`
    * `updateLast` and `updateHead`

  The rules used by the developments built on top are:
    * `segment_append`
    * `Segment.congr`
    * `Segment.unlink`, `Segment.relink` and
      `Segment.insert_after`
-/

namespace IndexLinks

open List Function

/-
  The members are linked in this order, the first one to
  `before` and the last one to `after`.
-/
def Segment (next prev : Nat → Nat) (before after : Nat) :
    List Nat → Prop
  | [] => True
  | i :: rest => prev i = before ∧ next i = rest.headD after ∧ Segment next prev i after rest

variable {next prev next' prev' : Nat → Nat} {before after : Nat} {front rest : List Nat}

@[simp] theorem segment_nil : Segment next prev before after [] ↔ True := Iff.rfl

theorem segment_cons {i : Nat} :
    Segment next prev before after (i :: rest) ↔
      prev i = before ∧ next i = rest.headD after ∧ Segment next prev i after rest := Iff.rfl

theorem headD_append (front rest : List Nat) (after : Nat) :
    (front ++ rest).headD after = front.headD (rest.headD after) := by
  cases front with
  | nil => rfl
  | cons i front => rfl

/- A list is cut into a front and the rest. -/
theorem segment_append :
    Segment next prev before after (front ++ rest) ↔
      Segment next prev before (rest.headD after) front ∧
        Segment next prev (front.getLastD before) after
          rest := by
  induction front generalizing before with
  | nil => simp
  | cons i front ih =>
    rw [cons_append, segment_cons, segment_cons, ih,
      headD_append, getLastD_cons, and_assoc, and_assoc]

/- The links of the members are all that counts. -/
theorem Segment.congr
    (hSegment : Segment next prev before after rest) (hNext : ∀ i ∈ rest, next' i = next i)
    (hPrev : ∀ i ∈ rest, prev' i = prev i) :
    Segment next' prev' before after rest := by
  induction rest generalizing before with
  | nil => trivial
  | cons i rest ih =>
    rcases hSegment with ⟨hBefore, hAfter, hRest⟩
    refine ⟨?_, ?_, ih hRest ?_ ?_⟩
    · rw [hPrev i mem_cons_self, hBefore]
    · rw [hNext i mem_cons_self, hAfter]
    · exact fun j hj => hNext j (mem_cons_of_mem _ hj)
    · exact fun j hj => hPrev j (mem_cons_of_mem _ hj)

----
-- The Ends Of A Segment
----

/- Change what a function says of the last member. -/
def updateLast (f : Nat → Nat) (front : List Nat) (v : Nat) :
    Nat → Nat :=
  match front.getLast? with
  | none => f
  | some k => update f k v

/- Change what a function says of the first member. -/
def updateHead (f : Nat → Nat) (rest : List Nat) (v : Nat) :
    Nat → Nat :=
  match rest.head? with
  | none => f
  | some k => update f k v

@[simp] theorem updateLast_nil (f : Nat → Nat) (v : Nat) :
    updateLast f [] v = f := rfl

@[simp] theorem updateLast_append (f : Nat → Nat) (front : List Nat) (k v : Nat) :
    updateLast f (front ++ [k]) v = update f k v := by
  unfold updateLast
  rw [getLast?_concat]

@[simp] theorem updateHead_cons (f : Nat → Nat) (k : Nat) (rest : List Nat) (v : Nat) :
    updateHead f (k :: rest) v = update f k v := rfl

theorem updateLast_of_not_mem {f : Nat → Nat} {i v : Nat} (hNew : i ∉ front) :
    updateLast f front v i = f i := by
  unfold updateLast
  cases hLast : front.getLast? with
  | none => rfl
  | some k =>
    have hMem := mem_of_getLast? hLast
    exact update_of_ne (ne_of_mem_of_not_mem hMem hNew).symm _ _

theorem updateHead_of_not_mem {f : Nat → Nat} {i v : Nat} (hNew : i ∉ rest) :
    updateHead f rest v i = f i := by
  cases rest with
  | nil => rfl
  | cons k rest =>
    have hMem : k ∈ k :: rest := mem_cons_self
    exact update_of_ne (ne_of_mem_of_not_mem hMem hNew).symm _ _

/- Link the last member to another index. -/
theorem Segment.set_after
    (hSegment : Segment next prev before after front) (hNodup : front.Nodup) (after' : Nat) :
    Segment (updateLast next front after') prev before after'
      front := by
  rcases eq_nil_or_concat front with rfl | ⟨init, k, rfl⟩
  · trivial
  · rw [concat_eq_append] at *
    rw [updateLast_append]
    have hNew : k ∉ init := by
      intro hMem
      exact (nodup_append.mp hNodup).2.2 k hMem k mem_cons_self rfl
    rcases segment_append.mp hSegment with ⟨hInit, hLast⟩
    apply segment_append.mpr
    constructor
    · exact hInit.congr (fun j hj => update_of_ne (ne_of_mem_of_not_mem hj hNew) _ _)
        (fun _ _ => rfl)
    · exact ⟨hLast.1, update_self _ _ _, trivial⟩

/- Link the first member to another index. -/
theorem Segment.set_before
    (hSegment : Segment next prev before after rest) (hNodup : rest.Nodup) (before' : Nat) :
    Segment next (updateHead prev rest before') before' after
      rest := by
  cases rest with
  | nil => trivial
  | cons k rest =>
    rcases hSegment with ⟨-, hNext, hRest⟩
    rw [updateHead_cons]
    refine ⟨update_self _ _ _, hNext, ?_⟩
    have hNew := (nodup_cons.mp hNodup).1
    exact hRest.congr (fun _ _ => rfl)
      (fun j hj => update_of_ne (ne_of_mem_of_not_mem hj hNew) _ _)

----
-- Changes Inside A List
----

theorem Segment.join
    {x y : Nat} (hFront : Segment next prev before x front) (hRest : Segment next prev y after rest)
    (hNodup : (front ++ rest).Nodup) :
    Segment (updateLast next front (rest.headD after))
      (updateHead prev rest (front.getLastD before)) before
      after (front ++ rest) := by
  rcases nodup_append.mp hNodup with ⟨hFrontNodup, hRestNodup, hApart⟩
  apply segment_append.mpr
  constructor
  · refine (hFront.set_after hFrontNodup _).congr (fun _ _ => rfl) ?_
    intro j hj
    exact updateHead_of_not_mem fun hMem => hApart j hj j hMem rfl
  · refine (hRest.set_before hRestNodup _).congr ?_ (fun _ _ => rfl)
    intro j hj
    exact updateLast_of_not_mem fun hMem => hApart j hMem j hj rfl

/- Take a member out of a list. -/
theorem Segment.unlink {i : Nat} (hSegment : Segment next prev before after (front ++ i :: rest))
    (hNodup : (front ++ i :: rest).Nodup) :
    Segment (updateLast next front (rest.headD after))
      (updateHead prev rest (front.getLastD before)) before
      after (front ++ rest) := by
  rcases segment_append.mp hSegment with ⟨hFront, hMember⟩
  refine hFront.join hMember.2.2 (hNodup.sublist ?_)
  exact (sublist_cons_self i rest).append_left front

/- Put a new index, with the same links, for a member. -/
theorem Segment.relink {i j : Nat} (hSegment : Segment next prev before after (front ++ i :: rest))
    (hNodup : (front ++ j :: rest).Nodup) (hNext : next j = next i) (hPrev : prev j = prev i) :
    Segment (updateLast next front j) (updateHead prev rest j)
      before after (front ++ j :: rest) := by
  rcases segment_append.mp hSegment with ⟨hFront, hMember⟩
  rcases hMember with ⟨hBefore, hAfter, hRest⟩
  rcases nodup_append.mp hNodup with ⟨hFrontNodup, hTailNodup, hApart⟩
  have hRestNew := (nodup_cons.mp hTailNodup).1
  have hFrontNew : j ∉ front := fun hMem => hApart j hMem j mem_cons_self rfl
  apply segment_append.mpr
  constructor
  · refine (hFront.set_after hFrontNodup j).congr (fun _ _ => rfl) ?_
    intro k hk
    exact updateHead_of_not_mem fun hMem => hApart k hk k (mem_cons_of_mem _ hMem) rfl
  · refine ⟨?_, ?_, ?_⟩
    · rw [updateHead_of_not_mem hRestNew, hPrev, hBefore]
    · rw [updateLast_of_not_mem hFrontNew, hNext, hAfter]
    · refine (hRest.set_before (nodup_cons.mp hTailNodup).2 j).congr ?_ (fun _ _ => rfl)
      intro k hk
      exact updateLast_of_not_mem fun hMem => hApart k hMem k (mem_cons_of_mem _ hk) rfl

/- Put a new index after a member. -/
theorem Segment.insert_after
    {i j : Nat} (hSegment : Segment next prev before after (front ++ i :: rest))
    (hNodup : (front ++ i :: j :: rest).Nodup) (hNext : next j = next i) (hPrev : prev j = i) :
    Segment (update next i j) (updateHead prev rest j)
      before after (front ++ i :: j :: rest) := by
  rcases segment_append.mp hSegment with ⟨hFront, hMember⟩
  rcases hMember with ⟨hBefore, hAfter, hRest⟩
  rcases nodup_append.mp hNodup with ⟨hFrontNodup, hTailNodup, hApart⟩
  rcases nodup_cons.mp hTailNodup with ⟨hMemberNew, hMoreNodup⟩
  rcases nodup_cons.mp hMoreNodup with ⟨hRestNew, hRestNodup⟩
  have hNe : j ≠ i := by
    rintro rfl
    exact hMemberNew mem_cons_self
  have hMemberRest : i ∉ rest := fun hMem => hMemberNew (mem_cons_of_mem _ hMem)
  apply segment_append.mpr
  constructor
  · refine hFront.congr ?_ ?_
    · intro k hk
      exact update_of_ne (fun hEq => hApart k hk i mem_cons_self hEq) _ _
    · intro k hk
      exact updateHead_of_not_mem fun hMem =>
        hApart k hk k (mem_cons_of_mem _ (mem_cons_of_mem _ hMem)) rfl
  · refine ⟨?_, update_self _ _ _, ?_, ?_, ?_⟩
    · rw [updateHead_of_not_mem hMemberRest, hBefore]
    · rw [updateHead_of_not_mem hRestNew, hPrev]
    · rw [update_of_ne hNe, hNext, hAfter]
    · refine (hRest.set_before hRestNodup j).congr ?_ (fun _ _ => rfl)
      intro k hk
      exact update_of_ne (ne_of_mem_of_not_mem hk hMemberRest) _ _

end IndexLinks
