import BootFirmware.Uboot.Net.HoleList
import Mathlib.Tactic.SplitIfs

/-
  What is missing of a packet, as a list of holes, and how
  one fragment changes it.

  The list that the buffer holds represents such a list, and
  still does after a fragment that meets a single hole and
  leaves room for the descriptors of what stays missing.

  Key definitions include:
    * `Hole`, `Represents` and `Spaced`
    * `fixedHoles` and `holesAfter`
    * `Fits`

  The main results are:
    * `fixHoles_represents`
    * `spaced_fixedHoles`
    * `netInsert_represents`
-/

----
-- Holes
----

namespace Uboot.Net

open List Function Option

structure Hole where
  index : Nat
  last : Nat
deriving DecidableEq, Repr

def Hole.start (h : Hole) : Nat :=
  8 * h.index

def indices (holes : List Hole) : List Nat :=
  holes.map Hole.index

/- The buffer holds this list of holes. -/
structure Represents
    (s : Defrag)
    (holes : List Hole) : Prop where
  hLinked : Linked s (indices holes)
  hLast : ∀ h ∈ holes, fieldOf s.pktBuff .lastByte h.index = h.last

/-
  The holes are in order, and a descriptor lies in its hole.
  The end of the packet stands for a hole without an end.
-/
structure Spaced (holes : List Hole) : Prop where
  hApart : holes.Pairwise fun h h' => h.last ≤ h'.start
  hRoom : ∀ h ∈ holes, h.start + 8 ≤ h.last
  hEnd : ∀ h ∈ holes, h.last % 8 = 0 ∨ h.last = 0xffff

/- The holes that stay linked before one that changes. -/
def keptFront (front : List Hole) : List Hole :=
  if (indices front).getLastD 0 = 0 then [] else front

/- A hole that ends with the last fragment. -/
def Hole.endedBy (f : Fragment) (h : Hole) : Hole :=
  if f.more then h else { h with last := u16 f.stop }

/- The holes after a fragment that meets `h` among them. -/
def fixedHoles (f : Fragment) (front : List Hole) (h : Hole) (rest : List Hole) :
    List Hole :=
  if f.offset8 ≤ h.index ∧ (h.last : Int) ≤ f.stop then
    keptFront front ++ rest
  else if (h.last : Int) ≤ f.stop then
    front ++ ⟨h.index, f.start⟩ :: rest
  else if f.offset8 ≤ h.index then
    keptFront front ++ ⟨f.newh.toNat, h.last⟩ :: rest
  else
    front ++ ⟨h.index, f.start⟩ :: ⟨f.newh.toNat, h.last⟩ :: rest

/- The fragment is taken for a repeated one. -/
def ignored (f : Fragment) (h : Hole) : Bool :=
  decide ((f.offset8 : Int) + (f.len + 7).tdiv 8 ≤ h.index)

/- The holes before the one that a fragment meets. -/
def passed (f : Fragment) (holes : List Hole) : List Hole :=
  holes.takeWhile fun h => h.last < f.start

/- The hole that a fragment meets, and those after it. -/
def met (f : Fragment) (holes : List Hole) : List Hole :=
  holes.dropWhile fun h => h.last < f.start

/- The holes that are left after a fragment. -/
def holesAfter (f : Fragment) (holes : List Hole) :
    List Hole :=
  match met f holes with
  | [] => holes
  | h :: rest =>
    if ignored f h then holes
    else fixedHoles f (passed f holes) (h.endedBy f) rest

----
-- Lists And Their Indices
----

theorem indices_append (front rest : List Hole) :
    indices (front ++ rest) = indices front ++ indices rest :=
  map_append

theorem indices_cons (h : Hole) (rest : List Hole) :
    indices (h :: rest) = h.index :: indices rest := rfl

theorem indices_keptFront (front : List Hole) :
    indices (keptFront front) = linkedFront (indices front) := by
  unfold keptFront linkedFront
  by_cases hZero : (indices front).getLastD 0 = 0
  · rw [if_pos hZero, if_pos hZero]
    rfl
  · rw [if_neg hZero, if_neg hZero]

variable {holes : List Hole}

theorem indices_eq_nil : indices holes = [] ↔ holes = [] :=
  map_eq_nil_iff

theorem keptFront_sublist (front : List Hole) :
    List.Sublist (keptFront front) front := by
  unfold keptFront
  by_cases hZero : (indices front).getLastD 0 = 0
  · rw [if_pos hZero]
    exact nil_sublist front
  · rw [if_neg hZero]

variable {h : Hole}

theorem mem_indices (hMem : h ∈ holes) :
    h.index ∈ indices holes :=
  mem_map_of_mem hMem

theorem passed_append_met (f : Fragment) (holes : List Hole) :
    passed f holes ++ met f holes = holes :=
  takeWhile_append_dropWhile

----
-- The Buffer After A Change Of The List
----

section Changes

variable {s : Defrag} {front rest : List Hole} {h : Hole}

section

variable (hRep : Represents s (front ++ h :: rest))
include hRep

theorem Represents.linked_at : Linked s (indices front ++ h.index :: indices rest) := by
  have hLinked := hRep.hLinked
  rwa [indices_append, indices_cons] at hLinked

theorem Represents.last_at : fieldOf s.pktBuff .lastByte h.index = h.last :=
  hRep.hLast h (mem_append_right front mem_cons_self)

/- The other members have other indices. -/
theorem Represents.index_ne {k : Hole} (hMem : k ∈ front ++ rest) :
    k.index ≠ h.index := by
  have hSorted := hRep.linked_at.hSorted
  rcases pairwise_append.mp hSorted with ⟨-, hTail, hBelow⟩
  rcases mem_append.mp hMem with hFront | hRest
  · exact Nat.ne_of_lt (hBelow _ (mem_indices hFront) _ mem_cons_self)
  · exact Nat.ne_of_gt ((pairwise_cons.mp hTail).1 _ (mem_indices hRest))

theorem Represents.last_other {k : Hole} (hMem : k ∈ front ++ rest) :
    fieldOf s.pktBuff .lastByte k.index = k.last := by
  apply hRep.hLast k
  rcases mem_append.mp hMem with hFront | hRest
  · exact mem_append_left _ hFront
  · exact mem_append_right _ (mem_cons_of_mem h hRest)

end

theorem mem_keptFront_append {k : Hole} (hMem : k ∈ keptFront front ++ rest) :
    k ∈ front ++ rest :=
  ((keptFront_sublist front).append_right rest).subset hMem

section

variable (hRep : Represents s (front ++ h :: rest))
include hRep

/- The members are apart from a hole that is added. -/
theorem Represents.index_ne_new
    {j : Nat} (hAfter : h.index < j) (hBefore : ∀ k ∈ indices rest, j < k) :
    ∀ k ∈ front ++ rest, k.index ≠ j := by
  rintro k hk rfl
  apply hRep.linked_at.not_mem_moved hAfter hBefore
  rcases mem_append.mp hk with hFront | hRest
  · exact mem_append_left _ (mem_indices hFront)
  · exact mem_append_right _ (mem_cons_of_mem _ (mem_indices hRest))

theorem Represents.set_last {last : Nat} (hSmall : last < 2 ^ 16) :
    Represents
      { s with
        pktBuff := putField s.pktBuff h.index .lastByte last }
      (front ++ ⟨h.index, last⟩ :: rest) := by
  have hLinked := hRep.linked_at
  constructor
  · rw [indices_append, indices_cons]
    constructor
    · exact hLinked.hFirst
    · simp only [fieldOf_putField_ne, ne_eq, reduceCtorEq, not_false_eq_true]
      exact hLinked.hSegment
    · exact hLinked.hSorted
    · exact hLinked.hFits
  · intro k hk
    simp only [fieldOf_putField_self _ _ _ hSmall]
    rcases mem_append.mp hk with hFront | hTail
    · have hMem : k ∈ front ++ rest := mem_append_left rest hFront
      rw [update_of_ne (hRep.index_ne hMem), hRep.last_other hMem]
    · rcases mem_cons.mp hTail with rfl | hRest
      · exact update_self _ _ _
      · have hMem : k ∈ front ++ rest := mem_append_right front hRest
        rw [update_of_ne (hRep.index_ne hMem), hRep.last_other hMem]

theorem Represents.dropHole :
    Represents (dropHole s (linkedFront (indices front)) (indices rest))
      (keptFront front ++ rest) := by
  constructor
  · rw [indices_append, indices_keptFront]
    exact hRep.linked_at.dropHole
  · intro k hk
    unfold Net.dropHole
    rw [fieldOf_putEnds_last]
    exact hRep.last_other (mem_keptFront_append hk)

theorem Represents.replaceHole
    {j : Nat} (hNew : SlotFits j) (hAfter : h.index < j) (hBefore : ∀ k ∈ indices rest, j < k) :
    Represents (replaceHole s (linkedFront (indices front)) h.index j (indices rest))
      (keptFront front ++ ⟨j, h.last⟩ :: rest) := by
  have hOther := hRep.index_ne_new hAfter hBefore
  constructor
  · rw [indices_append, indices_keptFront, indices_cons]
    exact hRep.linked_at.replaceHole hNew hAfter hBefore
  · intro k hk
    unfold Net.replaceHole
    rw [fieldOf_putEnds_last, fieldOf_move]
    have hCases : k = ⟨j, h.last⟩ ∨ k ∈ front ++ rest := by
      rcases mem_append.mp hk with hFront | hTail
      · exact .inr (mem_append_left _ ((keptFront_sublist front).subset hFront))
      · rcases mem_cons.mp hTail with hEq | hRest
        · exact .inl hEq
        · exact .inr (mem_append_right _ hRest)
    rcases hCases with rfl | hMem
    · rw [update_self, hRep.last_at]
    · rw [update_of_ne (hOther k hMem), hRep.last_other hMem]

theorem Represents.insertHole {j start : Nat} (hNew : SlotFits j) (hAfter : h.index < j)
    (hBefore : ∀ k ∈ indices rest, j < k) (hStart : start < 2 ^ 16) :
    Represents (insertHole s h.index j start (indices rest))
      (front ++ ⟨h.index, start⟩ :: ⟨j, h.last⟩ :: rest) := by
  have hOther := hRep.index_ne_new hAfter hBefore
  constructor
  · rw [indices_append, indices_cons, indices_cons]
    exact hRep.linked_at.insertHole hNew hAfter hBefore
  · intro k hk
    unfold Net.insertHole
    rw [fieldOf_putEnds_last, fieldOf_putField_ne _ _ _ (by decide),
      fieldOf_putField_ne _ _ _ (by decide), fieldOf_putField_self _ _ _ hStart, fieldOf_move]
    have hCases : k = ⟨h.index, start⟩ ∨ k = ⟨j, h.last⟩ ∨ k ∈ front ++ rest := by
      simp only [mem_append, mem_cons] at hk ⊢
      rcases hk with hFront | hEq | hEq | hRest
      · exact .inr (.inr (.inl hFront))
      · exact .inl hEq
      · exact .inr (.inl hEq)
      · exact .inr (.inr (.inr hRest))
    rcases hCases with rfl | rfl | hMem
    · exact update_self _ _ _
    · rw [update_of_ne (Nat.ne_of_gt hAfter), update_self, hRep.last_at]
    · rw [update_of_ne (hRep.index_ne hMem), update_of_ne (hOther k hMem), hRep.last_other hMem]

end

----
-- Fixing The List
----

/- What a change of the list keeps and leaves. -/
structure Changed
    (s s' : Defrag)
    (holes holes' : List Hole) : Prop where
  hTotal : s'.totalLen = s.totalLen
  hSame : SameBut (indices holes ++ indices holes') s.pktBuff s'.pktBuff
  hRep : holes' ≠ [] → Represents s' holes'

theorem changed_set_last
    {last : Nat} (hRep : Represents s (front ++ h :: rest)) (hSmall : last < 2 ^ 16) :
    Changed s
      { s with
        pktBuff := putField s.pktBuff h.index .lastByte last }
      (front ++ h :: rest)
      (front ++ ⟨h.index, last⟩ :: rest) where
  hTotal := rfl
  hSame := by
    refine sameBut_putField ?_ _ _ _
    refine mem_append_left _ (mem_indices ?_)
    exact mem_append_right front mem_cons_self
  hRep _ := hRep.set_last hSmall

theorem mem_front {k : Nat} (holes' : List Hole) (hMem : k ∈ linkedFront (indices front)) :
    k ∈ indices (front ++ h :: rest) ++ indices holes' := by
  rw [indices_append]
  exact mem_append_left _ (mem_append_left _ ((linkedFront_sublist _).subset hMem))

theorem mem_rest {k : Nat} (holes' : List Hole) (hMem : k ∈ indices rest) :
    k ∈ indices (front ++ h :: rest) ++ indices holes' := by
  rw [indices_append]
  exact mem_append_left _ (mem_append_right _ (mem_cons_of_mem _ hMem))

section

variable (hRep : Represents s (front ++ h :: rest))
include hRep

theorem changed_dropHole :
    Changed s (Net.dropHole s (linkedFront (indices front)) (indices rest))
      (front ++ h :: rest) (keptFront front ++ rest) where
  hTotal := rfl
  hSame := sameBut_putEnds (fun _ hk => mem_front _ hk) (fun _ hk => mem_rest _ hk)
  hRep _ := hRep.dropHole

theorem changed_replaceHole
    {j : Nat} (hNew : SlotFits j) (hAfter : h.index < j) (hBefore : ∀ k ∈ indices rest, j < k) :
    Changed s (Net.replaceHole s (linkedFront (indices front)) h.index j (indices rest))
      (front ++ h :: rest)
      (keptFront front ++ ⟨j, h.last⟩ :: rest) where
  hTotal := rfl
  hSame := by
    refine (sameBut_move ?_ _ _).trans
      (sameBut_putEnds (fun _ hk => mem_front _ hk) (fun _ hk => mem_rest _ hk))
    refine mem_append_right _ ?_
    rw [indices_append, indices_cons]
    exact mem_append_right _ mem_cons_self
  hRep _ := hRep.replaceHole hNew hAfter hBefore

theorem changed_insertHole {j start : Nat} (hNew : SlotFits j) (hAfter : h.index < j)
    (hBefore : ∀ k ∈ indices rest, j < k) (hStart : start < 2 ^ 16) :
    Changed s (Net.insertHole s h.index j start (indices rest)) (front ++ h :: rest)
      (front ++ ⟨h.index, start⟩ :: ⟨j, h.last⟩ :: rest) where
  hTotal := rfl
  hSame := by
    let holes' : List Hole := front ++ ⟨h.index, start⟩ :: ⟨j, h.last⟩ :: rest
    have hOld : h.index ∈ indices (front ++ h :: rest) ++ indices holes' :=
      mem_append_left _ (mem_indices (mem_append_right front mem_cons_self))
    have hAdded : j ∈ indices (front ++ h :: rest) ++ indices holes' := by
      refine mem_append_right _ ?_
      rw [indices_append, indices_cons, indices_cons]
      exact mem_append_right _ (mem_cons_of_mem _ mem_cons_self)
    have hEnds : ∀ m, SameBut (indices (front ++ h :: rest) ++ indices holes') m
          (putEnds m [] (indices rest) j 0) :=
      fun _ => sameBut_putEnds (fun _ hk => absurd hk not_mem_nil)
        (fun _ hk => mem_rest holes' hk)
    exact (sameBut_move hAdded _ _).trans
      ((sameBut_putField hOld _ _ _).trans
        ((sameBut_putField hOld _ _ _).trans ((sameBut_putField hAdded _ _ _).trans (hEnds _))))
  hRep _ := hRep.insertHole hNew hAfter hBefore hStart

end

/- A hole that goes on after the fragment has its place. -/
def NewFits (f : Fragment) (h : Hole)
    (rest : List Hole) : Prop :=
  ∃ j : Nat, f.newh = j ∧ SlotFits j ∧ h.index < j ∧ ∀ k ∈ indices rest, j < k

theorem fixHoles_represents
    {f : Fragment} (hRep : Represents s (front ++ h :: rest)) (hStart : f.start < 2 ^ 16)
    (hNew : f.stop < h.last → NewFits f h rest) :
    ∃ s', fixHoles f h.index s = some (decide (fixedHoles f front h rest = []), s') ∧
      Changed s s' (front ++ h :: rest) (fixedHoles f front h rest) := by
  have hLinked := hRep.linked_at
  have hIn := hLinked.fits_at
  rw [fixHoles, getField_bind hIn, hRep.last_at]
  unfold fixedHoles
  by_cases hLast : (h.last : Int) ≤ f.stop
  · by_cases hFirst : f.offset8 ≤ h.index
    · rw [if_pos ⟨hFirst, hLast⟩, if_pos ⟨hFirst, hLast⟩]
      by_cases hNone : keptFront front ++ rest = []
      · rcases append_eq_nil_iff.mp hNone with ⟨hKept, hRest⟩
        have hFront : linkedFront (indices front) = [] := by
          rw [← indices_keptFront, hKept]
          rfl
        refine ⟨s, ?_, rfl, .refl _ _, fun hMore => absurd hNone hMore⟩
        rw [removeHole_last hLinked hFront (indices_eq_nil.mpr hRest), decide_eq_true hNone]
      · have hMore : linkedFront (indices front) ++ indices rest ≠ [] := by
          rwa [← indices_keptFront, ← indices_append, ne_eq, indices_eq_nil]
        refine ⟨_, ?_, changed_dropHole hRep⟩
        rw [removeHole_eq hLinked hMore, decide_eq_false hNone]
    · have hNot : ¬(f.offset8 ≤ h.index ∧ (h.last : Int) ≤ f.stop) :=
        fun hBoth => hFirst hBoth.1
      rw [if_neg hNot, if_neg hNot, if_pos hLast, if_pos hLast, setField_map hIn, u16_nat hStart]
      refine ⟨_, ?_, changed_set_last hRep hStart⟩
      rw [decide_eq_false (by simp)]
  · have hNot : ¬(f.offset8 ≤ h.index ∧ (h.last : Int) ≤ f.stop) :=
      fun hBoth => hLast hBoth.2
    rcases hNew (Int.not_le.mp hLast) with ⟨j, hj, hFits, hAfter, hBefore⟩
    rw [if_neg hNot, if_neg hNot, if_neg hLast, if_neg hLast, hj, Int.toNat_natCast]
    by_cases hFirst : f.offset8 ≤ h.index
    · rw [if_pos hFirst, if_pos hFirst, moveHole_eq hLinked hFits hBefore, map_some]
      refine ⟨_, ?_, changed_replaceHole hRep hFits hAfter hBefore⟩
      rw [decide_eq_false (by simp)]
    · rw [if_neg hFirst, if_neg hFirst, splitHole_eq hLinked hFits hAfter hStart, map_some]
      refine ⟨_, ?_, changed_insertHole hRep hFits hAfter hBefore hStart⟩
      rw [decide_eq_false (by simp)]

end Changes

----
-- Fragments That Fit
----

/-
  The fragment has no negative length, meets no other hole
  and, where the hole goes on after it, ends at the place of
  a descriptor in the buffer.
-/
def FitsHole (f : Fragment) (h : Hole)
    (rest : List Hole) : Prop :=
  0 ≤ f.len ∧ (∀ k ∈ rest, f.stop ≤ k.start) ∧
    (f.more = true → f.stop < h.last → f.len % 8 = 0 ∧ f.stop + 8 ≤ IP_MAXUDP)

instance
    (f : Fragment) (h : Hole) (rest : List Hole) :
    Decidable (FitsHole f h rest) :=
  inferInstanceAs (Decidable (_ ∧ _ ∧ _))

/- There is a list, and a hole that is met has room left. -/
def Fits (f : Fragment) (holes : List Hole) : Prop :=
  holes ≠ [] ∧ ∀ h ∈ (met f holes).head?, ignored f h = true ∨ FitsHole f h (met f holes).tail

instance (f : Fragment) (holes : List Hole) : Decidable (Fits f holes) :=
  inferInstanceAs (Decidable (_ ∧ _))

/- A byte of the packet that is in a hole. -/
def Missing (holes : List Hole) (b : Nat) : Prop :=
  ∃ h ∈ holes, h.start ≤ b ∧ b < h.last

/- What is known of a fragment that meets a hole. -/
structure Meets
    (f : Fragment) (front : List Hole) (h : Hole)
    (rest : List Hole) : Prop where
  hSpaced : Spaced (front ++ h :: rest)
  hFront : ∀ k ∈ front, k.last < f.start
  hMet : f.start ≤ h.last
  hNew : ignored f h = false
  hFits : FitsHole f h rest
  hStop : f.stop ≤ IP_MAXUDP

theorem endedBy_index (f : Fragment) (h : Hole) :
    (h.endedBy f).index = h.index := by
  unfold Hole.endedBy
  cases f.more <;> rfl

namespace Meets

variable {f : Fragment} {front rest : List Hole} {h : Hole}

section

variable (hMeets : Meets f front h rest)
include hMeets

theorem start_le_stop : (f.start : Int) ≤ f.stop := by
  have hLen := hMeets.hFits.1
  unfold Fragment.stop
  omega

theorem start_lt : f.start < 2 ^ 16 := by
  have hLe := hMeets.start_le_stop
  have hStop := hMeets.hStop
  unfold IP_MAXUDP IP_PKTSIZE IP_HDR_SIZE at hStop
  omega

theorem u16_stop : (u16 f.stop : Int) = f.stop := by
  have hLe := hMeets.start_le_stop
  have hStop := hMeets.hStop
  unfold IP_MAXUDP IP_PKTSIZE IP_HDR_SIZE at hStop
  unfold u16
  omega

theorem start_lt_stop : (h.start : Int) < f.stop := by
  have hLen := hMeets.hFits.1
  have hNew := of_decide_eq_false hMeets.hNew
  rw [Int.tdiv_eq_ediv_of_nonneg (by omega)] at hNew
  unfold Fragment.stop Fragment.start Hole.start
  omega

theorem last_endedBy :
    ((h.endedBy f).last : Int) =
      if f.more then (h.last : Int) else f.stop := by
  unfold Hole.endedBy
  cases f.more with
  | true => rfl
  | false => exact hMeets.u16_stop

section

variable (hLt : f.stop < (h.endedBy f).last)
include hLt

/- A hole goes on after a fragment that is not the last. -/
theorem more_of_lt : f.more = true ∧ h.endedBy f = h := by
  rw [hMeets.last_endedBy] at hLt
  unfold Hole.endedBy
  cases hMore : f.more with
  | true => exact ⟨rfl, if_pos rfl⟩
  | false =>
    rw [hMore, if_neg Bool.false_ne_true] at hLt
    exact absurd hLt (Int.lt_irrefl _)

/- The place of the descriptor after the fragment. -/
theorem newh_eq :
    ∃ j : Nat, f.newh = j ∧ f.stop = ((8 * j : Nat) : Int) ∧
      8 * j < h.last ∧ 8 * j + 8 ≤ IP_MAXUDP := by
  rcases hMeets.more_of_lt hLt with ⟨hMore, hSame⟩
  rw [hSame] at hLt
  rcases hMeets.hFits.2.2 hMore hLt with ⟨hAligned, hRoom⟩
  have hLen := hMeets.hFits.1
  have hStop : f.stop = ((8 * f.offset8 : Nat) : Int) + f.len := by
    unfold Fragment.stop Fragment.start
    omega
  refine ⟨f.offset8 + f.len.toNat / 8, ?_, ?_, ?_, ?_⟩
  · unfold Fragment.newh
    rw [Int.tdiv_eq_ediv_of_nonneg hLen]
    omega
  · omega
  · omega
  · omega

theorem newFits : NewFits f (h.endedBy f) rest := by
  rcases hMeets.newh_eq hLt with ⟨j, hj, hStop, hBelow, hRoom⟩
  have hReach := hMeets.start_lt_stop
  have hMax : IP_MAXUDP = 16364 := rfl
  refine ⟨j, hj, ?_, ?_, ?_⟩
  · rw [slotFits_iff]
    omega
  · rw [endedBy_index]
    unfold Hole.start at hReach
    omega
  · intro i hi
    rcases mem_map.mp hi with ⟨k, hk, rfl⟩
    have hTail := (pairwise_append.mp hMeets.hSpaced.hApart).2.1
    have hNext := (pairwise_cons.mp hTail).1 k hk
    unfold Hole.start at hNext
    omega

end

/- A hole after the fragment, with its place and its end. -/
theorem mem_fixed {k : Hole} (hMem : k ∈ fixedHoles f front (h.endedBy f) rest) :
    k ∈ front ∨ k ∈ rest ∨ (k = ⟨h.index, f.start⟩ ∧ h.start + 8 ≤ f.start) ∨
      (k.last = h.last ∧ f.stop = (k.start : Int) ∧
        k.start < h.last ∧ k.start + 8 ≤ IP_MAXUDP) := by
  have hKept : k ∈ keptFront front → k ∈ front := fun hk => (keptFront_sublist front).subset hk
  have hNewHole :
      f.stop < (h.endedBy f).last → k = ⟨f.newh.toNat, (h.endedBy f).last⟩ →
          k.last = h.last ∧ f.stop = (k.start : Int) ∧
            k.start < h.last ∧ k.start + 8 ≤ IP_MAXUDP := by
    rintro hLt rfl
    rcases hMeets.newh_eq hLt with ⟨j, hj, hStop, hRoom⟩
    have hSame := (hMeets.more_of_lt hLt).2
    have hNat : f.newh.toNat = j := by rw [hj, Int.toNat_natCast]
    refine ⟨by rw [hSame], ?_⟩
    rw [hNat]
    exact ⟨hStop, hRoom⟩
  have hShort : ¬f.offset8 ≤ h.index → h.start + 8 ≤ f.start := by
    intro hNot
    unfold Hole.start Fragment.start
    omega
  unfold fixedHoles at hMem
  rw [endedBy_index] at hMem
  split_ifs at hMem with hDrop hLast hFirst
  · rcases mem_append.mp hMem with hk | hk
    · exact .inl (hKept hk)
    · exact .inr (.inl hk)
  · have hNot : ¬f.offset8 ≤ h.index :=
      fun hFirst => hDrop ⟨hFirst, hLast⟩
    rcases mem_append.mp hMem with hk | hk
    · exact .inl hk
    · rcases mem_cons.mp hk with hEq | hk
      · exact .inr (.inr (.inl ⟨hEq, hShort hNot⟩))
      · exact .inr (.inl hk)
  · rcases mem_append.mp hMem with hk | hk
    · exact .inl (hKept hk)
    · rcases mem_cons.mp hk with hEq | hk
      · exact .inr (.inr (.inr (hNewHole (Int.not_le.mp hLast) hEq)))
      · exact .inr (.inl hk)
  · rcases mem_append.mp hMem with hk | hk
    · exact .inl hk
    · rcases mem_cons.mp hk with hEq | hk
      · exact .inr (.inr (.inl ⟨hEq, hShort hFirst⟩))
      · rcases mem_cons.mp hk with hEq | hk
        · exact .inr (.inr (.inr (hNewHole (Int.not_le.mp hLast) hEq)))
        · exact .inr (.inl hk)

theorem room :
    (∀ k ∈ front, k.start + 8 ≤ k.last) ∧ (∀ k ∈ rest, k.start + 8 ≤ k.last) ∧
      h.start + 8 ≤ h.last := by
  have hRoom := hMeets.hSpaced.hRoom
  refine ⟨?_, ?_, ?_⟩
  · exact fun k hk => hRoom k (mem_append_left _ hk)
  · exact fun k hk => hRoom k (mem_append_right _ (mem_cons_of_mem h hk))
  · exact hRoom h (mem_append_right _ mem_cons_self)

/- Holes in order, or apart, stay so. -/
theorem pairwise_fixed {R : Nat → Nat → Prop}
    (hLeft : ∀ {a b c}, a ≤ b → R b c → R a c) (hRight : ∀ {a b c}, R a b → b ≤ c → R a c)
    (hApart : (front ++ h :: rest).Pairwise fun k k' => R k.last k'.start)
    (hShort : f.stop < (h.endedBy f).last → R f.start (8 * f.newh.toNat)) :
    (fixedHoles f front (h.endedBy f) rest).Pairwise (fun k k' => R k.last k'.start) := by
  rcases pairwise_append.mp hApart with ⟨hFront, hTail, hAll⟩
  rcases pairwise_cons.mp hTail with ⟨hAfter, hRest⟩
  have hBefore : ∀ k ∈ front, R k.last h.start := fun k hk => hAll k hk h mem_cons_self
  have hCross : ∀ k ∈ front, ∀ k' ∈ rest, R k.last k'.start :=
    fun k hk k' hk' => hAll k hk k' (mem_cons_of_mem h hk')
  have hKept : ∀ k ∈ keptFront front, k ∈ front := fun k hk => (keptFront_sublist front).subset hk
  have hKeptFront := hFront.sublist (keptFront_sublist front)
  have hMet := hMeets.hMet
  have hNewHole :
      f.stop < (h.endedBy f).last → h.start ≤ 8 * f.newh.toNat ∧ (h.endedBy f).last = h.last := by
    intro hLt
    rcases hMeets.newh_eq hLt with ⟨j, hj, hStop, -⟩
    have hReach := hMeets.start_lt_stop
    rw [hj, Int.toNat_natCast, (hMeets.more_of_lt hLt).2]
    omega
  unfold fixedHoles
  rw [endedBy_index]
  split_ifs with hDrop hLast hFirst
  · exact pairwise_append.mpr ⟨hKeptFront, hRest, fun k hk => hCross k (hKept k hk)⟩
  · refine pairwise_append.mpr ⟨hFront, pairwise_cons.mpr ⟨?_, hRest⟩, ?_⟩
    · exact fun k hk => hLeft hMet (hAfter k hk)
    · intro k hk k' hk'
      rcases mem_cons.mp hk' with rfl | hk'
      · exact hBefore k hk
      · exact hCross k hk k' hk'
  · rcases hNewHole (Int.not_le.mp hLast) with ⟨hStart, hEq⟩
    rw [hEq]
    refine pairwise_append.mpr ⟨hKeptFront, pairwise_cons.mpr ⟨hAfter, hRest⟩, ?_⟩
    intro k hk k' hk'
    rcases mem_cons.mp hk' with rfl | hk'
    · exact hRight (hBefore k (hKept k hk)) hStart
    · exact hCross k (hKept k hk) k' hk'
  · rcases hNewHole (Int.not_le.mp hLast) with ⟨hStart, hEq⟩
    rw [hEq]
    refine pairwise_append.mpr
      ⟨hFront, pairwise_cons.mpr ⟨?_, pairwise_cons.mpr ⟨hAfter, hRest⟩⟩, ?_⟩
    · intro k hk
      rcases mem_cons.mp hk with rfl | hk
      · exact hShort (Int.not_le.mp hLast)
      · exact hLeft hMet (hAfter k hk)
    · intro k hk k' hk'
      rcases mem_cons.mp hk' with rfl | hk'
      · exact hBefore k hk
      · rcases mem_cons.mp hk' with rfl | hk'
        · exact hRight (hBefore k hk) hStart
        · exact hCross k hk k' hk'

end

end Meets

variable {f : Fragment} {front rest : List Hole}

/- The holes after a fragment are in order. -/
theorem spaced_fixedHoles (hMeets : Meets f front h rest) :
    Spaced (fixedHoles f front (h.endedBy f) rest) := by
  have hEnd := hMeets.hSpaced.hEnd
  have hMax : IP_MAXUDP = 16364 := rfl
  have hHole := hEnd h (mem_append_right front mem_cons_self)
  constructor
  · refine hMeets.pairwise_fixed Nat.le_trans Nat.le_trans hMeets.hSpaced.hApart fun hLt => ?_
    rcases hMeets.newh_eq hLt with ⟨j, hj, hStop, -⟩
    have hLe := hMeets.start_le_stop
    rw [hj, Int.toNat_natCast]
    omega
  · intro k hk
    rcases hMeets.mem_fixed hk with
      hk | hk | ⟨rfl, hStart⟩ | ⟨hLast, -, hBelow, hRoom⟩
    · exact hMeets.room.1 k hk
    · exact hMeets.room.2.1 k hk
    · exact hStart
    · unfold Hole.start at hBelow hRoom ⊢
      omega
  · intro k hk
    rcases hMeets.mem_fixed hk with
      hk | hk | ⟨rfl, -⟩ | ⟨hLast, -⟩
    · exact hEnd k (mem_append_left _ hk)
    · exact hEnd k (mem_append_right _ (mem_cons_of_mem h hk))
    · refine .inl ?_
      simp only [Fragment.start]
      omega
    · rw [hLast]
      exact hHole

----
-- Inserting A Fragment
----

/- What a fragment that meets a hole leaves in the buffer. -/
structure Inserted
    (ip : List UInt8) (f : Fragment) (s s' : Defrag)
    (holes holes' : List Hole) : Prop where
  hTotal : s'.totalLen = if f.more then s.totalLen else u16 f.stop
  hHeader : s'.ipId = s.ipId
  hData : ∀ b : Nat, f.start ≤ b → (b : Int) < f.stop →
    s'.pktBuff (IP_HDR_SIZE + b) = ip.getD (IP_HDR_SIZE + (b - f.start)) 0
  hSame : ∀ b : Nat, ¬Missing holes b → ¬(f.start ≤ b ∧ (b : Int) < f.stop) →
    s'.pktBuff (IP_HDR_SIZE + b) = s.pktBuff (IP_HDR_SIZE + b)
  hRep : holes' ≠ [] → Represents s' holes'

theorem fieldOf_congr {m m' : Memory UInt8} {i : Nat}
    (field : Field) (hSame : ∀ a, slot i ≤ a → a < slot i + 8 → m' a = m a) :
    fieldOf m' field i = fieldOf m field i := by
  have hOff := field.off_le
  exact le16_congr (hSame _ (by omega) (by omega)) (hSame _ (by omega) (by omega))

theorem Represents.write {s : Defrag} {off : Nat} {bytes : List UInt8} (hRep : Represents s holes)
    (hApart : ∀ h ∈ holes, slot h.index + 8 ≤ off ∨ off + bytes.length ≤ slot h.index) :
    Represents { s with pktBuff := s.pktBuff.write off bytes }
      holes := by
  have hField : ∀ field, ∀ i ∈ indices holes,
      fieldOf (s.pktBuff.write off bytes) field i = fieldOf s.pktBuff field i := by
    intro field i hi
    rcases mem_map.mp hi with ⟨h, hh, rfl⟩
    apply fieldOf_congr
    intro a hLow hHigh
    rcases hApart h hh with hBelow | hAbove
    · exact Memory.write_of_lt (by omega)
    · exact Memory.write_of_le (by omega)
  constructor
  · constructor
    · exact hRep.hLinked.hFirst
    · exact hRep.hLinked.hSegment.congr (hField .nextHole) (hField .prevHole)
    · exact hRep.hLinked.hSorted
    · exact hRep.hLinked.hFits
  · intro h hh
    exact (hField .lastByte _ (mem_indices hh)).trans (hRep.hLast h hh)

theorem truncateHole_represents {s : Defrag} (hRep : Represents s (front ++ h :: rest)) :
    ∃ s', truncateHole f h.index s = some s' ∧
      s'.totalLen = (if f.more then s.totalLen else u16 f.stop) ∧
      SameBut [h.index] s.pktBuff s'.pktBuff ∧ Represents s' (front ++ h.endedBy f :: rest) := by
  have hIn := hRep.linked_at.fits_at
  have hSmall : u16 f.stop < 2 ^ 16 := by
    unfold u16
    omega
  unfold truncateHole Hole.endedBy
  cases f.more with
  | true => exact ⟨s, rfl, rfl, .refl _ _, hRep⟩
  | false =>
    rw [if_neg Bool.false_ne_true, setField_map hIn]
    refine ⟨_, rfl, rfl, sameBut_putField mem_cons_self _ _ _, ?_⟩
    have hSet := hRep.set_last hSmall
    exact ⟨⟨hSet.hLinked.hFirst, hSet.hLinked.hSegment,
      hSet.hLinked.hSorted, hSet.hLinked.hFits⟩, hSet.hLast⟩

/- The bytes of a fragment, at their place in the buffer. -/
def fragmentWrite (ip : List UInt8) (f : Fragment) (m : Memory UInt8) :
    Memory UInt8 :=
  m.write (slot f.offset8) ((ip.drop IP_HDR_SIZE).take f.len.toNat)

def copied (ip : List UInt8) (f : Fragment) (s : Defrag) :
    Defrag :=
  { s with pktBuff := fragmentWrite ip f s.pktBuff }

variable {ip : List UInt8}

theorem copyFragment_eq (s : Defrag) (hLen : 0 ≤ f.len) (hStop : f.stop ≤ IP_MAXUDP)
    (hLength : (IP_HDR_SIZE : Int) + f.len ≤ ip.length) :
    copyFragment ip f s = some (copied ip f s) := by
  have hIn : inBuff (holeOff f.offset8) f.len.toNat = true := by
    apply decide_eq_true
    unfold Fragment.stop Fragment.start at hStop
    simp only [holeOff, IP_HDR_SIZE, IP_PKTSIZE, IP_MAXUDP] at hStop ⊢
    omega
  have hSlot : (holeOff f.offset8).toNat = slot f.offset8 := by
    simp only [holeOff, slot]
    omega
  rw [copyFragment, if_pos ⟨hLen, hLength, hIn⟩, hSlot]
  rfl

variable {m : Memory UInt8}

theorem fragmentWrite_of_lt {a : Nat} (ha : a < IP_HDR_SIZE + f.start) :
    fragmentWrite ip f m a = m a := by
  apply Memory.write_of_lt
  unfold slot
  unfold Fragment.start at ha
  omega

theorem fragmentWrite_at {b : Nat} (hLength : (IP_HDR_SIZE : Int) + f.len ≤ ip.length)
    (hLow : f.start ≤ b) (hHigh : (b : Int) < f.stop) :
    fragmentWrite ip f m (IP_HDR_SIZE + b) = ip.getD (IP_HDR_SIZE + (b - f.start)) 0 := by
  have hOff : IP_HDR_SIZE + b - slot f.offset8 = b - f.start := by
    unfold slot Fragment.start
    omega
  have hIndex : b - f.start < f.len.toNat := by
    unfold Fragment.stop at hHigh
    omega
  have hIn : IP_HDR_SIZE + (b - f.start) < ip.length := by omega
  have hSlot : slot f.offset8 ≤ IP_HDR_SIZE + b := by
    unfold slot
    unfold Fragment.start at hLow
    omega
  rw [fragmentWrite, Memory.write, if_pos hSlot, hOff, getElem?_take_of_lt hIndex, getElem?_drop,
    getElem?_eq_getElem hIn, getD_eq_getElem?_getD, getElem?_eq_getElem hIn]
  rfl

theorem fragmentWrite_of_le {b : Nat} (hLen : 0 ≤ f.len) (hb : f.stop ≤ (b : Int)) :
    fragmentWrite ip f m (IP_HDR_SIZE + b) = m (IP_HDR_SIZE + b) := by
  apply Memory.write_of_le
  rw [length_take]
  unfold slot
  unfold Fragment.stop Fragment.start at hb
  omega

section Insert

variable {ip : List UInt8} {f : Fragment} {s : Defrag} {front rest : List Hole} {h : Hole}

/- A descriptor is not seen from a byte outside the holes. -/
theorem Meets.away
    {b i : Nat} (hMeets : Meets f front h rest) (hNot : ¬Missing (front ++ h :: rest) b)
    (hi : i ∈ indices (front ++ h :: rest) ++ indices (fixedHoles f front (h.endedBy f) rest)) :
    IP_HDR_SIZE + b < slot i ∨ slot i + 8 ≤ IP_HDR_SIZE + b := by
  have hOld : ∀ k ∈ front ++ h :: rest,
      IP_HDR_SIZE + b < slot k.index ∨ slot k.index + 8 ≤ IP_HDR_SIZE + b := by
    intro k hk
    have hRoom := hMeets.hSpaced.hRoom k hk
    have hOut : ¬(k.start ≤ b ∧ b < k.last) := fun hIn => hNot ⟨k, hk, hIn⟩
    unfold slot
    unfold Hole.start at hRoom hOut
    omega
  have hMember : h ∈ front ++ h :: rest := mem_append_right front mem_cons_self
  rcases mem_append.mp hi with hi | hi
  · rcases mem_map.mp hi with ⟨k, hk, rfl⟩
    exact hOld k hk
  · rcases mem_map.mp hi with ⟨k, hk, rfl⟩
    rcases hMeets.mem_fixed hk with
      hk | hk | ⟨rfl, -⟩ | ⟨-, hStop, hBelow, hRoom⟩
    · exact hOld k (mem_append_left _ hk)
    · exact hOld k (mem_append_right _ (mem_cons_of_mem h hk))
    · exact hOld h hMember
    · have hEnd := hMeets.hSpaced.hEnd h hMember
      have hReach := hMeets.start_lt_stop
      have hOut : ¬(h.start ≤ b ∧ b < h.last) := fun hIn => hNot ⟨h, hMember, hIn⟩
      have hMax : IP_MAXUDP = 16364 := rfl
      unfold slot
      unfold Hole.start at hStop hBelow hRoom hReach hOut
      omega

/- The descriptors that stay are apart from the fragment. -/
theorem Meets.apart
    {k : Hole} (hMeets : Meets f front h rest) (hk : k ∈ fixedHoles f front (h.endedBy f) rest) :
    slot k.index + 8 ≤ slot f.offset8 ∨
      slot f.offset8 + ((ip.drop IP_HDR_SIZE).take f.len.toNat).length ≤ slot k.index := by
  have hCases : k.start + 8 ≤ f.start ∨ f.stop ≤ k.start := by
    rcases hMeets.mem_fixed hk with
      hk | hk | ⟨rfl, hShort⟩ | ⟨-, hStop, -⟩
    · have hRoom := hMeets.room.1 k hk
      have hPassed := hMeets.hFront k hk
      exact .inl (Nat.le_trans hRoom (Nat.le_of_lt hPassed))
    · exact .inr (hMeets.hFits.2.1 k hk)
    · exact .inl hShort
    · exact .inr (Int.le_of_eq hStop)
  rw [length_take]
  unfold slot
  unfold Hole.start Fragment.stop Fragment.start at hCases
  rcases hCases with hBelow | hAbove
  · exact .inl (by omega)
  · refine .inr ?_
    have hLen := hMeets.hFits.1
    omega

/- The length of the packet is written in its header. -/
theorem complete_at (s : Defrag) (a : Nat) (ha : 4 ≤ a) :
    (complete s).2.pktBuff a = s.pktBuff a :=
  Memory.write_of_le ha

/- The bytes outside the descriptors, after the list is fixed. -/
def Keeps (s s' : Defrag)
    (indices : List Nat) : Prop :=
  ∀ a, (∀ i ∈ indices, a < slot i ∨ slot i + 8 ≤ a) → s'.pktBuff a = s.pktBuff a

theorem inserted_of_copied {s' s₂ : Defrag}
    (hMeets : Meets f front h rest) (hLength : (IP_HDR_SIZE : Int) + f.len ≤ ip.length)
    (hTotal : s₂.totalLen = if f.more then s.totalLen else u16 f.stop)
    (hKeep :
      Keeps s s₂ (indices (front ++ h :: rest) ++ indices (fixedHoles f front (h.endedBy f) rest)))
    (hRep :
      fixedHoles f front (h.endedBy f) rest ≠ [] →
        Represents s₂ (fixedHoles f front (h.endedBy f) rest))
    (hTotal' : s'.totalLen = s₂.totalLen)
    (hBytes : ∀ a, 4 ≤ a → s'.pktBuff a = fragmentWrite ip f s₂.pktBuff a)
    (hMore : fixedHoles f front (h.endedBy f) rest ≠ [] → s' = copied ip f s₂) :
    Inserted ip f s s' (front ++ h :: rest) (fixedHoles f front (h.endedBy f) rest) := by
  have hHeader : ∀ a, 4 ≤ a → a < IP_HDR_SIZE → s'.pktBuff a = s.pktBuff a := by
    intro a hLow ha
    rw [hBytes a hLow, fragmentWrite_of_lt (Nat.lt_add_right _ ha)]
    refine hKeep a fun i _ => .inl ?_
    exact Nat.lt_of_lt_of_le ha (Nat.le_add_right _ _)
  constructor
  · rw [hTotal', hTotal]
  · unfold Defrag.ipId
    rw [hHeader 4 (by decide) (by decide), hHeader 5 (by decide) (by decide)]
  · intro b hLow hHigh
    rw [hBytes _ (Nat.le_add_right_of_le (by decide)), fragmentWrite_at hLength hLow hHigh]
  · intro b hMissing hOut
    have hWrite :
        fragmentWrite ip f s₂.pktBuff (IP_HDR_SIZE + b) = s₂.pktBuff (IP_HDR_SIZE + b) := by
      by_cases hLow : f.start ≤ b
      · exact fragmentWrite_of_le hMeets.hFits.1 (Int.not_lt.mp fun hHigh => hOut ⟨hLow, hHigh⟩)
      · exact fragmentWrite_of_lt (Nat.add_lt_add_left (Nat.not_le.mp hLow) _)
    rw [hBytes _ (Nat.le_add_right_of_le (by decide)),
      hWrite, hKeep _ fun i hi => hMeets.away hMissing hi]
  · intro hSome
    rw [hMore hSome]
    exact (hRep hSome).write fun k hk => hMeets.apart hk

theorem netInsert_represents
    (hRep : Represents s (front ++ h :: rest)) (hMeets : Meets f front h rest)
    (hLength : (IP_HDR_SIZE : Int) + f.len ≤ ip.length) :
    ∃ s', netInsert ip f h.index s = some
          (if fixedHoles f front (h.endedBy f) rest = [] then
            some (s'.totalLen + IP_HDR_SIZE)
          else none, s') ∧
      Inserted ip f s s' (front ++ h :: rest) (fixedHoles f front (h.endedBy f) rest) := by
  have hNew := of_decide_eq_false hMeets.hNew
  rcases truncateHole_represents hRep with ⟨s₁, hTruncate, hTotal₁, hSame₁, hRep₁⟩
  rcases fixHoles_represents hRep₁ hMeets.start_lt (fun hLt => hMeets.newFits hLt) with
    ⟨s₂, hFix, hTotal₂, hSame₂, hRep₂⟩
  rw [endedBy_index] at hFix
  have hIndices : indices (front ++ h.endedBy f :: rest) = indices (front ++ h :: rest) := by
    rw [indices_append, indices_append, indices_cons, indices_cons, endedBy_index]
  rw [hIndices] at hSame₂
  have hKeep :
      Keeps s s₂ (indices (front ++ h :: rest) ++
        indices (fixedHoles f front (h.endedBy f) rest)) := by
    intro a ha
    rw [hSame₂ a ha, hSame₁ a]
    intro i hi
    rw [mem_singleton.mp hi]
    exact ha _ (mem_append_left _ (mem_indices
      (mem_append_right front mem_cons_self)))
  have hInserted := fun s' =>
    @inserted_of_copied ip f s front rest h s' s₂ hMeets hLength (hTotal₂.trans hTotal₁) hKeep hRep₂
  have hCopy := copyFragment_eq s₂ hMeets.hFits.1 hMeets.hStop hLength
  rw [netInsert, if_neg hNew, hTruncate, bind_some, hFix, bind_some, hCopy, map_some]
  by_cases hNone : fixedHoles f front (h.endedBy f) rest = []
  · refine ⟨(complete (copied ip f s₂)).2, ?_,
      hInserted _ rfl (complete_at _) (fun hSome => absurd hNone hSome)⟩
    rw [decide_eq_true hNone, if_pos rfl, if_pos hNone]
    rfl
  · refine ⟨copied ip f s₂, ?_, hInserted _ rfl (fun _ _ => rfl) (fun _ => rfl)⟩
    rw [decide_eq_false hNone, if_neg Bool.false_ne_true, if_neg hNone]

end Insert

end Uboot.Net
