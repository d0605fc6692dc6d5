import BootFirmware.Tfa.Xlat.Blocks
import Mathlib.Data.List.Perm.Basic
import Mathlib.Data.List.Count

/-
  When the tables reflect a list of regions.

  Every entry that a walk reaches says what the regions say
  about its block, every table a walk reaches is counted and
  reached once, and every other table is vacant.  The list
  may depend on the entry, so that the states inside a loop
  over the tables are described too.

  Key definitions include:
    * `Describes`
    * `Reflects`
    * `Extends`

  The main results are:
    * `Reflects.recount` and `Reflects.link`
    * `Reflects.congr`
    * `Reflects.find`
-/

namespace Tfa.Xlat

----
-- Descriptions
----

/- Where the walk finds entry `n` of depth `k`. -/
def Tables.slot (tb : Tables)
    (k n : Nat) : Option (TableRef × Nat) :=
  RadixTable.slot .base xlatTableEntries Desc.subtable? tb.desc k n

/- The regions of a list that meet a block. -/
def meeting (cfg : Config) (L : List MmapRegion)
    (k n : Nat) : List MmapRegion :=
  L.filter fun q => q.Meets cfg k n

/-
  What an entry says about its block: nothing is mapped, or
  the innermost region covers the block, or some region is
  mapped further down.
-/
def Describes (cfg : Config) (L : List MmapRegion)
    (k n : Nat) : Desc → Prop
  | .invalid => meeting cfg L k n = []
  | .leaf word =>
    ∃ q ∈ meeting cfg L k n, q.Covers cfg k n ∧ (∀ q' ∈ meeting cfg L k n, q.Within q') ∧
        xlatDesc cfg.xlatRegime q.attr (q.paOf (cfg.start k n)) (cfg.baseLevel + k) = .ok word
  | .table _ => cfg.baseLevel + k < 3 ∧ meeting cfg L k n ≠ []

/- The table is in use for so many regions. -/
def Counted (cfg : Config) (tb : Tables) (j : Nat)
    (regions : Nat) : Prop :=
  if cfg.platXlatTablesDynamic then
    tb.mappedRegions j = regions
  else j < tb.nextTable

/- The allocator may hand out the table. -/
def Unclaimed (cfg : Config) (tb : Tables)
    (j : Nat) : Prop :=
  if cfg.platXlatTablesDynamic then
    tb.mappedRegions j = 0
  else tb.nextTable ≤ j

/- The table is empty and may be handed out. -/
def Vacant (cfg : Config) (tb : Tables)
    (j : Nat) : Prop :=
  (∀ i < xlatTableEntries, tb.desc (.sub j) i = .invalid) ∧ Unclaimed cfg tb j

/- Nothing changes about the other tables. -/
def SameOthers (cfg : Config) (tb tb' : Tables)
    (j : Nat) : Prop :=
  ∀ j', j' ≠ j → (∀ regions, Counted cfg tb j' regions → Counted cfg tb' j' regions) ∧
    (Unclaimed cfg tb j' → Unclaimed cfg tb' j')

structure Reflects
    (cfg : Config) (tb : Tables)
    (P : Nat → Nat → List MmapRegion) : Prop where
  noSharing : RadixTable.NoSharing .base xlatTableEntries Desc.subtable? tb.desc
  describes : ∀ {k n t i}, tb.slot k n = some (t, i) → Describes cfg (P k n) k n (tb.desc t i)
  counted :
    ∀ {k n t i j}, tb.slot k n = some (t, i) →
      tb.desc t i = .table j → j < cfg.tablesNum ∧ Counted cfg tb j (meeting cfg (P k n) k n).length
  vacant : ∀ {j}, (∀ k n i, tb.slot k n ≠ some (.sub j, i)) → Vacant cfg tb j

variable {cfg : Config} {L : List MmapRegion} {k n : Nat}

theorem mem_meeting {q : MmapRegion} :
    q ∈ meeting cfg L k n ↔ q ∈ L ∧ q.Meets cfg k n := by
  simp [meeting]

variable {q : MmapRegion}

theorem meeting_cons_of_meets (hMeets : q.Meets cfg k n) :
    meeting cfg (q :: L) k n = q :: meeting cfg L k n := by
  simp [meeting, hMeets]

theorem meeting_cons_of_not_meets (hNot : ¬ q.Meets cfg k n) :
    meeting cfg (q :: L) k n = meeting cfg L k n := by
  simp [meeting, hNot]

variable {L L' : List MmapRegion}

theorem meeting_perm (hPerm : L.Perm L') (k n : Nat) :
    (meeting cfg L k n).Perm (meeting cfg L' k n) :=
  hPerm.filter _

variable {d : Desc}

/- A description depends on the regions that meet the block. -/
theorem Describes.congr
    (hPerm : (meeting cfg L k n).Perm (meeting cfg L' k n)) (hDesc : Describes cfg L k n d) :
    Describes cfg L' k n d := by
  cases d with
  | invalid =>
    have hNil : meeting cfg L k n = [] := hDesc
    rw [hNil] at hPerm
    exact hPerm.symm.eq_nil
  | leaf word =>
    rcases hDesc with ⟨q, hMem, hCovers, hInner, hWord⟩
    refine ⟨q, hPerm.mem_iff.mp hMem, hCovers, ?_, hWord⟩
    intro q' hMem'
    exact hInner q' (hPerm.mem_iff.mpr hMem')
  | table j =>
    refine ⟨hDesc.1, ?_⟩
    intro hNil
    rw [hNil] at hPerm
    exact hDesc.2 hPerm.eq_nil

theorem MmapRegion.Valid.carries
    {k n word : Nat} (hValid : q.Valid cfg) (hCovers : q.Covers cfg k n)
    (hWord :
      xlatDesc cfg.xlatRegime q.attr (q.paOf (cfg.start k n)) (cfg.baseLevel + k) = .ok word) :
    Carries (q.paOf (cfg.start k n)) (leafType (cfg.baseLevel + k)) word := by
  have hBlock := cfg.blockSize_pos k
  rcases hCovers with ⟨hLo, hHi⟩
  have hPa : q.paOf (cfg.start k n) = q.basePa + (cfg.start k n - q.baseVa) :=
    hValid.paOf_eq ⟨hLo, by omega⟩
  have hPage : 4096 ∣ q.paOf (cfg.start k n) := by
    have hStart := cfg.page_dvd_start k n
    have hVa := hValid.va_dvd
    have hBase := hValid.pa_dvd
    rw [hPa]
    omega
  have hLt : q.paOf (cfg.start k n) < 2 ^ 48 := by
    have hSpace := hValid.pa_hi_lt
    rw [hPa]
    omega
  exact xlatDesc_carries hPage hLt hWord

theorem Describes.leaf_type
    {k n word : Nat} (hValid : ∀ q ∈ L, q.Valid cfg) (hDesc : Describes cfg L k n (.leaf word)) :
    (Desc.leaf word).type = leafType (cfg.baseLevel + k) := by
  rcases hDesc with ⟨q, hMem, hCovers, _, hWord⟩
  have hq := hValid q (mem_meeting.mp hMem).1
  exact (hq.carries hCovers hWord).1

----
-- Walks
----

theorem entries_pos : 0 < xlatTableEntries := by
  decide

theorem subtable?_eq_some {c : TableRef} (hSome : d.subtable? = some c) :
    ∃ j, d = .table j ∧ c = .sub j := by
  cases d with
  | invalid => cases hSome
  | leaf word => cases hSome
  | table j => exact ⟨j, rfl, (Option.some.inj hSome).symm⟩

namespace Tables

variable {tb : Tables}

theorem slot_zero (n : Nat) :
    tb.slot 0 n = some (.base, n) :=
  rfl

/- The entries of the table that an entry refers to. -/
theorem slot_child {k n i j : Nat} {t : TableRef}
    (hSlot : tb.slot k n = some (t, i)) (hDesc : tb.desc t i = .table j) {n' : Nat}
    (hDiv : n' / 512 = n) :
    tb.slot (k + 1) n' = some (.sub j, n' % 512) := by
  subst hDiv
  unfold slot
  rw [RadixTable.slot_succ hSlot, hDesc]
  rfl

/- What is found below the base table is in a sub-table. -/
theorem slot_succ {k n i : Nat} {t : TableRef} (hSlot : tb.slot (k + 1) n = some (t, i)) :
    ∃ j t' i', tb.slot k (n / 512) = some (t', i') ∧
        tb.desc t' i' = .table j ∧ t = .sub j ∧ i = n % 512 := by
  rcases RadixTable.slot_succ_eq_some hSlot with ⟨t', i', hParent, hNext, hIndex⟩
  rcases subtable?_eq_some hNext with ⟨j, hDesc, hTable⟩
  exact ⟨j, t', i', hParent, hDesc, hTable, hIndex⟩

end Tables

namespace Reflects

variable {cfg : Config} {tb tb' : Tables}
variable {P P' : Nat → Nat → List MmapRegion}
variable {k n i j : Nat} {t : TableRef}

section

variable (hR : Reflects cfg tb P)
include hR

/- Walks end at the last level. -/
theorem level_le (hSlot : tb.slot k n = some (t, i)) :
    cfg.baseLevel + k ≤ 3 := by
  cases k with
  | zero =>
    have hBase := cfg.baseLevel_le
    omega
  | succ k =>
    rcases Tables.slot_succ hSlot with ⟨j, t', i', hParent, hDesc, _, _⟩
    have hTable := hR.describes hParent
    rw [hDesc] at hTable
    have hLt := hTable.1
    omega

/- A table is referred to once. -/
theorem same_entry (hSlot : tb.slot k n = some (t, i)) (hDesc : tb.desc t i = .table j)
    {k' n' i' : Nat} {t' : TableRef}
    (hSlot' : tb.slot k' n' = some (t', i')) (hDesc' : tb.desc t' i' = .table j) :
    k = k' ∧ n = n' := by
  apply hR.noSharing.same_child entries_pos hSlot hSlot' (c := .sub j)
  · rw [hDesc]
    rfl
  · rw [hDesc']
    rfl

/- The lists may change where they say the same. -/
theorem congr (hSame :
      ∀ {k n x}, tb.slot k n = some x → (meeting cfg (P k n) k n).Perm (meeting cfg (P' k n) k n)) :
    Reflects cfg tb P' where
  noSharing := hR.noSharing
  describes := fun hSlot => (hR.describes hSlot).congr (hSame hSlot)
  counted := fun hSlot hDesc => by
    have hCount := hR.counted hSlot hDesc
    rw [(hSame hSlot).length_eq] at hCount
    exact hCount
  vacant := hR.vacant

/-
  A table that some entry refers to is not vacant: it is
  counted for at least one region.
-/
theorem not_reached (hFree : Unclaimed cfg tb j) :
    ∀ k n i, tb.slot k n ≠ some (.sub j, i) := by
  intro k n i hSlot
  cases k with
  | zero =>
    rw [Tables.slot_zero] at hSlot
    cases hSlot
  | succ k =>
    rcases Tables.slot_succ hSlot with ⟨j', t', i', hParent, hDesc, hTable, _⟩
    cases hTable
    have hCount := (hR.counted hParent hDesc).2
    have hMeeting := hR.describes hParent
    rw [hDesc] at hMeeting
    have hPos := List.length_pos_of_ne_nil hMeeting.2
    unfold Counted at hCount
    unfold Unclaimed at hFree
    by_cases hDyn : cfg.platXlatTablesDynamic = true
    · rw [if_pos hDyn] at hCount hFree
      omega
    · rw [if_neg hDyn] at hCount hFree
      omega

----
-- Steps
----

/- Another entry is stored elsewhere. -/
theorem other_entry (hSlot : tb.slot k n = some (t, i)) {k' n' i' : Nat} {t' : TableRef}
    (hSlot' : tb.slot k' n' = some (t', i')) (hNe : ¬ (k' = k ∧ n' = n)) :
    ¬ (t' = t ∧ i' = i) := by
  rintro ⟨rfl, rfl⟩
  exact hNe (hR.noSharing _ _ _ _ _ hSlot' hSlot)

end

/- An unreached table does not hold a reached entry. -/
theorem other_table
    (hSlot : tb.slot k n = some (t, i)) (hNot : ∀ k n i, tb.slot k n ≠ some (.sub j, i))
    {i' : Nat} :
    ¬ (TableRef.sub j = t ∧ i' = i) := by
  rintro ⟨rfl, rfl⟩
  exact hNot k n _ hSlot

/- The first entry of the table that an entry refers to. -/
theorem reached_of_table (hSlot : tb.slot k n = some (t, i)) (hTable : tb.desc t i = .table j) :
    ∃ k' n' i', tb.slot k' n' = some (.sub j, i') := by
  have hDiv : n * 512 / 512 = n := Nat.mul_div_cancel n (by decide)
  exact ⟨_, _, _, Tables.slot_child hSlot hTable hDiv⟩

/- An entry that refers nowhere is overwritten by another. -/
theorem write (hR : Reflects cfg tb P) (hSlot : tb.slot k n = some (t, i))
    (hOld : (tb.desc t i).subtable? = none) {d : Desc}
    (hNew : d.subtable? = none) (hDesc : Describes cfg (P' k n) k n d)
    (hElse : ∀ k' n', ¬ (k' = k ∧ n' = n) → P' k' n' = P k' n') :
    Reflects cfg (tb.write t i d) P' := by
  have hSlots : ∀ k' n', (tb.write t i d).slot k' n' = tb.slot k' n' := by
    intro k' n'
    by_cases hUnder : RadixTable.StrictlyUnder xlatTableEntries k n k' n'
    · have hBefore : tb.slot k' n' = none := RadixTable.slot_under_eq_none hSlot hOld hUnder
      have hAfter : (tb.write t i d).slot k' n' = none :=
        RadixTable.slot_under_eq_none (RadixTable.slot_write_self hR.noSharing hSlot)
          (by rw [RadixTable.write_same]; exact hNew) hUnder
      rw [hBefore, hAfter]
    · exact RadixTable.slot_write_of_not_under hR.noSharing hSlot hUnder
  have hHereDesc : (tb.write t i d).desc t i = d := RadixTable.write_same _ _ _ _
  have hKeep :
      ∀ {k' n' t' i'}, tb.slot k' n' = some (t', i') →
        ¬ (k' = k ∧ n' = n) → (tb.write t i d).desc t' i' = tb.desc t' i' := by
    intro k' n' t' i' hSlot' hNe
    exact RadixTable.write_other _ _ (hR.other_entry hSlot hSlot' hNe)
  refine ⟨hR.noSharing.write hSlot hNew, ?_, ?_, ?_⟩
  · intro k' n' t' i' hSlot'
    rw [hSlots] at hSlot'
    by_cases hHere : k' = k ∧ n' = n
    · rcases hHere with ⟨rfl, rfl⟩
      rw [hSlot] at hSlot'
      cases hSlot'
      rw [hHereDesc]
      exact hDesc
    · rw [hKeep hSlot' hHere, hElse k' n' hHere]
      exact hR.describes hSlot'
  · intro k' n' t' i' j' hSlot' hTable
    rw [hSlots] at hSlot'
    by_cases hHere : k' = k ∧ n' = n
    · rcases hHere with ⟨rfl, rfl⟩
      rw [hSlot] at hSlot'
      cases hSlot'
      rw [hHereDesc] at hTable
      rw [hTable] at hNew
      cases hNew
    · rw [hKeep hSlot' hHere] at hTable
      rw [hElse k' n' hHere]
      exact hR.counted hSlot' hTable
  · intro j' hNot
    simp only [hSlots] at hNot
    have hVacant := hR.vacant hNot
    refine ⟨?_, hVacant.2⟩
    intro i' hLt
    rw [← hVacant.1 i' hLt]
    exact RadixTable.write_other _ _ (other_table hSlot hNot)

/- The count of one table changes with the list. -/
theorem recount (hR : Reflects cfg tb P) (hSlot : tb.slot k n = some (t, i))
    (hTable : tb.desc t i = .table j) (hSameDesc : tb'.desc = tb.desc)
    (hOthers : SameOthers cfg tb tb' j) (hDesc : Describes cfg (P' k n) k n (.table j))
    (hCount : Counted cfg tb' j (meeting cfg (P' k n) k n).length)
    (hElse : ∀ k' n', ¬ (k' = k ∧ n' = n) → P' k' n' = P k' n') :
    Reflects cfg tb' P' := by
  have hSlots : ∀ k' n', tb'.slot k' n' = tb.slot k' n' := by
    intro k' n'
    rw [Tables.slot, Tables.slot, hSameDesc]
  refine ⟨?_, ?_, ?_, ?_⟩
  · rw [hSameDesc]
    exact hR.noSharing
  · intro k' n' t' i' hSlot'
    rw [hSlots] at hSlot'
    rw [hSameDesc]
    by_cases hHere : k' = k ∧ n' = n
    · rcases hHere with ⟨rfl, rfl⟩
      rw [hSlot] at hSlot'
      cases hSlot'
      rw [hTable]
      exact hDesc
    · rw [hElse k' n' hHere]
      exact hR.describes hSlot'
  · intro k' n' t' i' j' hSlot' hTable'
    rw [hSlots] at hSlot'
    rw [hSameDesc] at hTable'
    by_cases hHere : k' = k ∧ n' = n
    · rcases hHere with ⟨rfl, rfl⟩
      rw [hSlot] at hSlot'
      cases hSlot'
      rw [hTable] at hTable'
      cases hTable'
      exact ⟨(hR.counted hSlot hTable).1, hCount⟩
    · have hNe : j' ≠ j := by
        rintro rfl
        exact hHere (hR.same_entry hSlot' hTable' hSlot hTable)
      have hBefore := hR.counted hSlot' hTable'
      rw [hElse k' n' hHere]
      exact ⟨hBefore.1, (hOthers j' hNe).1 _ hBefore.2⟩
  · intro j' hNot
    simp only [hSlots] at hNot
    have hVacant := hR.vacant hNot
    have hNe : j' ≠ j := by
      rintro rfl
      rcases reached_of_table hSlot hTable with ⟨k', n', i', hReach⟩
      exact hNot k' n' i' hReach
    refine ⟨?_, (hOthers j' hNe).2 hVacant.2⟩
    rw [hSameDesc]
    exact hVacant.1

/- A vacant table is linked below an entry. -/
theorem link (hR : Reflects cfg tb P) (hSlot : tb.slot k n = some (t, i))
    (hOld : (tb.desc t i).subtable? = none) (hFree : Unclaimed cfg tb j)
    (hBound : j < cfg.tablesNum) (hWrite : tb'.desc = RadixTable.write tb.desc t i (.table j))
    (hOthers : SameOthers cfg tb tb' j) (hDesc : Describes cfg (P' k n) k n (.table j))
    (hCount : Counted cfg tb' j (meeting cfg (P' k n) k n).length)
    (hInside : ∀ n', n' / 512 = n → meeting cfg (P' (k + 1) n') (k + 1) n' = [])
    (hElse : ∀ k' n', ¬ (k' = k ∧ n' = n) → P' k' n' = P k' n') :
    Reflects cfg tb' P' := by
  have hFresh := hR.not_reached hFree
  have hVacant := hR.vacant hFresh
  have hEmpty : ∀ i' < xlatTableEntries, (tb.desc (.sub j) i').subtable? = none := by
    intro i' hLt
    rw [hVacant.1 i' hLt]
    rfl
  have hHereDesc : tb'.desc t i = .table j := by rw [hWrite, RadixTable.write_same]
  have hRead : ∀ t' i', ¬ (t' = t ∧ i' = i) → tb'.desc t' i' = tb.desc t' i' := by
    intro t' i' hNe
    rw [hWrite]
    exact RadixTable.write_other _ _ hNe
  have hSlots :
      ∀ {k' n' x}, tb'.slot k' n' = some x →
        (tb.slot k' n' = some x ∧ ¬ RadixTable.StrictlyUnder xlatTableEntries k n k' n') ∨
        (k' = k + 1 ∧ n' / 512 = n ∧ x = (.sub j, n' % 512)) := by
    intro k' n' x hSlot'
    rw [Tables.slot, hWrite] at hSlot'
    exact RadixTable.slot_of_slot_link hR.noSharing hSlot rfl hFresh entries_pos hEmpty hSlot'
  have hMono : ∀ {k' n' x}, tb.slot k' n' = some x → tb'.slot k' n' = some x := by
    intro k' n' x hSlot'
    apply RadixTable.slot_mono _ hSlot'
    intro t' i' c hNext
    by_cases hHere : t' = t ∧ i' = i
    · rcases hHere with ⟨rfl, rfl⟩
      rw [hOld] at hNext
      cases hNext
    · rw [hRead t' i' hHere]
      exact hNext
  have hNewEntry : ∀ n', tb'.desc (.sub j) (n' % 512) = .invalid := by
    intro n'
    rw [hRead _ _ (other_table hSlot hFresh)]
    exact hVacant.1 _ (Nat.mod_lt _ (by decide))
  refine ⟨?_, ?_, ?_, ?_⟩
  · rw [hWrite]
    exact hR.noSharing.link hSlot rfl hFresh entries_pos hEmpty
  · intro k' n' t' i' hSlot'
    rcases hSlots hSlot' with ⟨hBefore, _⟩ | ⟨rfl, hDiv, hx⟩
    · by_cases hHere : k' = k ∧ n' = n
      · rcases hHere with ⟨rfl, rfl⟩
        rw [hSlot] at hBefore
        cases hBefore
        rw [hHereDesc]
        exact hDesc
      · rw [hRead _ _ (hR.other_entry hSlot hBefore hHere), hElse k' n' hHere]
        exact hR.describes hBefore
    · cases hx
      rw [hNewEntry]
      exact hInside n' hDiv
  · intro k' n' t' i' j' hSlot' hTable
    rcases hSlots hSlot' with ⟨hBefore, _⟩ | ⟨rfl, hDiv, hx⟩
    · by_cases hHere : k' = k ∧ n' = n
      · rcases hHere with ⟨rfl, rfl⟩
        rw [hSlot] at hBefore
        cases hBefore
        rw [hHereDesc] at hTable
        cases hTable
        exact ⟨hBound, hCount⟩
      · rw [hRead _ _ (hR.other_entry hSlot hBefore hHere)] at hTable
        have hNe : j' ≠ j := by
          rintro rfl
          rcases reached_of_table hBefore hTable with ⟨k₁, n₁, i₁, hReach⟩
          exact hFresh k₁ n₁ i₁ hReach
        have hOld' := hR.counted hBefore hTable
        rw [hElse k' n' hHere]
        exact ⟨hOld'.1, (hOthers j' hNe).1 _ hOld'.2⟩
    · cases hx
      rw [hNewEntry] at hTable
      cases hTable
  · intro j' hNot
    have hNotBefore : ∀ k n i, tb.slot k n ≠ some (.sub j', i) :=
      fun k' n' i' hSlot' => hNot k' n' i' (hMono hSlot')
    have hNe : j' ≠ j := by
      rintro rfl
      rcases reached_of_table (hMono hSlot) hHereDesc with ⟨k', n', i', hReach⟩
      exact hNot k' n' i' hReach
    have hBefore := hR.vacant hNotBefore
    refine ⟨?_, (hOthers j' hNe).2 hBefore.2⟩
    intro i' hLt
    rw [hRead _ _ (other_table hSlot hNotBefore)]
    exact hBefore.1 i' hLt

end Reflects

/- The empty list, before anything is mapped. -/
theorem reflects_nil (cfg : Config) {tb : Tables} (hDesc : ∀ t i, tb.desc t i = .invalid)
    (hCount : ∀ j, tb.mappedRegions j = 0) (hNext : tb.nextTable = 0) :
    Reflects cfg tb (fun _ _ => []) := by
  have hNone : ∀ k n, tb.slot (k + 1) n = none := by
    intro k n
    cases hSlot : tb.slot (k + 1) n with
    | none => rfl
    | some x =>
      rcases Tables.slot_succ hSlot with ⟨j, t', i', _, hTable, _⟩
      rw [hDesc] at hTable
      cases hTable
  refine ⟨?_, ?_, ?_, ?_⟩
  · intro k n k' n' x hSlot hSlot'
    cases k with
    | succ k =>
      have hAbsurd := hNone k n
      rw [Tables.slot, hSlot] at hAbsurd
      cases hAbsurd
    | zero =>
      cases k' with
      | succ k' =>
        have hAbsurd := hNone k' n'
        rw [Tables.slot, hSlot'] at hAbsurd
        cases hAbsurd
      | zero =>
        rw [← hSlot'] at hSlot
        refine ⟨rfl, ?_⟩
        simpa using hSlot
  · intro k n t i _
    rw [hDesc]
    rfl
  · intro k n t i j _ hTable
    rw [hDesc] at hTable
    cases hTable
  · intro j _
    refine ⟨fun i _ => hDesc _ _, ?_⟩
    unfold Unclaimed
    split
    · exact hCount j
    · omega

----
-- Looking Up
----

/- The smallest region that contains an address. -/
def Innermost (L : List MmapRegion) (q : MmapRegion)
    (va : Nat) : Prop :=
  q ∈ L ∧ q.Contains va ∧ ∀ q' ∈ L, q'.Contains va → q.Within q'

/-
  The walk of `find_xlat_table_entry` agrees with a list of
  regions.  The address in the descriptor is that of the
  block, to which the offset inside the block is added.
-/
structure WalkAgrees
    (cfg : Config) (tb : Tables) (L : List MmapRegion)
    (va : Nat) : Prop where
  returns : ∃ answer, findXlatTableEntry cfg tb va = .ok answer
  mapped_iff : (∃ place, findXlatTableEntry cfg tb va = .ok (some place)) ↔ ∃ q ∈ L, q.Contains va
  maps :
    ∀ table idx level, findXlatTableEntry cfg tb va = .ok (some (table, idx, level)) →
        ∃ word q, tb.desc table idx = .leaf word ∧ Innermost L q va ∧
          (word &&& tableAddrMask) + va % xlatBlockSize level = q.basePa + (va - q.baseVa) ∧
          xlatDesc cfg.xlatRegime q.attr (word &&& tableAddrMask) level = .ok word

theorem xlatTableIdx_eq (cfg : Config) (va k : Nat) :
    xlatTableIdx va (cfg.baseLevel + k) = va / cfg.blockSize k % 512 := by
  have hMask : 0x1FF = 2 ^ 9 - 1 := by decide
  rw [xlatTableIdx, Nat.shiftRight_eq_div_pow, ← xlatBlockSize_eq, hMask,
    Nat.and_two_pow_sub_one_eq_mod]
  rfl

theorem meets_of_contains {va : Nat} (hContains : q.Contains va) (k : Nat) :
    q.Meets cfg k (va / cfg.blockSize k) := by
  have hBlock := cfg.start_div_le k va
  rcases hContains with ⟨hLo, hHi⟩
  constructor <;> omega

theorem contains_of_covers {va k : Nat} (hCovers : q.Covers cfg k (va / cfg.blockSize k)) :
    q.Contains va := by
  have hBlock := cfg.start_div_le k va
  rcases hCovers with ⟨hLo, hHi⟩
  constructor <;> omega

namespace Reflects

variable {cfg : Config} {tb : Tables}
variable {L : List MmapRegion} {va : Nat}

/- Where the walk ends. -/
theorem findLoop
    (hR : Reflects cfg tb (fun _ _ => L)) (hValid : ∀ q ∈ L, q.Valid cfg) (left : Nat) :
    ∀ {k entries t}, cfg.baseLevel + k + left = 4 →
      tb.slot k (va / cfg.blockSize k) = some (t, xlatTableIdx va (cfg.baseLevel + k)) →
      xlatTableIdx va (cfg.baseLevel + k) < entries →
      ∃ k' t' i', tb.slot k' (va / cfg.blockSize k') = some (t', i') ∧ ((tb.desc t' i' = .invalid ∧
            findEntryLoop tb va left t entries (cfg.baseLevel + k) = .ok none) ∨
          (∃ word, tb.desc t' i' = .leaf word ∧
            findEntryLoop tb va left t entries (cfg.baseLevel + k) =
              .ok (some (t', i', cfg.baseLevel + k')))) := by
  induction left with
  | zero =>
    intro k entries t hLeft hSlot _
    have hLevel := hR.level_le hSlot
    omega
  | succ left ih =>
    intro k entries t hLeft hSlot hIdx
    have hDesc := hR.describes hSlot
    unfold findEntryLoop
    dsimp only
    rw [if_neg (Nat.not_le.mpr hIdx)]
    cases hRead : tb.desc t (xlatTableIdx va (cfg.baseLevel + k)) with
    | invalid =>
      refine ⟨k, t, _, hSlot, Or.inl ⟨hRead, ?_⟩⟩
      exact if_pos rfl
    | leaf word =>
      rw [hRead] at hDesc
      have hType := hDesc.leaf_type hValid
      refine ⟨k, t, _, hSlot, Or.inr ⟨word, hRead, ?_⟩⟩
      rw [hType]
      by_cases hLast : cfg.baseLevel + k = xlatTableLevelMax
      · rw [leafType_last hLast, if_neg (by decide), if_pos hLast, if_pos rfl]
      · rw [leafType_of_ne hLast, if_neg (by decide), if_neg hLast, if_pos rfl]
    | table j =>
      rw [hRead] at hDesc
      have hLevel := hDesc.1
      have hDiv := cfg.div_blockSize_succ hLevel va
      have hChild := Tables.slot_child hSlot hRead hDiv
      rw [← xlatTableIdx_eq] at hChild
      have hBound :
          xlatTableIdx va (cfg.baseLevel + (k + 1)) < xlatTableEntries := by
        rw [xlatTableIdx_eq]
        exact Nat.mod_lt _ (by decide)
      rcases ih (by omega) hChild hBound with ⟨k', t', i', hSlot', hEnd⟩
      refine ⟨k', t', i', hSlot', ?_⟩
      have hNotLast : ¬ cfg.baseLevel + k = xlatTableLevelMax := by
        unfold xlatTableLevelMax
        omega
      have hTableType : (Desc.table j).type = tableDesc := rfl
      have hNext : (Desc.table j).subtable? = some (.sub j) := rfl
      rw [hTableType, if_neg (by decide), if_neg hNotLast, if_neg (by decide), hNext]
      exact hEnd

/- The walk finds what the regions say. -/
theorem find (hR : Reflects cfg tb (fun _ _ => L))
    (hValid : ∀ q ∈ L, q.Valid cfg) (hVa : va < cfg.virtAddrSpaceSize) :
    WalkAgrees cfg tb L va := by
  have hEntries := cfg.baseTableEntries_spec
  have hBlock := cfg.blockSize_pos 0
  have hNum : va / cfg.blockSize 0 < cfg.baseTableEntries := by
    rw [Nat.div_lt_iff_lt_mul hBlock]
    have hStart := hEntries.2
    unfold Config.start at hStart
    omega
  have hIdx : xlatTableIdx va (cfg.baseLevel + 0) = va / cfg.blockSize 0 := by
    rw [xlatTableIdx_eq]
    exact Nat.mod_eq_of_lt (by omega)
  have hLevels : cfg.baseLevel + 0 + cfg.levels = 4 := by
    have hBase := cfg.baseLevel_le
    unfold Config.levels xlatTableLevelMax
    omega
  have hRoot :
      tb.slot 0 (va / cfg.blockSize 0) = some (.base, xlatTableIdx va (cfg.baseLevel + 0)) := by
    rw [hIdx]
    rfl
  rcases hR.findLoop hValid cfg.levels hLevels hRoot (by rw [hIdx]; exact hNum) with
    ⟨k, t, i, hSlot, ⟨hRead, hFind⟩ | ⟨word, hRead, hFind⟩⟩
  · have hNone : findXlatTableEntry cfg tb va = .ok none := hFind
    have hDesc := hR.describes hSlot
    rw [hRead] at hDesc
    refine ⟨⟨_, hNone⟩, ?_, ?_⟩
    · rw [hNone]
      constructor
      · rintro ⟨place, hSome⟩
        cases hSome
      · rintro ⟨q, hMem, hContains⟩
        have hMeeting : q ∈ meeting cfg L k _ :=
          mem_meeting.mpr ⟨hMem, meets_of_contains hContains k⟩
        rw [hDesc] at hMeeting
        cases hMeeting
    · intro table idx level hSome
      rw [hNone] at hSome
      cases hSome
  · have hSome : findXlatTableEntry cfg tb va = .ok (some (t, i, cfg.baseLevel + k)) := hFind
    have hDesc := hR.describes hSlot
    rw [hRead] at hDesc
    rcases hDesc with ⟨q, hMem, hCovers, hInner, hWord⟩
    have hContains := contains_of_covers hCovers
    have hq := hValid q (mem_meeting.mp hMem).1
    have hInnermost : Innermost L q va := by
      refine ⟨(mem_meeting.mp hMem).1, hContains, ?_⟩
      intro q' hMem' hContains'
      exact hInner q' (mem_meeting.mpr ⟨hMem', meets_of_contains hContains' k⟩)
    have hAddr := (hq.carries hCovers hWord).2
    refine ⟨⟨_, hSome⟩, ?_, ?_⟩
    · rw [hSome]
      constructor
      · intro _
        exact ⟨q, hInnermost.1, hContains⟩
      · intro _
        exact ⟨_, rfl⟩
    · intro table idx level hPlace
      rw [hSome] at hPlace
      cases hPlace
      refine ⟨word, q, hRead, hInnermost, ?_, ?_⟩
      · rw [hAddr, hq.paOf_eq ⟨hCovers.1, ?_⟩]
        · have hMod := Nat.div_add_mod va (cfg.blockSize k)
          rw [Nat.mul_comm] at hMod
          have hLo := hCovers.1
          unfold Config.start at hLo ⊢
          unfold Config.blockSize at hMod hLo ⊢
          omega
        · have hPos := cfg.blockSize_pos k
          have hHi := hCovers.2
          omega
      · rw [hAddr]
        exact hWord

end Reflects

----
-- Equal Tables
----

/- Only invalid entries are overwritten. -/
def Extends (tb tb' : Tables) : Prop :=
  ∀ t i, tb.desc t i ≠ .invalid → tb'.desc t i = tb.desc t i

theorem Extends.refl (tb : Tables) :
    Extends tb tb :=
  fun _ _ _ => rfl

theorem Extends.trans
    {tb tb' tb'' : Tables} (hFirst : Extends tb tb') (hSecond : Extends tb' tb'') :
    Extends tb tb'' := by
  intro t i hUsed
  have hStep := hFirst t i hUsed
  rw [hSecond t i (by rw [hStep]; exact hUsed), hStep]

theorem Extends.slot
    {tb tb' : Tables} (hExt : Extends tb tb') {x : TableRef × Nat} (hSlot : tb.slot k n = some x) :
    tb'.slot k n = some x := by
  apply RadixTable.slot_mono _ hSlot
  intro t i c hNext
  rcases subtable?_eq_some hNext with ⟨j, hTable, _⟩
  rw [hExt t i (by rw [hTable]; intro h; cases h)]
  exact hNext

theorem Describes.invalid_iff (hDesc : Describes cfg L k n d) :
    d = .invalid ↔ meeting cfg L k n = [] := by
  cases d with
  | invalid => exact ⟨fun _ => hDesc, fun _ => rfl⟩
  | leaf word =>
    rcases hDesc with ⟨q, hMem, _⟩
    constructor
    · intro hAbsurd
      cases hAbsurd
    · intro hNil
      rw [hNil] at hMem
      cases hMem
  | table j =>
    constructor
    · intro hAbsurd
      cases hAbsurd
    · intro hNil
      exact absurd hNil hDesc.2

namespace Reflects

variable {cfg : Config} {tb tb' : Tables}
variable {L : List MmapRegion}

end Reflects

end Tfa.Xlat
