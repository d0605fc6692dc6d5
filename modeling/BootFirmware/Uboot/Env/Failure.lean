import BootFirmware.Uboot.Env.Probing
import Mathlib.Data.Finset.Card
import Mathlib.Data.Finset.Range

/-
  A call of ENTER that fails.

  What `change_ok` or a callback refuses is taken back: a new
  entry is deleted again, which no search notices.  A copy
  that cannot be allocated is not: the old value is freed
  before the new one is copied, and a new slot is in use
  before its strings are.

  Key definitions include:
    * `Table.find` and `Table.liveCount`
    * `Unchanged`
    * `Restores`

  The main result is `hsearch_failure_unchanged`.
-/

----
-- What Is Observed
----

namespace Uboot.Env.Alloc

def Cell.data : Cell → Option CString
  | .live _ entry => entry.data
  | _ => none

def Cell.isLive : Cell → Bool
  | .live _ _ => true
  | _ => false

/-
  What FIND says of a key, unless it has no result: that it
  is absent, or its data.  It copies nothing and asks no one.
-/
def Table.find (signed : Bool) (t : Table) (key : CString) :
    Option (Option (Option CString)) :=
  (hsearchR signed ⟨key, none⟩ .find t
    ⟨false, false, false, false⟩).map fun r => r.retval.map fun idx => (r.htab.table idx).data

def Table.liveCount (t : Table) : Nat :=
  ((Finset.range (t.size + 1)).filter fun i => (t.table i).isLive).card

/- The map that FIND observes, and the two counts. -/
structure Unchanged
    (signed : Bool)
    (t t' : Table) : Prop where
  find : ∀ key, t'.find signed key = t.find signed key
  liveCount : t'.liveCount = t.liveCount
  filled : t'.filled = t.filled

/-
  The condition under which a failure is taken back.  The
  value of a key is copied unless the change is refused; and
  for a new key in a table that is not full both copies are
  allocated, and its slot is not one of another entry, nor
  slot 0.
-/
structure Restores
    (signed : Bool) (t : Table) (item : Item)
    (outcome : Outcome) : Prop where
  overwrites : ∀ data, t.find signed item.key = some (some (some data)) →
      outcome.changeOk = true ∨ outcome.callback = true ∨ outcome.strdupData = true
  creates :
    t.find signed item.key = some none → t.filled ≠ t.size → outcome.strdupKey = true ∧
      outcome.strdupData = true ∧ ((t.table (firstIdx signed item.key t.size)).isLive = false ∨
        (t.size ≠ 1 ∧ ∃ i, 1 ≤ i ∧ i ≤ t.size ∧ t.table i = .free))

variable {signed : Bool} {t : Table} {key : CString}

variable {idx : Nat}

theorem find_of_found (hProbe : probe signed key t = some (.found idx)) :
    t.find signed key = some (some (t.table idx).data) := by
  unfold Table.find
  cases hRun : hsearchR signed ⟨key, none⟩ .find t ⟨false, false, false, false⟩ with
  | none =>
    unfold hsearchR at hRun
    rw [hProbe] at hRun
    cases hRun
  | some r =>
    rcases hsearchR_find hRun with ⟨idx', hProbe', rfl⟩ | ⟨idx', hProbe', rfl⟩
    · cases hProbe.symm.trans hProbe'
      rfl
    · cases hProbe.symm.trans hProbe'

theorem find_of_empty (hProbe : probe signed key t = some (.empty idx)) :
    t.find signed key = some none := by
  unfold Table.find hsearchR
  rw [hProbe]
  rfl

theorem find_of_none (hProbe : probe signed key t = none) :
    t.find signed key = none := by
  unfold Table.find hsearchR
  rw [hProbe]
  rfl

----
-- A Change Of One Slot
----

theorem set_table_self (t : Table) (idx : Nat) :
    t.set idx (t.table idx) = t := by
  unfold Table.set
  rw [Function.update_eq_self]

theorem passed_set_of_ne {j idx : Nat} {cell : Cell} (hNe : tried signed t.size key j ≠ idx) :
    Passed signed (t.set idx cell) key j ↔ Passed signed t key j := by
  unfold Passed
  rw [set_size, set_of_ne t cell hNe]

theorem answer_set_of_ne {j idx : Nat} {cell : Cell} (hNe : tried signed t.size key j ≠ idx) :
    answer signed (t.set idx cell) key j = answer signed t key j := by
  unfold answer
  rw [set_size, set_of_ne t cell hNe]

/-
  A search stops at a slot to which it comes, if the slot has
  changed so that it is not passed.
-/
theorem probe_set_at (hSize : TableSize t.size) {j : Nat}
    (hj : InPath t.size j) (hBefore : ∀ j', j' < j → Passed signed t key j') {cell : Cell}
    (hStop : cell.hasKey (firstIdx signed key t.size) key ≠ some false) :
    probe signed key (t.set (tried signed t.size key j) cell) =
      (cell.hasKey (firstIdx signed key t.size) key).map
        fun same =>
          if same then .found (tried signed t.size key j)
          else .empty (tried signed t.size key j) := by
  have hAnswer := @probe_of_stop signed (t.set (tried signed t.size key j) cell) key hSize j hj
  unfold answer at hAnswer
  rw [set_size, set_self] at hAnswer
  refine hAnswer ?_ ?_
  · intro i hi
    refine (passed_set_of_ne ?_).mpr (hBefore i hi)
    intro hEq
    have hIn : InPath t.size i := by
      unfold InPath at hj ⊢
      omega
    have hSame := tried_inj hSize key hIn hj hEq
    omega
  · intro hPassed
    have hKey := hPassed.2
    rw [set_size, set_self] at hKey
    exact hStop hKey

theorem liveCount_set_of_eq {cell : Cell} (hEq : cell.isLive = (t.table idx).isLive) :
    (t.set idx cell).liveCount = t.liveCount := by
  refine congrArg Finset.card (Finset.filter_congr fun i _ => ?_)
  by_cases hi : i = idx
  · rw [hi, set_self, hEq]
  · rw [set_of_ne t cell hi]

theorem liveCount_set_lt {cell : Cell}
    (hLe : idx ≤ t.size) (hLive : (t.table idx).isLive = true) (hNot : cell.isLive = false) :
    (t.set idx cell).liveCount < t.liveCount := by
  refine Finset.card_lt_card (Finset.ssubset_iff_subset_ne.mpr ⟨?_, ?_⟩)
  · intro i hi
    rw [Finset.mem_filter] at hi ⊢
    refine ⟨hi.1, ?_⟩
    by_cases hEq : i = idx
    · rw [hEq]
      exact hLive
    · have hOld := hi.2
      rw [set_of_ne t cell hEq] at hOld
      exact hOld
  · intro hSame
    have hIn : idx ∈ (Finset.range (t.size + 1)).filter fun i => (t.table i).isLive :=
      Finset.mem_filter.mpr ⟨Finset.mem_range.mpr (by omega), hLive⟩
    rw [← hSame, Finset.mem_filter, set_self, hNot] at hIn
    cases hIn.2

----
-- A Free Slot That Is Deleted
----

theorem find_congr {t' : Table} (hProbe : probe signed key t' = probe signed key t)
    (hData : ∀ idx, probe signed key t = some (.found idx) →
      (t'.table idx).data = (t.table idx).data) :
    t'.find signed key = t.find signed key := by
  cases hRun : probe signed key t with
  | none => rw [find_of_none hRun, find_of_none (hProbe.trans hRun)]
  | some result =>
    cases result with
    | found idx => rw [find_of_found hRun, find_of_found (hProbe.trans hRun), hData idx hRun]
    | empty idx => rw [find_of_empty hRun, find_of_empty (hProbe.trans hRun)]

/- No entry for the hash value lies behind a free slot. -/
theorem Laid.hasKey_behind (hLaid : Laid signed t) {j j' : Nat}
    (hFree : t.table (tried signed t.size key j) = .free) (hj' : InPath t.size j') (hLe : j ≤ j') :
    (t.table (tried signed t.size key j')).hasKey
      (firstIdx signed key t.size) key = some false := by
  by_contra hKey
  rcases live_of_hasKey hKey with ⟨entry, hAt⟩
  rcases hLaid.live _ _ _ hAt with ⟨key', i, hFirst, hi, hEq, hBefore⟩
  have hSame := tried_congr hFirst
  rw [← hSame i] at hEq
  have hij := tried_inj hLaid.size key hi hj' hEq
  rcases Nat.lt_or_eq_of_le hLe with hLt | rfl
  · refine hBefore j (by omega) ?_
    rw [← hSame j]
    exact hFree
  · rw [hFree] at hAt
    cases hAt

/- A search that ended at a free slot ends behind it. -/
theorem Laid.find_behind (hLaid : Laid signed t) {j : Nat}
    (hj : InPath t.size j) (hBefore : ∀ j', j' < j → Passed signed t key j')
    (hFree : t.table (tried signed t.size key j) = .free) (hPos : tried signed t.size key j ≠ 0) :
    (t.set (tried signed t.size key j) .deleted).find signed key = some none := by
  have hNone : ∀ i, InPath t.size i → ((t.set (tried signed t.size key j) .deleted).table
        (tried signed t.size key i)).hasKey (firstIdx signed key t.size) key = some false := by
    intro i hi
    by_cases hEq : tried signed t.size key i = tried signed t.size key j
    · rw [hEq, set_self]
      rfl
    · rw [set_of_ne _ _ hEq]
      rcases Nat.lt_or_ge i j with hLt | hGe
      · exact (hBefore i hLt).2
      · exact hLaid.hasKey_behind hFree hi hGe
  have hComes := probe_comes signed (t := t.set (tried signed t.size key j) .deleted)
    hLaid.size key
  generalize hRun : probe signed key (t.set (tried signed t.size key j) .deleted) = result at hComes
  cases hComes with
  | stop i hi _ _ =>
    unfold answer at hRun
    rw [set_size] at hi hRun
    rw [hNone i hi] at hRun
    exact find_of_empty hRun
  | round => exact find_of_empty hRun
  | outside hOne _ hSecond =>
    rw [set_size] at hOne
    have hTried : tried signed t.size key 0 = 1 ∧ tried signed t.size key 1 = 0 := by
      rw [hOne]
      exact tried_one key
    have hZero := hSecond.1
    rw [set_size, hTried.2, set_of_ne _ _ hPos.symm] at hZero
    have hUsed := (hLaid.zero hZero).2
    rcases hj with hj | ⟨-, rfl⟩
    · rw [show j = 0 by omega, hTried.1] at hFree
      exact absurd hFree hUsed
    · exact absurd hTried.2 hPos

/- No search notices that a free slot has been deleted. -/
theorem Laid.find_set_deleted
    (hLaid : Laid signed t) (hFree : t.table idx = .free) (hPos : idx ≠ 0) (key : CString) :
    (t.set idx .deleted).find signed key = t.find signed key := by
  have hNe : ∀ j, Passed signed t key j → tried signed t.size key j ≠ idx := by
    intro j hPassed hEq
    exact hPassed.1 (hEq ▸ hFree)
  have hStill : ∀ j, Passed signed t key j → Passed signed (t.set idx .deleted) key j :=
    fun j hPassed => (passed_set_of_ne (hNe j hPassed)).mpr hPassed
  have hComes := probe_comes signed hLaid.size key
  generalize hRun : probe signed key t = result at hComes
  cases hComes with
  | stop j hj hBefore hStop =>
    by_cases hAt : tried signed t.size key j = idx
    · subst hAt
      rw [answer_of_free hFree] at hRun
      rw [find_of_empty hRun]
      exact hLaid.find_behind hj hBefore hFree hPos
    · refine find_congr ?_ ?_
      · rw [hRun, ← answer_set_of_ne hAt]
        refine @probe_of_stop signed (t.set idx .deleted) key hLaid.size j hj
          (fun i hi => hStill i (hBefore i hi)) ?_
        intro hPassed
        exact hStop ((passed_set_of_ne hAt).mp hPassed)
      · intro i hFound
        have hNot : i ≠ idx := by
          rintro rfl
          rcases found_at hLaid.size hFound with ⟨-, data, -, -, -, hLive⟩
          rw [hFree] at hLive
          cases hLive
        rw [set_of_ne _ _ hNot]
  | round hFive hAll =>
    have hRun' := @probe_of_round signed (t.set idx .deleted)
      key hLaid.size hFive (fun j hj => hStill j (hAll j hj))
    rw [find_of_empty hRun, find_of_empty hRun']
  | outside hOne hFirst hSecond =>
    have hRun' := @probe_of_one signed (t.set idx .deleted)
      key hOne (hStill 0 hFirst) (hStill 1 hSecond)
    rw [find_of_none hRun, find_of_none hRun']

----
-- A Call That Fails
----

variable {item : Item} {outcome : Outcome} {t' : Table}

theorem unchanged_refl (t : Table) : Unchanged signed t t :=
  ⟨fun _ => rfl, rfl, rfl⟩

/- A new value is refused, or its copy is not allocated. -/
theorem overwriteEntry_fails
    {idx used : Nat} {entry : Copied} (hAt : t.table idx = .live used entry)
    (hFail : overwriteEntry item .enter t outcome idx = ⟨0, none, t'⟩) :
    (t' = t ∧ (outcome.changeOk = true ∨ outcome.callback = true)) ∨
    (t' = t.set idx (.live used { entry with data := none }) ∧ outcome.changeOk = false ∧
      outcome.callback = false ∧ outcome.strdupData = false) := by
  unfold overwriteEntry at hFail
  rw [hAt] at hFail
  cases hData : item.data with
  | none =>
    rw [hData] at hFail
    exact absurd (congrArg Searched.retval hFail) nofun
  | some data =>
    rw [hData] at hFail
    dsimp only at hFail
    by_cases hChange : outcome.changeOk = true
    · rw [if_pos hChange] at hFail
      cases hFail
      exact Or.inl ⟨rfl, Or.inl hChange⟩
    rw [if_neg hChange] at hFail
    by_cases hCallback : outcome.callback = true
    · rw [if_pos hCallback] at hFail
      cases hFail
      exact Or.inl ⟨rfl, Or.inr hCallback⟩
    rw [if_neg hCallback] at hFail
    unfold strdup at hFail
    by_cases hCopy : outcome.strdupData = true
    · rw [if_pos hCopy, if_neg (Option.some_ne_none _)] at hFail
      exact absurd (congrArg Searched.retval hFail) nofun
    · rw [if_neg hCopy, if_pos rfl] at hFail
      cases hFail
      exact Or.inr ⟨rfl, Bool.eq_false_iff.mpr hChange, Bool.eq_false_iff.mpr hCallback,
        Bool.eq_false_iff.mpr hCopy⟩

/- The value of a key that is there. -/
theorem Laid.unchanged_found
    (hLaid : Laid signed t) (hProbe : probe signed item.key t = some (.found idx))
    (hFail : Alloc.overwriteEntry item .enter t outcome idx = ⟨0, none, t'⟩) :
    Unchanged signed t t' ↔ Restores signed t item outcome := by
  rcases found_at hLaid.size hProbe with ⟨j, old, hj, hIdx, hBefore, hAt⟩
  have hFind : t.find signed item.key = some (some old) := by
    rw [find_of_found hProbe, hAt]
    rfl
  rcases overwriteEntry_fails hAt hFail with ⟨rfl, hRefused⟩ | ⟨rfl, hChange, hCallback, hCopy⟩
  · refine Iff.intro (fun _ => ⟨?_, ?_⟩) (fun _ => unchanged_refl _)
    · intro data _
      rcases hRefused with hChange | hCallback
      · exact Or.inl hChange
      · exact Or.inr (Or.inl hCallback)
    · intro hNone
      rw [hFind] at hNone
      cases hNone
  cases old with
  | none =>
    have hSame : t.set idx (.live (firstIdx signed item.key t.size) ⟨some item.key, none⟩) = t := by
      rw [← hAt]
      exact set_table_self t idx
    rw [hSame]
    refine Iff.intro (fun _ => ⟨?_, ?_⟩) (fun _ => unchanged_refl t)
    · intro data hData
      rw [hFind] at hData
      cases hData
    · intro hNone
      rw [hFind] at hNone
      cases hNone
  | some data =>
    constructor
    -- FIND now returns NULL.
    · intro hUnchanged
      exfalso
      have hKey :
          (Cell.live (firstIdx signed item.key t.size)
            ⟨some item.key, none⟩).hasKey (firstIdx signed item.key t.size) item.key =
            some true := by
        unfold Cell.hasKey
        simp
      have hProbe' := @probe_set_at signed t item.key
        hLaid.size j hj hBefore (.live (firstIdx signed item.key t.size) ⟨some item.key, none⟩)
        (by rw [hKey]; exact nofun)
      rw [hKey, hIdx] at hProbe'
      have hFind' := find_of_found hProbe'
      rw [set_self] at hFind'
      have hSame := hUnchanged.find item.key
      rw [hFind', hFind] at hSame
      cases hSame
    · intro hRestores
      exfalso
      rcases hRestores.overwrites data hFind with
        h | h | h
      · exact Bool.false_ne_true (hChange.symm.trans h)
      · exact Bool.false_ne_true (hCallback.symm.trans h)
      · exact Bool.false_ne_true (hCopy.symm.trans h)

/- The count of an entry that is entered and deleted. -/
theorem u32_succ_pred {n : Nat} (hLt : n < 2 ^ 32) :
    u32 (u32 (n + 1) + 2 ^ 32 - 1) = n := by
  unfold u32
  omega

/-
  A new entry stays with NULL in it, or is deleted again.
-/
theorem createEntry_fails {hval idx : Nat} (hFilled : t.filled < 2 ^ 32)
    (hFail : createEntry item t outcome hval idx = some ⟨0, none, t'⟩) :
    (∃ entry, t' = t.set idx (.live hval entry) ∧
      (entry.key = none ∨ entry.key = some item.key ∧ entry.data = none) ∧
      ¬ (outcome.strdupKey = true ∧ outcome.strdupData = true)) ∨
    (t' = t.set idx .deleted ∧ outcome.strdupKey = true ∧ outcome.strdupData = true) := by
  unfold createEntry at hFail
  cases hData : item.data with
  | none =>
    rw [hData] at hFail
    cases hFail
  | some data =>
    rw [hData] at hFail
    dsimp only at hFail
    have hBuried :
        ({ t.set idx (.live hval ⟨some item.key, some data⟩)
          with filled := u32 (t.filled + 1) } : Table).hdelete idx = t.set idx .deleted := by
      unfold Table.hdelete Table.set
      rw [Function.update_idem, u32_succ_pred hFilled]
    unfold strdup at hFail
    cases hKey : outcome.strdupKey with
    | false =>
      rw [hKey, if_neg Bool.false_ne_true, if_pos (Or.inl rfl)] at hFail
      cases hFail
      exact Or.inl ⟨_, rfl, Or.inl rfl, nofun⟩
    | true =>
      rw [hKey, if_pos rfl] at hFail
      cases hCopy : outcome.strdupData with
      | false =>
        rw [hCopy, if_neg Bool.false_ne_true, if_pos (Or.inr rfl)] at hFail
        cases hFail
        exact Or.inl ⟨_, rfl, Or.inr ⟨rfl, rfl⟩, nofun⟩
      | true =>
        rw [hCopy, if_pos rfl, if_neg (by simp)] at hFail
        split at hFail
        · cases hFail
          exact Or.inr ⟨hBuried, rfl, rfl⟩
        split at hFail
        · cases hFail
          exact Or.inr ⟨hBuried, rfl, rfl⟩
        · cases hFail

/- What stays of a new entry is found by its key. -/
theorem Laid.find_put (hLaid : Laid signed t) {j : Nat}
    (hj : InPath t.size j) (hBefore : ∀ j', j' < j → Passed signed t key j') {entry : Copied}
    (hNull : entry.key = none ∨ entry.key = some key ∧ entry.data = none) :
    (t.set (tried signed t.size key j)
      (.live (firstIdx signed key t.size) entry)).find signed key ≠ some none := by
  have hKey :
      (Cell.live (firstIdx signed key t.size) entry).hasKey (firstIdx signed key t.size) key =
      entry.key.map fun k => key == k := by
    exact if_pos rfl
  rcases hNull with hNone | ⟨hSome, -⟩
  · rw [hNone] at hKey
    have hProbe := @probe_set_at signed t key hLaid.size j hj
      hBefore (.live (firstIdx signed key t.size) entry)
      (by rw [hKey]; exact nofun)
    rw [hKey] at hProbe
    rw [find_of_none hProbe]
    exact nofun
  · rw [hSome, Option.map_some, beq_self_eq_true] at hKey
    have hProbe := @probe_set_at signed t key hLaid.size j hj
      hBefore (.live (firstIdx signed key t.size) entry)
      (by rw [hKey]; exact nofun)
    rw [hKey] at hProbe
    rw [find_of_found hProbe]
    exact nofun

/- Where no entry lies, a slot may be deleted. -/
theorem Laid.unchanged_set_deleted
    (hLaid : Laid signed t) (hNotLive : (t.table idx).isLive = false) (hPos : idx ≠ 0) :
    Unchanged signed t (t.set idx .deleted) := by
  cases hAt : t.table idx with
  | free => exact ⟨hLaid.find_set_deleted hAt hPos, liveCount_set_of_eq (by rw [hAt]; rfl), rfl⟩
  | deleted =>
    rw [← hAt, set_table_self]
    exact unchanged_refl t
  | live used entry =>
    rw [hAt] at hNotLive
    cases hNotLive

/- In a table of one slot that is in use, slot 0 is lost. -/
theorem find_set_zero (hOne : t.size = 1) (hFirst : Passed signed t key 0) :
    (t.set 0 .deleted).find signed key = none := by
  have hTried : tried signed t.size key 0 = 1 ∧ tried signed t.size key 1 = 0 := by
    rw [hOne]
    exact tried_one key
  refine find_of_none (@probe_of_one signed (t.set 0 .deleted) key hOne ?_ ?_)
  · refine (passed_set_of_ne ?_).mpr hFirst
    rw [hTried.1]
    exact Nat.one_ne_zero
  · unfold Passed
    rw [set_size, hTried.2, set_self]
    exact ⟨nofun, rfl⟩

/-
  A new entry that is refused leaves the table as it was
  where the first slot has no entry, or where a free slot is
  found.
-/
theorem Laid.unchanged_refused
    (hLaid : Laid signed t) (hProbe : probe signed key t = some (.empty idx)) :
    Unchanged signed t (t.set (t.takes (firstIdx signed key t.size) idx) .deleted) ↔
      (t.table (firstIdx signed key t.size)).isLive = false ∨
        (t.size ≠ 1 ∧ ∃ i, 1 ≤ i ∧ i ≤ t.size ∧ t.table i = .free) := by
  have hMem := firstIdx_mem signed hLaid.size key
  rcases empty_at hLaid.size hProbe with ⟨j, hj, hIdx, hBefore, hWhere⟩
  by_cases hFirst : (t.table (firstIdx signed key t.size)).isLive = false
  · have hTakes : t.takes (firstIdx signed key t.size) idx = firstIdx signed key t.size := by
      unfold Table.takes
      split
      · rfl
      rename_i hNotDeleted
      have hFree : t.table (firstIdx signed key t.size) = .free := by
        cases hAt : t.table (firstIdx signed key t.size) with
        | free => rfl
        | deleted => exact absurd hAt hNotDeleted
        | live used entry =>
          rw [hAt] at hFirst
          cases hFirst
      have hZero : j = 0 := by
        by_contra hNe
        exact (hBefore 0 (by omega)).1 hFree
      rw [← hIdx, hZero]
      rfl
    rw [hTakes]
    exact Iff.intro (fun _ => Or.inl hFirst) fun _ => hLaid.unchanged_set_deleted hFirst (by omega)
  rw [Bool.not_eq_false] at hFirst
  have hTakes : t.takes (firstIdx signed key t.size) idx = idx := by
    unfold Table.takes
    rw [if_neg]
    intro hDeleted
    rw [hDeleted] at hFirst
    cases hFirst
  rw [hTakes]
  rcases hWhere with hFree | ⟨rfl, hFive, hAll⟩
  · by_cases hOne : t.size = 1
    -- The slot behind slot 1 is slot 0.
    · have hTried : tried signed t.size key 0 = 1 ∧ tried signed t.size key 1 = 0 := by
        rw [hOne]
        exact tried_one key
      have hSecond : j = 1 := by
        rcases hj with hj | ⟨-, hj⟩
        · have hZero : j = 0 := by omega
          rw [hZero] at hIdx
          rw [← hIdx] at hFree
          rw [show firstIdx signed key t.size = tried signed t.size key 0 from rfl, hFree] at hFirst
          cases hFirst
        · exact hj
      have hLost := find_set_zero hOne (hBefore 0 (by omega))
      rw [hSecond, hTried.2] at hIdx
      rw [← hIdx]
      constructor
      · intro hUnchanged
        have hSame := hUnchanged.find key
        rw [hLost, find_of_empty hProbe] at hSame
        cases hSame
      · rintro (hNot | ⟨hNe, -⟩)
        · rw [hNot] at hFirst
          cases hFirst
        · exact absurd hOne hNe
    · have hFive : 5 ≤ t.size := by
        rcases hLaid.size.one_or_prime with hOne' | ⟨-, hFive⟩
        · exact absurd hOne' hOne
        · exact hFive
      have hIn := @tried_mem signed _ hLaid.size hFive key j
      rw [hIdx] at hIn
      refine Iff.intro (fun _ => Or.inr ⟨hOne, idx, hIn.1, hIn.2, hFree⟩)
        fun _ => hLaid.unchanged_set_deleted ?_ (by omega)
      rw [hFree]
      rfl
  -- The first slot is taken although it has an entry.
  · have hSame : firstIdx signed key t.size = idx := hIdx
    rw [hSame] at hFirst hMem
    have hLess := liveCount_set_lt hMem.2 hFirst (show Cell.isLive .deleted = false from rfl)
    constructor
    · intro hUnchanged
      exact absurd hUnchanged.liveCount (Nat.ne_of_lt hLess)
    · rintro (hNot | ⟨-, i, hLow, hHigh, hFree⟩)
      · rw [hSame, hFirst] at hNot
        cases hNot
      · rcases @exists_tried_eq signed _ hLaid.size hFive key
          _ ⟨hLow, hHigh⟩ with ⟨i', hi', hEq⟩
        exact absurd (hEq ▸ hFree) (hAll i' hi').1

theorem Laid.unchanged_empty
    (hLaid : Laid signed t) (hProbe : probe signed item.key t = some (.empty idx))
    (hRoom : t.filled ≠ t.size)
    (hFail :
      Alloc.createEntry item t outcome (firstIdx signed item.key t.size)
        (t.takes (firstIdx signed item.key t.size) idx) = some ⟨0, none, t'⟩) :
    Unchanged signed t t' ↔ Restores signed t item outcome := by
  have hFind := find_of_empty hProbe
  rcases createEntry_fails hLaid.filled hFail with ⟨entry, rfl, hNull, hCopies⟩ | ⟨rfl, hKey, hData⟩
  · rcases takes_at hLaid.size hProbe with ⟨j, hj, hAt, hBefore, -⟩
    constructor
    · intro hUnchanged
      have hSame := hUnchanged.find item.key
      rw [← hAt, hFind] at hSame
      exact absurd hSame (hLaid.find_put hj hBefore hNull)
    · intro hRestores
      have hBoth := hRestores.creates hFind hRoom
      exact absurd ⟨hBoth.1, hBoth.2.1⟩ hCopies
  · rw [hLaid.unchanged_refused hProbe]
    constructor
    · intro hSlot
      refine ⟨?_, fun _ _ => ⟨hKey, hData, hSlot⟩⟩
      intro data hSome
      rw [hFind] at hSome
      cases hSome
    · intro hRestores
      exact (hRestores.creates hFind hRoom).2.2

/-
  In every table that calls leave, a call of ENTER that fails
  leaves the map and the counts unchanged if and only if it
  meets the condition.
-/
theorem hsearch_failure_unchanged
    (signed : Bool) {nel : Nat} {htab : HsearchData} (hCreate : hcreateR nel = some htab)
    {t t' : Table} (hReach : (callSystem signed htab).Reachable t) {item : Item} {outcome : Outcome}
    (hFail : hsearchR signed item .enter t outcome = some ⟨0, none, t'⟩) :
    Unchanged signed t t' ↔ Restores signed t item outcome := by
  have hLaid := laid_of_reachable hCreate hReach
  unfold hsearchR at hFail
  cases hProbe : probe signed item.key t with
  | none =>
    rw [hProbe] at hFail
    cases hFail
  | some result =>
    rw [hProbe] at hFail
    cases result with
    | found idx => exact hLaid.unchanged_found hProbe (Option.some.inj hFail)
    | empty idx =>
      dsimp only at hFail
      by_cases hFull : t.filled = t.size
      · rw [if_pos hFull] at hFail
        cases hFail
        refine Iff.intro (fun _ => ⟨?_, ?_⟩) fun _ => unchanged_refl t
        · intro data hSome
          rw [find_of_empty hProbe] at hSome
          cases hSome
        · exact fun _ hRoom => absurd hFull hRoom
      · rw [if_neg hFull] at hFail
        exact hLaid.unchanged_empty hProbe hFull hFail

/- A new variable that `change_ok` refuses. -/
theorem hsearch_failure_unchanged_refused :
    Unchanged false enteredCopy (enteredCopy.set 4 .deleted) ↔
      Restores false enteredCopy ⟨varB, some varC⟩ ⟨true, true, true, false⟩ := by
  refine @hsearch_failure_unchanged false 5 _ rfl _ _ enteredCopy_reachable _ _ ?_
  have hRun : hsearchR false ⟨varB, some varC⟩ .enter enteredCopy ⟨true, true, true, false⟩ =
      some ⟨0, none, (enteredCopy.set 4 (.live 4 ⟨some varB, some varC⟩)).set 4 .deleted⟩ :=
    rfl
  rw [hRun]
  unfold Table.set
  rw [Function.update_idem]

/-
  A value that cannot be copied is freed all the same, and
  the variable has none.
-/
theorem hsearch_failure_frees_value :
    ∃ t', (callSystem false ⟨fun _ => .free, 5, 0⟩).Reachable enteredCopy ∧
      hsearchR false ⟨varA, some varC⟩ .enter enteredCopy
        ⟨true, false, false, false⟩ = some ⟨0, none, t'⟩ ∧
      enteredCopy.find false varA = some (some (some varB)) ∧
      t'.find false varA = some (some none) :=
  ⟨_, enteredCopy_reachable, rfl, by decide, by decide⟩

end Uboot.Env.Alloc
