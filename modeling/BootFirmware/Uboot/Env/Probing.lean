import BootFirmware.Uboot.Env.Allocation
import BootFirmware.Uboot.Env.FiniteMap
import Mathlib.Order.WellFounded

/-
  Where searches end in a hash table some of whose copies may
  be NULL, and where its entries lie after any calls.

  Key definitions include:
    * `Passed` and `Comes`
    * `Laid`
    * `Call` and `callSystem`

  The main results are:
    * `probe_comes`
    * `laid_of_reachable`
-/

namespace Uboot.Env.Alloc

open Option

----
-- Looking For A Key
----

variable {signed : Bool} {size : Nat} {t : Table}

/- The tries that come to all slots. -/
def InPath (size j : Nat) : Prop :=
  j < size ∨ (size = 1 ∧ j = 1)

theorem tried_congr
    {key key' : CString} (hFirst : firstIdx signed key size = firstIdx signed key' size) (j : Nat) :
    tried signed size key j = tried signed size key' j := by
  induction j with
  | zero => exact hFirst
  | succ j ih =>
    unfold tried
    rw [ih, hFirst]

theorem tried_inj (hSize : TableSize size) (key : CString) {j j' : Nat}
    (hj : InPath size j) (hj' : InPath size j')
    (hEq : tried signed size key j = tried signed size key j') :
    j = j' := by
  rcases hSize.one_or_prime with rfl | ⟨-, hFive⟩
  · have hOne := @tried_one signed key
    have hCase : ∀ i, InPath 1 i → i = 0 ∨ i = 1 := by
      intro i hi
      rcases hi with hi | ⟨-, hi⟩
      · exact Or.inl (Nat.lt_one_iff.mp hi)
      · exact Or.inr hi
    rcases hCase j hj with rfl | rfl
    · rcases hCase j' hj' with rfl | rfl
      · rfl
      · rw [hOne.1, hOne.2] at hEq
        cases hEq
    · rcases hCase j' hj' with rfl | rfl
      · rw [hOne.1, hOne.2] at hEq
        cases hEq
      · rfl
  · have hLt : ∀ i, InPath size i → i < size := by
      intro i hi
      rcases hi with hi | ⟨hOne, -⟩
      · exact hi
      · omega
    rw [tried_eq_probe hSize.lt hFive, tried_eq_probe hSize.lt hFive] at hEq
    exact DoubleHashing.probe_injOn (secondHash_mem _ hSize.lt hFive).2
      (secondHash_coprime hSize hFive) (hLt j hj) (hLt j' hj')
      hEq

/- The slots of a table. -/
theorem tried_le (hSize : TableSize size) (key : CString) {j : Nat} (hj : InPath size j) :
    tried signed size key j ≤ size := by
  rcases hSize.one_or_prime with rfl | ⟨-, hFive⟩
  · have hOne := @tried_one signed key
    rcases hj with hj | ⟨-, rfl⟩
    · rw [Nat.lt_one_iff.mp hj, hOne.1]
    · rw [hOne.2]
      exact Nat.zero_le 1
  · exact (tried_mem hSize hFive key j).2

/- A slot at which the search does not stop. -/
def Passed (signed : Bool) (t : Table) (key : CString)
    (j : Nat) : Prop :=
  t.table (tried signed t.size key j) ≠ .free ∧
    (t.table (tried signed t.size key j)).hasKey (firstIdx signed key t.size) key = some false

/- What the search says of the slot at which it stops. -/
def answer (signed : Bool) (t : Table) (key : CString) (j : Nat) :
    Option Probe :=
  ((t.table (tried signed t.size key j)).hasKey
    (firstIdx signed key t.size) key).map fun same =>
      if same then .found (tried signed t.size key j)
      else .empty (tried signed t.size key j)

/-
  What a search comes to: the slot where it stops, the first
  slot again, or in a table of one slot the outside.
-/
inductive Comes
    (signed : Bool) (t : Table)
    (key : CString) : Option Probe → Prop
  | stop (j : Nat) : InPath t.size j → (∀ j', j' < j → Passed signed t key j') →
      ¬ Passed signed t key j → Comes signed t key (answer signed t key j)
  | round : 5 ≤ t.size → (∀ j, j < t.size → Passed signed t key j) →
      Comes signed t key (some (.empty (firstIdx signed key t.size)))
  | outside : t.size = 1 → Passed signed t key 0 → Passed signed t key 1 → Comes signed t key none

theorem probeLoop_stops
    (key : CString) {j J fuel : Nat} (hRange : ∀ i, i ≤ J → tried signed t.size key i ≤ t.size)
    (hFirst : ∀ i, j < i → i ≤ J → tried signed t.size key i ≠ firstIdx signed key t.size)
    (hPassed : ∀ i, j < i → i < J → Passed signed t key i)
    (hStop : ¬ Passed signed t key J) (hj : j < J) (hFuel : J ≤ j + fuel) :
    probeLoop t key (firstIdx signed key t.size)
      (secondHash (firstIdx signed key t.size) t.size) fuel
      (tried signed t.size key j) = answer signed t key J := by
  induction fuel generalizing j with
  | zero => omega
  | succ fuel ih =>
    have hNext :
        nextIdx t.size (secondHash (firstIdx signed key t.size) t.size)
          (tried signed t.size key j) =
        tried signed t.size key (j + 1) :=
      rfl
    unfold probeLoop
    rw [hNext, if_neg (hFirst (j + 1) (by omega) hj), if_neg (Nat.not_lt.mpr (hRange (j + 1) hj))]
    by_cases hEq : j + 1 = J
    · rw [hEq]
      unfold answer
      cases hKey : (t.table
          (tried signed t.size key J)).hasKey (firstIdx signed key t.size) key with
      | none => rfl
      | some same =>
        cases same with
        | true => rfl
        | false =>
          have hFree :
              t.table (tried signed t.size key J) = .free := by
            by_contra hNe
            exact hStop ⟨hNe, hKey⟩
          rw [if_pos hFree]
          rfl
    · have hPass := hPassed (j + 1) (by omega) (by omega)
      rw [hPass.2]
      rw [if_neg hPass.1]
      exact ih (fun i hi => hFirst i (by omega)) (fun i hi => hPassed i (by omega)) (by omega)
        (by omega)

/- Where every slot is passed it ends at the first one. -/
theorem probeLoop_rounds
    (hSize : TableSize t.size) (hFive : 5 ≤ t.size) (key : CString) {j fuel : Nat}
    (hPassed : ∀ i, i < t.size → Passed signed t key i)
    (hj : j < t.size) (hFuel : t.size ≤ j + fuel) :
    probeLoop t key (firstIdx signed key t.size)
      (secondHash (firstIdx signed key t.size) t.size) fuel
      (tried signed t.size key j) = some (.empty (firstIdx signed key t.size)) := by
  induction fuel generalizing j with
  | zero => omega
  | succ fuel ih =>
    have hNext :
        nextIdx t.size (secondHash (firstIdx signed key t.size) t.size)
          (tried signed t.size key j) =
        tried signed t.size key (j + 1) :=
      rfl
    unfold probeLoop
    rw [hNext]
    by_cases hEq : j + 1 = t.size
    · rw [hEq, tried_full signed hSize hFive key, if_pos rfl]
    · have hPass := hPassed (j + 1) (by omega)
      rw [if_neg (tried_ne_first hSize hFive key (by omega) (by omega)),
        if_neg (Nat.not_lt.mpr (tried_mem hSize hFive key (j + 1)).2), hPass.2]
      rw [if_neg hPass.1]
      exact ih (by omega) (by omega)

variable {key : CString}

theorem answer_of_free {j : Nat} (hFree : t.table (tried signed t.size key j) = .free) :
    answer signed t key j = some (.empty (tried signed t.size key j)) := by
  unfold answer
  rw [hFree]
  rfl

variable {cell : Cell}

/- The test fails unless the hash value is that of the slot. -/
theorem live_of_hasKey {hval : Nat} (hKey : cell.hasKey hval key ≠ some false) :
    ∃ entry, cell = .live hval entry := by
  cases cell with
  | free => exact absurd rfl hKey
  | deleted => exact absurd rfl hKey
  | live used entry =>
    unfold Cell.hasKey at hKey
    dsimp only at hKey
    by_cases hUsed : used = hval
    · exact ⟨entry, by rw [hUsed]⟩
    · rw [if_neg hUsed] at hKey
      exact absurd rfl hKey

/- The search, where the first stop is not the first slot. -/
theorem probe_of_passed (hSize : TableSize t.size) (hFirst : Passed signed t key 0) :
    probe signed key t =
      probeLoop t key (firstIdx signed key t.size) (secondHash (firstIdx signed key t.size) t.size)
        (t.size + 1) (tried signed t.size key 0) := by
  have hPos : t.size ≠ 0 ∧ t.size ≠ 2 := by
    rcases hSize.one_or_prime with hOne | ⟨-, hFive⟩
    · omega
    · omega
  have hNotFree : t.table (firstIdx signed key t.size) ≠ .free := hFirst.1
  have hKey :
      (t.table (firstIdx signed key t.size)).hasKey (firstIdx signed key t.size) key = some false :=
    hFirst.2
  unfold probe
  rw [if_neg hPos.1, if_neg hNotFree, hKey]
  exact if_neg hPos.2

theorem probe_of_not_passed (hSize : TableSize t.size) (hStop : ¬ Passed signed t key 0) :
    probe signed key t = answer signed t key 0 := by
  have hPos : t.size ≠ 0 := by
    rcases hSize.one_or_prime with hOne | ⟨-, hFive⟩
    · omega
    · omega
  have hTried : tried signed t.size key 0 = firstIdx signed key t.size := rfl
  unfold Passed at hStop
  unfold probe answer
  rw [hTried] at hStop ⊢
  rw [if_neg hPos]
  by_cases hFree : t.table (firstIdx signed key t.size) = .free
  · rw [if_pos hFree, hFree]
    rfl
  · rw [if_neg hFree]
    cases hKey : (t.table (firstIdx signed key t.size)).hasKey (firstIdx signed key t.size) key with
    | none => rfl
    | some same =>
      cases same with
      | true => rfl
      | false => exact absurd ⟨hFree, hKey⟩ hStop

/- In a table of one slot there are slot 1 and slot 0. -/
theorem probe_of_one
    (hOne : t.size = 1) (hFirst : Passed signed t key 0) (hSecond : Passed signed t key 1) :
    probe signed key t = none := by
  have hSize : TableSize t.size := ⟨by omega, Or.inl hOne⟩
  have hTried : tried signed t.size key 0 = 1 ∧ tried signed t.size key 1 = 0 := by
    rw [hOne]
    exact tried_one key
  have hHval : firstIdx signed key t.size = 1 := hTried.1
  rw [probe_of_passed hSize hFirst, hHval, hTried.1, hOne]
  have hNext : nextIdx 1 (secondHash 1 1) 1 = 0 := by decide
  have hLast : nextIdx 1 (secondHash 1 1) 0 = 2 ^ 32 - 1 := by decide
  unfold Passed at hSecond
  rw [hTried.2, hHval] at hSecond
  unfold probeLoop
  rw [hOne, hNext, if_neg Nat.zero_ne_one, if_neg (Nat.not_lt_zero 1), hSecond.2]
  rw [if_neg hSecond.1]
  unfold probeLoop
  rw [hOne, hLast, if_neg (by omega), if_pos (by omega)]

/- Where the search stops at the first slot not passed. -/
theorem probe_of_stop (hSize : TableSize t.size) {j : Nat}
    (hj : InPath t.size j) (hPassed : ∀ i, i < j → Passed signed t key i)
    (hStop : ¬ Passed signed t key j) :
    probe signed key t = answer signed t key j := by
  by_cases hZero : j = 0
  · rw [hZero] at hStop ⊢
    exact probe_of_not_passed hSize hStop
  rw [probe_of_passed hSize (hPassed 0 (by omega))]
  have hWithin : ∀ i, i ≤ j → InPath t.size i := by
    intro i hi
    unfold InPath at hj ⊢
    omega
  refine probeLoop_stops key ?_ ?_ (fun i _ hi => hPassed i hi) hStop (by omega) ?_
  · intro i hi
    exact tried_le hSize key (hWithin i hi)
  · intro i hPos hi hEq
    have hSame := tried_inj hSize key (hWithin i hi) (hWithin 0 (by omega)) hEq
    omega
  · unfold InPath at hj
    omega

/- The search, where it passes every slot. -/
theorem probe_of_round (hSize : TableSize t.size) (hFive : 5 ≤ t.size)
    (hPassed : ∀ j, j < t.size → Passed signed t key j) :
    probe signed key t = some (.empty (firstIdx signed key t.size)) := by
  rw [probe_of_passed hSize (hPassed 0 (by omega))]
  exact probeLoop_rounds hSize hFive key hPassed (by omega) (by omega)

/- A search comes to one of these ends. -/
theorem probe_comes (signed : Bool) (hSize : TableSize t.size) (key : CString) :
    Comes signed t key (probe signed key t) := by
  by_cases hAll : ∀ j, InPath t.size j → Passed signed t key j
  · rcases hSize.one_or_prime with hOne | ⟨-, hFive⟩
    · have hFirst := hAll 0 (Or.inl (by omega))
      have hSecond := hAll 1 (Or.inr ⟨hOne, rfl⟩)
      rw [probe_of_one hOne hFirst hSecond]
      exact .outside hOne hFirst hSecond
    · have hPassed : ∀ j, j < t.size → Passed signed t key j :=
        fun j hj => hAll j (Or.inl hj)
      rw [probe_of_round hSize hFive hPassed]
      exact .round hFive hPassed
  · have hSome : { j | InPath t.size j ∧ ¬ Passed signed t key j }.Nonempty := by
      by_contra hNone
      refine hAll fun j hj => ?_
      by_contra hStop
      exact hNone ⟨j, hj, hStop⟩
    rcases Nat.lt_wfRel.wf.has_min _ hSome with ⟨j, ⟨hj, hStop⟩, hLeast⟩
    have hBefore : ∀ i, i < j → Passed signed t key i := by
      intro i hi
      by_contra hNot
      refine hLeast i ⟨?_, hNot⟩ hi
      unfold InPath at hj ⊢
      omega
    rw [probe_of_stop hSize hj hBefore hStop]
    exact .stop j hj hBefore hStop

variable {idx : Nat}

/- Where a search for a key that is absent ends. -/
theorem empty_at (hSize : TableSize t.size) (hProbe : probe signed key t = some (.empty idx)) :
    ∃ j, InPath t.size j ∧ tried signed t.size key j = idx ∧
      (∀ j', j' < j → Passed signed t key j') ∧ (t.table idx = .free ∨
        (j = 0 ∧ 5 ≤ t.size ∧ ∀ j', j' < t.size → Passed signed t key j')) := by
  have hComes := probe_comes signed hSize key
  rw [hProbe] at hComes
  generalize hEnd : some (Probe.empty idx) = result at hComes
  cases hComes with
  | stop j hj hBefore hStop =>
    rcases map_eq_some_iff.mp hEnd.symm with ⟨same, hKey, hSame⟩
    cases same with
    | true => cases hSame
    | false =>
      cases hSame
      refine ⟨j, hj, rfl, hBefore, Or.inl ?_⟩
      by_contra hNe
      exact hStop ⟨hNe, hKey⟩
  | round hFive hAll =>
    cases hEnd
    exact ⟨0, Or.inl (by omega), rfl, fun j' h => absurd h (Nat.not_lt_zero j'),
      Or.inr ⟨rfl, hFive, hAll⟩⟩
  | outside => cases hEnd

/- The test succeeds on the key of a live entry. -/
theorem hasKey_eq_true {hval : Nat} (hKey : cell.hasKey hval key = some true) :
    ∃ data, cell = .live hval ⟨some key, data⟩ := by
  unfold Cell.hasKey at hKey
  cases cell with
  | free => cases hKey
  | deleted => cases hKey
  | live used entry =>
    dsimp only at hKey
    by_cases hUsed : used = hval
    · rw [if_pos hUsed] at hKey
      rcases map_eq_some_iff.mp hKey with ⟨key', hKey', hEq⟩
      rw [beq_iff_eq] at hEq
      refine ⟨entry.data, ?_⟩
      rw [hUsed, hEq, ← hKey']
    · rw [if_neg hUsed] at hKey
      cases hKey

/- Where a search for a key ends that finds it. -/
theorem found_at (hSize : TableSize t.size) (hProbe : probe signed key t = some (.found idx)) :
    ∃ j data, InPath t.size j ∧ tried signed t.size key j = idx ∧
      (∀ j', j' < j → Passed signed t key j') ∧
      t.table idx = .live (firstIdx signed key t.size) ⟨some key, data⟩ := by
  have hComes := probe_comes signed hSize key
  rw [hProbe] at hComes
  generalize hEnd : some (Probe.found idx) = result at hComes
  cases hComes with
  | stop j hj hBefore hStop =>
    rcases map_eq_some_iff.mp hEnd.symm with ⟨same, hKey, hSame⟩
    cases same with
    | false => cases hSame
    | true =>
      cases hSame
      rcases hasKey_eq_true hKey with ⟨data, hAt⟩
      exact ⟨j, data, hj, rfl, hBefore, hAt⟩
  | round => cases hEnd
  | outside => cases hEnd

/- The slot that a new entry takes. -/
theorem takes_at (hSize : TableSize t.size) (hProbe : probe signed key t = some (.empty idx)) :
    ∃ j, InPath t.size j ∧ tried signed t.size key j = t.takes (firstIdx signed key t.size) idx ∧
      (∀ j', j' < j → Passed signed t key j') ∧ (t.table (tried signed t.size key j) = .free ∨
        t.table (tried signed t.size key j) = .deleted ∨
        (j = 0 ∧ 5 ≤ t.size ∧ ∀ j', j' < t.size → Passed signed t key j')) := by
  unfold Table.takes
  by_cases hDeleted : t.table (firstIdx signed key t.size) = .deleted
  · rw [if_pos hDeleted]
    have hPos : 0 < t.size := by
      rcases hSize.one_or_prime with hOne | ⟨-, hFive⟩
      · omega
      · omega
    exact ⟨0, Or.inl hPos, rfl, fun j' h => absurd h (Nat.not_lt_zero j'), Or.inr (Or.inl hDeleted)⟩
  · rw [if_neg hDeleted]
    rcases empty_at hSize hProbe with ⟨j, hj, hEq, hBefore, hWhere⟩
    refine ⟨j, hj, hEq, hBefore, ?_⟩
    rw [hEq]
    rcases hWhere with hFree | hRound
    · exact Or.inl hFree
    · exact Or.inr (Or.inr hRound)

----
-- The Invariant
----

/-
  The search for the hash value of a live entry comes to it
  before any free slot.  Slot 0 is in use only in a table of
  one slot, behind slot 1.
-/
structure Laid
    (signed : Bool)
    (t : Table) : Prop where
  size : TableSize t.size
  filled : t.filled < 2 ^ 32
  live : ∀ i used entry, t.table i = .live used entry →
    ∃ key j, used = firstIdx signed key t.size ∧ InPath t.size j ∧ tried signed t.size key j = i ∧
      ∀ j', j' < j → t.table (tried signed t.size key j') ≠ .free
  zero : t.table 0 ≠ .free → t.size = 1 ∧ t.table 1 ≠ .free

theorem Laid.created {size : Nat} (hSize : TableSize size) :
    Laid signed (.ofData ⟨fun _ => .free, size, 0⟩) where
  size := hSize
  filled := Nat.two_pow_pos 32
  live _ _ _ h := nomatch h
  zero h := absurd rfl h

theorem Laid.refill (hLaid : Laid signed t) {filled : Nat} (hLt : filled < 2 ^ 32) :
    Laid signed { t with filled } where
  size := hLaid.size
  filled := hLt
  live := hLaid.live
  zero := hLaid.zero

/- A slot stays in use once it is. -/
theorem set_ne_free {idx i : Nat} (hCell : cell ≠ .free) (hNe : t.table i ≠ .free) :
    (t.set idx cell).table i ≠ .free := by
  by_cases hi : i = idx
  · rw [hi, set_self]
    exact hCell
  · rw [set_of_ne t cell hi]
    exact hNe

section

variable (hLaid : Laid signed t)
include hLaid

/-
  A slot that the search for a key comes to may be taken for
  the key, or deleted.
-/
theorem Laid.set {key : CString} {j : Nat}
    (hj : InPath t.size j) (hBefore : ∀ j', j' < j → t.table (tried signed t.size key j') ≠ .free)
    {cell : Cell}
    (hCell : cell = .deleted ∨ ∃ entry, cell = .live (firstIdx signed key t.size) entry) :
    Laid signed (t.set (tried signed t.size key j) cell) := by
  have hNotFree : cell ≠ .free := by
    rcases hCell with rfl | ⟨entry, rfl⟩
    · exact nofun
    · exact nofun
  refine ⟨hLaid.size, hLaid.filled, ?_, ?_⟩
  · intro i used entry hLive
    by_cases hi : i = tried signed t.size key j
    · rw [hi, set_self] at hLive
      rcases hCell with hDeleted | ⟨entry', hEntry⟩
      · rw [hDeleted] at hLive
        cases hLive
      · rw [hEntry] at hLive
        cases hLive
        exact ⟨key, j, rfl, hj, hi.symm, fun j' hj' => set_ne_free hNotFree (hBefore j' hj')⟩
    · rw [set_of_ne _ _ hi] at hLive
      rcases hLaid.live i used entry hLive with ⟨key', j', hUsed, hIn, hAt, hFull⟩
      exact ⟨key', j', hUsed, hIn, hAt, fun i' hi' => set_ne_free hNotFree (hFull i' hi')⟩
  · intro hZero
    by_cases hOld : t.table 0 = .free
    · have hAt : tried signed t.size key j = 0 := by
        by_contra hNe
        rw [set_of_ne t cell (Ne.symm hNe)] at hZero
        exact hZero hOld
      rcases hLaid.size.one_or_prime with hOne | ⟨-, hFive⟩
      · have hTried : tried signed t.size key 0 = 1 ∧ tried signed t.size key 1 = 0 := by
          rw [hOne]
          exact tried_one key
        have hPos : 0 < j := by
          by_contra hNot
          have hEq : j = 0 := by omega
          rw [hEq, hTried.1] at hAt
          cases hAt
        refine ⟨hOne, set_ne_free hNotFree ?_⟩
        rw [← hTried.1]
        exact hBefore 0 hPos
      · have hMem := @tried_mem signed _ hLaid.size hFive key j
        omega
    · have hOne := hLaid.zero hOld
      exact ⟨hOne.1, set_ne_free hNotFree hOne.2⟩

theorem Laid.set_live
    {i used : Nat} {entry : Copied} (hAt : t.table i = .live used entry) {cell : Cell}
    (hCell : cell = .deleted ∨ ∃ entry', cell = .live used entry') :
    Laid signed (t.set i cell) := by
  rcases hLaid.live i used entry hAt with ⟨key, j, rfl, hj, rfl, hBefore⟩
  exact hLaid.set hj hBefore hCell

theorem Laid.hdelete {i used : Nat} {entry : Copied} (hAt : t.table i = .live used entry) :
    Laid signed (t.hdelete i) := by
  refine (hLaid.set_live hAt (Or.inl rfl)).refill ?_
  exact Nat.mod_lt _ (Nat.two_pow_pos 32)

theorem Laid.overwriteEntry (item : Item) (action : Action) (outcome : Outcome) (idx : Nat) :
    Laid signed (overwriteEntry item action t outcome idx).htab := by
  unfold Alloc.overwriteEntry
  split
  · rename_i used entry data hAt hData
    split
    · exact hLaid
    split
    · exact hLaid
    dsimp only
    split
    · exact hLaid.set_live hAt (Or.inr ⟨_, rfl⟩)
    · exact hLaid.set_live hAt (Or.inr ⟨_, rfl⟩)
  · exact hLaid

variable {outcome : Outcome}

theorem Laid.createEntry
    {item : Item} {idx : Nat} (hProbe : probe signed item.key t = some (.empty idx)) {r : Searched}
    (hRun :
      createEntry item t outcome (firstIdx signed item.key t.size)
        (t.takes (firstIdx signed item.key t.size) idx) = some r) :
    Laid signed r.htab := by
  rcases takes_at hLaid.size hProbe with ⟨j, hj, hAt, hBefore, -⟩
  rw [← hAt] at hRun
  have hNew :
      ∀ entry, Laid signed
        (t.set (tried signed t.size item.key j) (.live (firstIdx signed item.key t.size) entry)) :=
    fun entry => hLaid.set hj (fun j' hj' => (hBefore j' hj').1) (Or.inr ⟨entry, rfl⟩)
  unfold Alloc.createEntry at hRun
  cases hData : item.data with
  | none =>
    rw [hData] at hRun
    cases hRun
  | some data =>
    rw [hData] at hRun
    dsimp only at hRun
    split at hRun
    · cases hRun
      exact hNew _
    have hCounted :=
      (hNew ⟨strdup outcome.strdupKey item.key,
        strdup outcome.strdupData data⟩).refill (Nat.mod_lt (t.filled + 1) (Nat.two_pow_pos 32))
    split at hRun
    · cases hRun
      exact hCounted.hdelete (set_self ..)
    split at hRun
    · cases hRun
      exact hCounted.hdelete (set_self ..)
    · cases hRun
      exact hCounted

/- A search keeps the invariant, whatever it meets. -/
theorem Laid.hsearchR {item : Item} {action : Action} {r : Searched}
    (hRun : hsearchR signed item action t outcome = some r) :
    Laid signed r.htab := by
  unfold Alloc.hsearchR at hRun
  cases hProbe : probe signed item.key t with
  | none =>
    rw [hProbe] at hRun
    cases hRun
  | some result =>
    rw [hProbe] at hRun
    cases result with
    | found idx =>
      cases hRun
      exact hLaid.overwriteEntry item action outcome idx
    | empty idx =>
      cases action with
      | find =>
        cases hRun
        exact hLaid
      | enter =>
        dsimp only at hRun
        split at hRun
        · cases hRun
          exact hLaid
        · exact hLaid.createEntry hProbe hRun

end

variable {outcome : Outcome}

/- What a call of FIND returns, which leaves the table. -/
theorem hsearchR_find
    {item : Item} {r : Searched} (hRun : hsearchR signed item .find t outcome = some r) :
    (∃ idx, probe signed item.key t = some (.found idx) ∧ r = ⟨toInt idx, some idx, t⟩) ∨
    (∃ idx, probe signed item.key t = some (.empty idx) ∧ r = ⟨0, none, t⟩) := by
  unfold Alloc.hsearchR at hRun
  cases hProbe : probe signed item.key t with
  | none =>
    rw [hProbe] at hRun
    cases hRun
  | some result =>
    rw [hProbe] at hRun
    cases result with
    | found idx =>
      refine Or.inl ⟨idx, rfl, ?_⟩
      cases hRun
      unfold overwriteEntry
      cases t.table idx with
      | free => rfl
      | deleted => rfl
      | live used entry => rfl
    | empty idx =>
      cases hRun
      exact Or.inr ⟨idx, rfl, rfl⟩

theorem Laid.hdeleteR
    (hLaid : Laid signed t) {r : Int × Table} (hRun : hdeleteR signed key t outcome = some r) :
    Laid signed r.2 := by
  unfold Alloc.hdeleteR at hRun
  cases hSearch : Alloc.hsearchR signed ⟨key, none⟩ .find t outcome with
  | none =>
    rw [hSearch] at hRun
    cases hRun
  | some found =>
    rw [hSearch] at hRun
    rcases hsearchR_find hSearch with ⟨idx, hProbe, rfl⟩ | ⟨idx, hProbe, rfl⟩
    · rcases found_at hLaid.size hProbe with ⟨j, data, hj, hIdx, -, hAt⟩
      have hLe := @tried_le signed _ hLaid.size key j hj
      rw [hIdx] at hLe
      dsimp only at hRun
      split at hRun
      · cases hRun
        exact hLaid
      rw [map_some, hAt] at hRun
      dsimp only at hRun
      split at hRun
      · cases hRun
        exact hLaid
      split at hRun
      · cases hRun
      split at hRun
      · cases hRun
        exact hLaid
      · cases hRun
        have hLt := hLaid.size.lt
        have hSame : (toInt idx).toNat = idx := by
          unfold toInt at *
          omega
        rw [hSame]
        exact hLaid.hdelete hAt
    · dsimp only at hRun
      rw [if_pos rfl] at hRun
      cases hRun
      exact hLaid

----
-- Whole Runs
----

inductive Call where
  | search (item : Item) (action : Action) (outcome : Outcome)
  | delete (key : CString) (outcome : Outcome)
deriving DecidableEq

def Table.call (signed : Bool) (t : Table) : Call → Option Table
  | .search item action outcome =>
    (hsearchR signed item action t outcome).map Searched.htab
  | .delete key outcome => (hdeleteR signed key t outcome).map Prod.snd

/- Calls of a table that `hcreate_r` has made. -/
def callSystem (signed : Bool) (htab : HsearchData) :
    TransitionSystem Table Call :=
  .ofStep (.ofData htab) (Table.call signed)

/- The tables that calls leave, of any outcome. -/
theorem laid_of_reachable {nel : Nat} {htab : HsearchData}
    (hCreate : hcreateR nel = some htab) (hReach : (callSystem signed htab).Reachable t) :
    Laid signed t := by
  refine hReach.invariant ?_ ?_
  · rintro s rfl
    rcases hcreateR_ends nel with ⟨size, hSize, hEnds⟩
    rw [hEnds] at hCreate
    cases hCreate
    exact Laid.created hSize
  · intro s call s' hLaid _ hStep
    cases call with
    | search item action outcome =>
      rcases map_eq_some_iff.mp hStep with ⟨r, hRun, rfl⟩
      exact hLaid.hsearchR hRun
    | delete key outcome =>
      rcases map_eq_some_iff.mp hStep with ⟨r, hRun, rfl⟩
      exact hLaid.hdeleteR hRun

/- A table of five slots in which b is the value of a. -/
def enteredCopy : Table where
  table := Function.update (fun _ => .free) 3 (.live 3 ⟨some varA, some varB⟩)
  size := 5
  filled := 1

/- Copies are allocated, and nothing is refused. -/
def accepted : Outcome := ⟨true, true, false, false⟩

theorem enteredCopy_reachable :
    (callSystem false ⟨fun _ => .free, 5, 0⟩).Reachable
      enteredCopy := by
  refine .next (.start rfl) trivial (l := .search ⟨varA, some varB⟩ .enter accepted) ?_
  refine congrArg some ?_
  rfl

end Uboot.Env.Alloc
