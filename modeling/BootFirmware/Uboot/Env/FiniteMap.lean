import BootFirmware.Lib.DoubleHashing
import BootFirmware.Lib.OpenAddressing
import BootFirmware.Lib.TransitionSystem
import BootFirmware.Uboot.Env.Model
import Mathlib.Algebra.Group.Int.Defs
import Mathlib.Algebra.Group.Nat.Defs
import Mathlib.Data.Nat.Prime.Basic
import Mathlib.Data.Set.Card

/-
  The hash table is a finite map of strings.

  Searching and deleting do what they say.  A new key goes
  wrong where it finds no free slot, the table is not full
  and the first slot tried is in use: the deleted slot that
  it has passed is not remembered, and the entry in the first
  slot is overwritten.

  Key definitions include:
    * `TableSize` and `tried`
    * `IsMap`
    * `Keeps`
    * `Kept`

  The main results are:
    * `hcreateR_ends`
    * `hsearch_finite_map`
-/

----
-- Table Sizes
----

namespace Uboot.Env

open Function Option

/- The sizes that tables have. -/
structure TableSize (size : Nat) : Prop where
  lt : size < 2 ^ 32
  one_or_prime : size = 1 ∨ size.Prime ∧ 5 ≤ size

/-
  The trial division of an odd number ends at a divisor or
  where no smaller odd number divides it.
-/
theorem isprimeLoop_ends
    {number : Nat} (hOdd : number % 2 = 1) (hLt : number < 2 ^ 32) (fuel div : Nat)
    (hDivOdd : div % 2 = 1) (hDiv : 3 ≤ div) (hLe : div ≤ number) (hFuel : number < div + 2 * fuel)
    (hBefore : ∀ d, d % 2 = 1 → 3 ≤ d → d < div → number % d ≠ 0) :
    ∃ div', isprimeLoop number fuel div = some div' ∧
      ¬ (u32 (div' * div') < number ∧ number % div' ≠ 0) ∧
      ∀ d, d % 2 = 1 → 3 ≤ d → d < div' → number % d ≠ 0 := by
  induction fuel generalizing div with
  | zero => omega
  | succ fuel ih =>
    unfold isprimeLoop
    by_cases hGo : u32 (div * div) < number ∧ number % div ≠ 0
    · rw [if_pos hGo]
      have hNe : div ≠ number := by
        rintro rfl
        exact hGo.2 (Nat.mod_self div)
      rw [u32_of_lt (by omega)]
      refine ih (div + 2) (by omega) (by omega) (by omega) (by omega) ?_
      intro d hd hThree hd'
      by_cases hEq : d = div
      · rw [hEq]
        exact hGo.2
      · exact hBefore d hd hThree (by omega)
    · rw [if_neg hGo]
      exact ⟨div, rfl, hGo, hBefore⟩

/- The test ends, and what passes it is 1 or a prime. -/
theorem isprime_ends {number : Nat} (hOdd : number % 2 = 1) (hLt : number < 2 ^ 32) :
    ∃ b, isprime number = some b ∧ (b = true → TableSize number) := by
  by_cases hOne : number = 1
  · subst hOne
    exact ⟨true, by decide, fun _ => ⟨hLt, Or.inl rfl⟩⟩
  rcases isprimeLoop_ends hOdd hLt (number + 1) 3 rfl (Nat.le_refl 3) (by omega) (by omega)
    (fun d _ hThree hd => absurd hd (by omega)) with ⟨div, hRun, hStop, hBefore⟩
  refine ⟨_, by unfold isprime; rw [hRun]; rfl, ?_⟩
  intro hPasses
  have hNot : number % div ≠ 0 := of_decide_eq_true hPasses
  have hSquare : number ≤ u32 (div * div) := by
    by_contra hLess
    exact hStop ⟨by omega, hNot⟩
  have hPrime : number.Prime := by
    by_contra hComposite
    have hFac := Nat.minFac_prime hOne
    have hDvd := Nat.minFac_dvd number
    have hFacSquare := Nat.minFac_sq_le_self (by omega) hComposite
    rw [Nat.pow_two] at hFacSquare
    have hMod : number % number.minFac = 0 := Nat.mod_eq_zero_of_dvd hDvd
    have hFacOdd : number.minFac % 2 = 1 := by
      rcases hFac.eq_two_or_odd with hTwo | hOdd'
      · rw [hTwo] at hMod
        omega
      · exact hOdd'
    have hFacLow := hFac.two_le
    have hDivLe : div ≤ number.minFac := by
      by_contra hGt
      exact hBefore _ hFacOdd (by omega) (by omega) hMod
    have hMul := Nat.mul_le_mul hDivLe hDivLe
    rw [u32_of_lt (by omega)] at hSquare
    have hEq : div = number.minFac := by
      by_contra hNe
      have hLess := Nat.mul_lt_mul_of_lt_of_le (show div < number.minFac by omega) hDivLe (by omega)
      omega
    exact hNot (hEq ▸ hMod)
  refine ⟨hLt, Or.inr ⟨hPrime, ?_⟩⟩
  by_contra hSmall
  have hThree : number = 3 := by omega
  subst hThree
  have hRun' : isprimeLoop 3 (3 + 1) 3 = some 3 := by decide
  rw [hRun'] at hRun
  cases hRun
  exact hNot rfl

theorem hcreateLoop_ends {k fuel nel : Nat}
    (hOdd : nel % 2 = 1) (hPasses : isprime (u32 (nel + 2 * k)) = some true) (hFuel : k < fuel) :
    ∃ nel', hcreateLoop fuel nel = some nel' ∧ TableSize (u32 nel') := by
  have hSome : ∃ b, isprime (u32 nel) = some b ∧ (b = true → TableSize (u32 nel)) :=
    isprime_ends (by unfold u32; omega) (Nat.mod_lt nel (by decide))
  rcases hSome with ⟨b, hb, hSize⟩
  cases fuel with
  | zero => omega
  | succ fuel =>
    unfold hcreateLoop
    rw [hb]
    cases b with
    | true => exact ⟨nel, rfl, hSize rfl⟩
    | false =>
      cases k with
      | zero =>
        rw [Nat.mul_zero, Nat.add_zero, hb] at hPasses
        cases hPasses
      | succ k =>
        exact hcreateLoop_ends (k := k) (by omega)
          (by rwa [show nel + 2 + 2 * k = nel + 2 * (k + 1) by omega])
          (by omega)

/- Creating a table ends with one of these sizes. -/
theorem hcreateR_ends (nel : Nat) :
    ∃ size, TableSize size ∧ hcreateR nel = some ⟨fun _ => .free, size, 0⟩ := by
  have hOdd : (nel ||| 1) % 2 = 1 := by
    have hBit : (nel ||| 1).testBit 0 = true := by simp
    exact Nat.mod_two_eq_one_iff_testBit_zero.mpr hBit
  have hFive : isprime 5 = some true := by decide
  have hWalk : ∃ k, k < 2 ^ 32 ∧ u32 ((nel ||| 1) + 2 * k) = 5 := by
    generalize nel ||| 1 = n at hOdd
    refine ⟨((2 ^ 32 + 5 - u32 n) % 2 ^ 32) / 2, ?_, ?_⟩
    · omega
    · unfold u32
      omega
  rcases hWalk with ⟨k, hk, hEq⟩
  rcases hcreateLoop_ends hOdd (hEq ▸ hFive) hk with ⟨nel', hLoop, hSize⟩
  exact ⟨u32 nel', hSize, by unfold hcreateR; rw [hLoop]; rfl⟩

----
-- The Slots Tried
----

/- The slots that a search for a key tries one by one. -/
def tried (signed : Bool) (size : Nat) (key : CString) :
    Nat → Nat
  | 0 => firstIdx signed key size
  | j + 1 => nextIdx size (secondHash (firstIdx signed key size) size) (tried signed size key j)

variable {signed : Bool} {size : Nat}

theorem firstIdx_mem (signed : Bool) (hSize : TableSize size) (key : CString) :
    1 ≤ firstIdx signed key size ∧ firstIdx signed key size ≤ size := by
  have hPos : 0 < size := by
    rcases hSize.one_or_prime with rfl | ⟨-, hFive⟩
    · exact Nat.one_pos
    · omega
  have hMod := Nat.mod_lt (hashLoop signed key (u32 key.bytes.length) (u32 key.bytes.length)) hPos
  unfold firstIdx
  dsimp only
  split <;> omega

theorem secondHash_mem (hval : Nat) (hLt : size < 2 ^ 32) (hFive : 5 ≤ size) :
    1 ≤ secondHash hval size ∧ secondHash hval size < size := by
  have hSub : u32 (size + 2 ^ 32 - 2) = size - 2 := by
    unfold u32
    omega
  have hMod := Nat.mod_lt hval (show 0 < size - 2 by omega)
  unfold secondHash
  rw [hSub, u32_of_lt (by omega)]
  omega

theorem nextIdx_eq_back {step idx : Nat} (hLt : size < 2 ^ 32) (hStep : 1 ≤ step ∧ step < size) :
    nextIdx size step idx = DoubleHashing.back size step idx := by
  unfold nextIdx DoubleHashing.back
  split
  · unfold u32
    omega
  · rfl

theorem tried_eq_probe (hLt : size < 2 ^ 32) (hFive : 5 ≤ size) (key : CString) (j : Nat) :
    tried signed size key j = DoubleHashing.probe size (secondHash (firstIdx signed key size) size)
        (firstIdx signed key size) j := by
  induction j with
  | zero => rfl
  | succ j ih =>
    unfold tried DoubleHashing.probe
    rw [ih, nextIdx_eq_back hLt (secondHash_mem _ hLt hFive)]

/- In a table of one slot the next one tried is slot 0. -/
theorem tried_one (key : CString) :
    tried signed 1 key 0 = 1 ∧ tried signed 1 key 1 = 0 := by
  have hMem := firstIdx_mem signed ⟨by decide, Or.inl rfl⟩ key
  have hOne : firstIdx signed key 1 = 1 := by omega
  refine ⟨hOne, ?_⟩
  unfold tried tried
  rw [hOne]
  decide

section

variable (hSize : TableSize size) (hFive : 5 ≤ size)
include hSize hFive

theorem tried_mem (key : CString) (j : Nat) :
    1 ≤ tried signed size key j ∧ tried signed size key j ≤ size := by
  have hFirst := firstIdx_mem signed hSize key
  rw [tried_eq_probe hSize.lt hFive]
  exact DoubleHashing.probe_mem (secondHash_mem _ hSize.lt hFive).2 hFirst.1 hFirst.2 j

theorem secondHash_coprime {hval : Nat} :
    Nat.Coprime size (secondHash hval size) := by
  have hPrime : size.Prime := by
    rcases hSize.one_or_prime with hOne | ⟨hPrime, -⟩
    · omega
    · exact hPrime
  have hMem := secondHash_mem hval hSize.lt hFive
  exact Nat.coprime_of_lt_prime (by omega) hMem.2 hPrime

/- Each slot is tried before the first one comes again. -/
theorem exists_tried_eq (key : CString) {i : Nat} (hMem : 1 ≤ i ∧ i ≤ size) :
    ∃ j, j < size ∧ tried signed size key j = i := by
  have hFirst := firstIdx_mem signed hSize key
  rcases DoubleHashing.exists_probe_eq (secondHash_mem _ hSize.lt hFive).2
    (secondHash_coprime hSize hFive) hFirst.1 hFirst.2 hMem
    with ⟨j, hj, hEq⟩
  exact ⟨j, hj, by rw [tried_eq_probe hSize.lt hFive, hEq]⟩

theorem tried_ne_first (key : CString) {j : Nat} (hPos : 0 < j) (hLt : j < size) :
    tried signed size key j ≠ firstIdx signed key size := by
  intro hEq
  rw [tried_eq_probe hSize.lt hFive] at hEq
  have hSame := DoubleHashing.probe_injOn (secondHash_mem _ hSize.lt hFive).2
    (secondHash_coprime hSize hFive) hLt
    (show 0 < size by omega) hEq
  omega

end

theorem tried_full (signed : Bool) (hSize : TableSize size) (hFive : 5 ≤ size) (key : CString) :
    tried signed size key size = firstIdx signed key size := by
  have hFirst := firstIdx_mem signed hSize key
  rw [tried_eq_probe hSize.lt hFive]
  exact DoubleHashing.probe_full (secondHash_mem _ hSize.lt hFive).2 hFirst.1 hFirst.2

----
-- Looking For A Key
----

variable {htab : HsearchData} {key : CString}

/- A slot at which the search does not stop. -/
def Passed (htab : HsearchData) (hval : Nat) (key : CString)
    (idx : Nat) : Prop :=
  htab.table idx ≠ .free ∧ (htab.table idx).hasKey hval key = false

/- How a search stops. -/
inductive Stops
    (htab : HsearchData) (hval : Nat) (key : CString)
    (idx : Nat) : Probe → Prop
  | found : (htab.table idx).hasKey hval key = true → Stops htab hval key idx (.found idx)
  | free : htab.table idx = .free → Stops htab hval key idx (.empty idx)
  | round : idx = hval → htab.table idx ≠ .free → Stops htab hval key idx (.empty idx)

/-
  The loop stops within `J` steps if that many come to a free
  slot or to the first one.
-/
theorem probeLoop_ends (path : Nat → Nat) (hval hval2 J fuel j : Nat)
    (hNext : ∀ j, path (j + 1) = nextIdx htab.size hval2 (path j))
    (hRange : ∀ j, j ≤ J → path j ≤ htab.size)
    (hStop : path J = hval ∨ htab.table (path J) = .free) (hj : j < J) (hFuel : J ≤ j + fuel) :
    ∃ i result, j < i ∧ i ≤ J ∧ probeLoop htab key hval hval2 fuel (path j) = some result ∧
      Stops htab hval key (path i) result ∧ (result = .found (path i) → path i ≠ hval) ∧
      ∀ i', j < i' → i' < i → Passed htab hval key (path i') := by
  induction fuel generalizing j with
  | zero => omega
  | succ fuel ih =>
    have hOnly : ∀ i', j < i' → i' < j + 1 → Passed htab hval key (path i') :=
      fun i' hLow hHigh => absurd hLow (by omega)
    unfold probeLoop
    rw [← hNext j]
    by_cases hFirst : path (j + 1) = hval
    · rw [if_pos hFirst]
      refine ⟨j + 1, _, by omega, hj, rfl, ?_, nofun, hOnly⟩
      by_cases hFree : htab.table (path (j + 1)) = .free
      · exact .free hFree
      · exact .round hFirst hFree
    rw [if_neg hFirst, if_neg (Nat.not_lt.mpr (hRange (j + 1) hj))]
    by_cases hKey : (htab.table (path (j + 1))).hasKey hval key = true
    · rw [if_pos hKey]
      exact ⟨j + 1, _, by omega, hj, rfl, .found hKey, fun _ => hFirst, hOnly⟩
    rw [if_neg hKey]
    by_cases hFree : htab.table (path (j + 1)) = .free
    · rw [if_pos hFree]
      exact ⟨j + 1, _, by omega, hj, rfl, .free hFree, nofun, hOnly⟩
    rw [if_neg hFree]
    have hLt : j + 1 < J := by
      by_contra hGe
      have hEq : J = j + 1 := by omega
      rw [hEq] at hStop
      rcases hStop with h | h
      · exact hFirst h
      · exact hFree h
    rcases ih (j + 1) hLt (by omega) with ⟨i, result, hLow, hHigh, hRun, hHow, hNot, hBefore⟩
    refine ⟨i, result, by omega, hHigh, hRun, hHow, hNot, ?_⟩
    intro i' hLow' hHigh'
    by_cases hEq : i' = j + 1
    · rw [hEq]
      exact ⟨hFree, Bool.eq_false_iff.mpr hKey⟩
    · exact hBefore i' (by omega) hHigh'

/-
  What a search comes to: the key, a free slot, or the first
  slot again after all others.
-/
inductive Comes
    (signed : Bool) (htab : HsearchData)
    (key : CString) : Probe → Prop
  | found (i : Nat) : i < htab.size →
      (htab.table (tried signed htab.size key i)).hasKey
        (firstIdx signed key htab.size) key = true →
      Comes signed htab key (.found (tried signed htab.size key i))
  | free (i : Nat) : htab.table (tried signed htab.size key i) = .free →
      (∀ i', i' < i →
        Passed htab (firstIdx signed key htab.size) key (tried signed htab.size key i')) →
      (i < htab.size ∨ (htab.size = 1 ∧ i = 1)) →
      Comes signed htab key (.empty (tried signed htab.size key i))
  | round : 5 ≤ htab.size →
      (∀ i, i < htab.size →
        Passed htab (firstIdx signed key htab.size) key (tried signed htab.size key i)) →
      Comes signed htab key (.empty (firstIdx signed key htab.size))

/- The loop, after the first slot has been passed. -/
theorem probeLoop_comes (hSize : TableSize htab.size) (hZero : htab.table 0 = .free)
    (hFirst : Passed htab (firstIdx signed key htab.size) key (firstIdx signed key htab.size)) :
    ∃ result, probeLoop htab key (firstIdx signed key htab.size)
        (secondHash (firstIdx signed key htab.size) htab.size)
        (htab.size + 1) (firstIdx signed key htab.size) = some result ∧
      Comes signed htab key result := by
  rcases hSize.one_or_prime with hOne | ⟨-, hFive⟩
  · have hTried : tried signed htab.size key 0 = 1 ∧ tried signed htab.size key 1 = 0 := by
      rw [hOne]
      exact tried_one key
    have hFree : htab.table (tried signed htab.size key 1) = .free := by rw [hTried.2, hZero]
    rcases probeLoop_ends (tried signed htab.size key)
      (firstIdx signed key htab.size) _ 1 (htab.size + 1) 0
      (fun j => rfl)
      (fun j hj => by
        rcases Nat.le_one_iff_eq_zero_or_eq_one.mp hj with
          rfl | rfl
        · omega
        · omega)
      (Or.inr hFree) Nat.one_pos (by omega) with ⟨i, result, hLow, hHigh, hRun, hHow, -, -⟩
    have hEq : i = 1 := by omega
    subst hEq
    have hBefore :
        ∀ i', i' < 1 →
          Passed htab (firstIdx signed key htab.size) key (tried signed htab.size key i') := by
      intro i' hi'
      rw [Nat.lt_one_iff.mp hi']
      exact hFirst
    refine ⟨result, hRun, ?_⟩
    cases hHow with
    | found h =>
      rw [hFree] at h
      cases h
    | free => exact .free 1 hFree hBefore (Or.inr ⟨hOne, rfl⟩)
    | round => exact .free 1 hFree hBefore (Or.inr ⟨hOne, rfl⟩)
  · have hFull := tried_full signed hSize hFive key
    rcases probeLoop_ends (tried signed htab.size key) (firstIdx signed key htab.size) _ htab.size
      (htab.size + 1) 0 (fun j => rfl)
      (fun j _ => (tried_mem hSize hFive key j).2)
      (Or.inl hFull) (by omega) (by omega) with ⟨i, result, hLow, hHigh, hRun, hHow, hNot, hPassed⟩
    have hBefore :
        ∀ i', i' < i →
          Passed htab (firstIdx signed key htab.size) key (tried signed htab.size key i') := by
      intro i' hi'
      by_cases hZero' : i' = 0
      · rw [hZero']
        exact hFirst
      · exact hPassed i' (by omega) hi'
    have hEnd : tried signed htab.size key i ≠ firstIdx signed key htab.size → i < htab.size := by
      intro hNe
      by_contra hGe
      have hEq : i = htab.size := by omega
      rw [hEq] at hNe
      exact hNe hFull
    refine ⟨result, hRun, ?_⟩
    cases hHow with
    | found h => exact .found i (hEnd (hNot rfl)) h
    | free h =>
      refine .free i h hBefore (Or.inl (hEnd ?_))
      intro hEq
      rw [hEq] at h
      exact hFirst.1 h
    | round hEq _ =>
      have hLast : i = htab.size := by
        by_contra hNe
        exact tried_ne_first hSize hFive key hLow (by omega) hEq
      rw [hEq]
      exact .round hFive fun i' hi' => hBefore i' (by omega)

/- A search always stops. -/
theorem probe_comes
    (signed : Bool) (hSize : TableSize htab.size) (hZero : htab.table 0 = .free) (key : CString) :
    ∃ result, probe signed key htab = some result ∧ Comes signed htab key result := by
  have hPos : htab.size ≠ 0 ∧ htab.size ≠ 2 := by
    rcases hSize.one_or_prime with hOne | ⟨-, hFive⟩
    · omega
    · omega
  unfold probe
  rw [if_neg hPos.1]
  by_cases hFree : htab.table (firstIdx signed key htab.size) = .free
  · rw [if_pos hFree]
    exact ⟨_, rfl, .free 0 hFree (fun i' h => absurd h (Nat.not_lt_zero i')) (Or.inl (by omega))⟩
  rw [if_neg hFree]
  by_cases hKey :
      (htab.table (firstIdx signed key htab.size)).hasKey (firstIdx signed key htab.size) key = true
  · rw [if_pos hKey]
    exact ⟨_, rfl, .found 0 (by omega) hKey⟩
  rw [if_neg hKey, if_neg hPos.2]
  exact probeLoop_comes hSize hZero ⟨hFree, Bool.eq_false_iff.mpr hKey⟩

----
-- The Map
----

inductive Op where
  | enter (key data : CString) (flag : Nat)
  | find (item : Item) (flag : Nat)
  | delete (key : CString) (flag : Nat)

/- A table, and the map that the calls so far have made. -/
structure Tracked where
  htab : HsearchData
  vars : CString → Option CString

/- The keys that are live. -/
def Tracked.live (t : Tracked) : Set CString :=
  { key | t.vars key ≠ none }

/- A call, with the same change to the map. -/
def Tracked.apply (signed : Bool) (hooks : Hooks) (t : Tracked) :
    Op → Option Tracked
  | .enter key data flag =>
    (hsearchR signed hooks ⟨key, some data⟩ .enter t.htab
      flag).map fun r =>
        { htab := r.htab
          vars :=
            if r.retval.isSome then
              update t.vars key (some data)
            else
              t.vars }
  | .find item flag =>
    (hsearchR signed hooks item .find t.htab flag).map fun r => { t with htab := r.htab }
  | .delete key flag =>
    (hdeleteR signed hooks key t.htab flag).map fun r =>
      { htab := r.2
        vars := update t.vars key none }

def tableSystem (signed : Bool) (hooks : Hooks) (htab : HsearchData) :
    TransitionSystem Tracked Op :=
  .ofStep ⟨htab, fun _ => none⟩ (Tracked.apply signed hooks)

/- A table is the finite map of its live keys. -/
structure IsMap
    (signed : Bool) (hooks : Hooks)
    (t : Tracked) : Prop where
  find : ∀ item flag, ∃ r, hsearchR signed hooks item .find t.htab flag = some r ∧ r.htab = t.htab ∧
    r.retval.map t.htab.entryAt = (t.vars item.key).map fun data => some ⟨item.key, data⟩
  finite : t.live.Finite
  filled : t.htab.filled = t.live.ncard
  enter : ∀ key data flag, ∃ r, hsearchR signed hooks ⟨key, some data⟩ .enter t.htab flag = some r ∧
    (r.retval = none → t.live.ncard = t.htab.size)

/-
  A call keeps the map unless it enters a new key in a table
  that has room but no free slot and whose first slot to try
  is in use, or deletes an entry at an index that is not the
  value of an `int`.
-/
def Keeps (signed : Bool) (t : Tracked) :
    Op → Prop
  | .enter key _ _ =>
    t.vars key = none →
    t.htab.filled ≠ t.htab.size → (∃ i, 1 ≤ i ∧ i ≤ t.htab.size ∧ t.htab.table i = .free) ∨
      t.htab.entryAt (firstIdx signed key t.htab.size) = none
  | .find _ _ => True
  | .delete key _ => ∀ i data, t.htab.entryAt i = some ⟨key, data⟩ → i < 2 ^ 31

----
-- The Invariant
----

/- A slot without the hash value of its key. -/
def Slot.content : Slot → OpenAddressing.Slot CString CString
  | .free => .free
  | .deleted => .deleted
  | .live _ entry => .live entry.key entry.data

def HsearchData.slots (htab : HsearchData) (i : Nat) :
    OpenAddressing.Slot CString CString :=
  (htab.table i).content

theorem slots_set (htab : HsearchData) (idx : Nat) (slot : Slot) :
    (htab.set idx slot).slots = update htab.slots idx slot.content := by
  funext i
  unfold HsearchData.slots
  by_cases hi : i = idx
  · rw [hi, set_self, update_self]
  · rw [set_of_ne htab slot hi, update_of_ne hi]

variable {slot : Slot}

theorem content_eq_free_iff : slot.content = .free ↔ slot = .free := by
  cases slot with
  | free => exact Iff.intro (fun _ => rfl) (fun _ => rfl)
  | deleted => exact Iff.intro nofun nofun
  | live used entry => exact Iff.intro nofun nofun

theorem content_eq_live_iff {key data : CString} :
    slot.content = .live key data ↔ ∃ used, slot = .live used ⟨key, data⟩ := by
  constructor
  · intro h
    cases slot with
    | free => cases h
    | deleted => cases h
    | live used entry =>
      cases h
      exact ⟨used, rfl⟩
  · rintro ⟨used, rfl⟩
    rfl

theorem hasKey_iff {hval : Nat} {key : CString} :
    slot.hasKey hval key = true ↔ ∃ data, slot = .live hval ⟨key, data⟩ := by
  cases slot with
  | free => exact Iff.intro nofun nofun
  | deleted => exact Iff.intro nofun nofun
  | live used entry =>
    unfold Slot.hasKey
    rw [Bool.and_eq_true, beq_iff_eq, beq_iff_eq]
    constructor
    · rintro ⟨rfl, rfl⟩
      exact ⟨entry.data, rfl⟩
    · rintro ⟨data, h⟩
      cases h
      exact ⟨rfl, rfl⟩

variable {i : Nat}

theorem entryAt_eq_some_iff {entry : Entry} :
    htab.entryAt i = some entry ↔ ∃ used, htab.table i = .live used entry := by
  unfold HsearchData.entryAt
  cases htab.table i with
  | free => exact Iff.intro nofun nofun
  | deleted => exact Iff.intro nofun nofun
  | live used entry' =>
    constructor
    · intro h
      cases h
      exact ⟨used, rfl⟩
    · rintro ⟨used', h⟩
      cases h
      rfl

/-
  The table is sound for the slots tried, its entries have
  the hash values of their keys, and they are the map.
-/
structure Kept
    (signed : Bool)
    (t : Tracked) : Prop where
  size : TableSize t.htab.size
  zero : t.htab.table 0 = .free
  hashed : ∀ i used entry,
    t.htab.table i = .live used entry → used = firstIdx signed entry.key t.htab.size
  sound : OpenAddressing.Sound (tried signed t.htab.size) t.htab.size t.htab.slots
  vars : ∀ key data, OpenAddressing.Holds t.htab.slots key data ↔ t.vars key = some data
  filled_le : t.htab.filled ≤ t.htab.size
  finite : t.live.Finite
  filled : t.htab.filled = t.live.ncard

variable {t : Tracked} {hooks : Hooks}

theorem Kept.not_live_of_passed
    (hKept : Kept signed t) (hPassed : Passed t.htab (firstIdx signed key t.htab.size) key i)
    (data : CString) :
    t.htab.slots i ≠ .live key data := by
  intro h
  rcases content_eq_live_iff.mp h with ⟨used, hLive⟩
  have hUsed := hKept.hashed i used _ hLive
  have hHas := hasKey_iff.mpr ⟨data, hUsed ▸ hLive⟩
  rw [hPassed.2] at hHas
  cases hHas

theorem slots_ne_free (hNot : htab.table i ≠ .free) :
    htab.slots i ≠ .free :=
  fun h => hNot (content_eq_free_iff.mp h)

/- A search that ends in an empty bucket has no such key. -/
theorem Kept.not_holds_of_empty (hKept : Kept signed t) {idx : Nat}
    (hComes : Comes signed t.htab key (.empty idx)) (data : CString) :
    ¬ OpenAddressing.Holds t.htab.slots key data := by
  generalize hProbe : Probe.empty idx = result at hComes
  cases hComes with
  | found i => cases hProbe
  | free i hFree hBefore =>
    refine hKept.sound.not_holds_of_free (j := i) (content_eq_free_iff.mpr hFree) ?_
    intro j hj
    exact hKept.not_live_of_passed (hBefore j hj)
  | round hFive hAll =>
    refine hKept.sound.not_holds_of_all ?_
    intro j hj
    exact hKept.not_live_of_passed (hAll j hj)

theorem tried_range
    (signed : Bool) (hSize : TableSize size) (key : CString) {j : Nat} (hj : j < size) :
    1 ≤ tried signed size key j ∧ tried signed size key j ≤ size := by
  rcases hSize.one_or_prime with hOne | ⟨-, hFive⟩
  · have hZero : j = 0 := by omega
    rw [hZero]
    exact firstIdx_mem signed hSize key
  · exact tried_mem hSize hFive key j

variable {data : CString}

section

variable (hKept : Kept signed t)
include hKept

/- The search for a key that is live finds its entry. -/
theorem Kept.probe_live (hLive : t.vars key = some data) :
    ∃ idx, probe signed key t.htab = some (.found idx) ∧
      t.htab.table idx = .live (firstIdx signed key t.htab.size) ⟨key, data⟩ ∧
      1 ≤ idx ∧ idx ≤ t.htab.size := by
  rcases probe_comes signed hKept.size hKept.zero key with ⟨result, hRun, hComes⟩
  have hHolds := (hKept.vars key data).mpr hLive
  cases result with
  | empty idx => exact absurd hHolds (hKept.not_holds_of_empty hComes data)
  | found idx =>
    refine ⟨idx, hRun, ?_⟩
    generalize hProbe : Probe.found idx = result at hComes
    cases hComes with
    | free => cases hProbe
    | round => cases hProbe
    | found i hi hHas =>
      cases hProbe
      rcases hasKey_iff.mp hHas with ⟨data', hAt⟩
      have hHolds' : OpenAddressing.Holds t.htab.slots key data' :=
        ⟨_, content_eq_live_iff.mpr ⟨_, hAt⟩⟩
      have hSame := hKept.sound.holds_unique hHolds hHolds'
      exact ⟨hSame ▸ hAt, tried_range signed hKept.size key hi⟩

/- The search for another key ends in an empty bucket. -/
theorem Kept.probe_absent (hAbsent : t.vars key = none) :
    ∃ idx, probe signed key t.htab = some (.empty idx) ∧ Comes signed t.htab key (.empty idx) := by
  rcases probe_comes signed hKept.size hKept.zero key with ⟨result, hRun, hComes⟩
  cases result with
  | empty idx => exact ⟨idx, hRun, hComes⟩
  | found idx =>
    generalize hProbe : Probe.found idx = result at hComes
    cases hComes with
    | free => cases hProbe
    | round => cases hProbe
    | found i hi hHas =>
      rcases hasKey_iff.mp hHas with ⟨data, hAt⟩
      have hHolds : OpenAddressing.Holds t.htab.slots key data :=
        ⟨_, content_eq_live_iff.mpr ⟨_, hAt⟩⟩
      rw [hKept.vars, hAbsent] at hHolds
      cases hHolds

----
-- Calls
----

theorem Kept.find_live
    (hooks : Hooks) (item : Item) (flag : Nat) (hLive : t.vars item.key = some data) :
    ∃ idx, hsearchR signed hooks item .find t.htab flag = some ⟨toInt idx, some idx, t.htab⟩ ∧
      t.htab.table idx = .live (firstIdx signed item.key t.htab.size) ⟨item.key, data⟩ ∧
      1 ≤ idx ∧ idx ≤ t.htab.size := by
  rcases hKept.probe_live hLive with ⟨idx, hRun, hAt, hMem⟩
  refine ⟨idx, ?_, hAt, hMem⟩
  unfold hsearchR overwriteEntry
  rw [hRun]
  dsimp only
  rw [hAt]

theorem Kept.find_absent
    (hooks : Hooks) (item : Item) (flag : Nat) (hAbsent : t.vars item.key = none) :
    hsearchR signed hooks item .find t.htab flag = some ⟨0, none, t.htab⟩ := by
  rcases hKept.probe_absent hAbsent with ⟨idx, hRun, -⟩
  unfold hsearchR
  rw [hRun]

theorem Kept.enter_live (hAccept : hooks.Accepting) (data : CString) (flag : Nat) {old : CString}
    (hLive : t.vars key = some old) :
    ∃ idx, hsearchR signed hooks ⟨key, some data⟩ .enter t.htab flag = some ⟨toInt idx, some idx,
          t.htab.set idx (.live (firstIdx signed key t.htab.size) ⟨key, data⟩)⟩ ∧
      t.htab.table idx = .live (firstIdx signed key t.htab.size) ⟨key, old⟩ := by
  rcases hKept.probe_live hLive with ⟨idx, hRun, hAt, -⟩
  refine ⟨idx, ?_, hAt⟩
  unfold hsearchR overwriteEntry
  rw [hRun]
  dsimp only
  rw [hAt]
  dsimp only
  rw [hAccept.1, hAccept.2]
  rfl

theorem Kept.enter_full (hooks : Hooks) (data : CString) (flag : Nat) (hAbsent : t.vars key = none)
    (hFull : t.htab.filled = t.htab.size) :
    hsearchR signed hooks ⟨key, some data⟩ .enter t.htab flag = some ⟨0, none, t.htab⟩ := by
  rcases hKept.probe_absent hAbsent with ⟨idx, hRun, -⟩
  unfold hsearchR
  rw [hRun]
  exact if_pos hFull

end

/- The table with a new entry. -/
def HsearchData.put (htab : HsearchData) (idx hval : Nat) (entry : Entry) :
    HsearchData :=
  { htab.set idx (.live hval entry) with
    filled := u32 (htab.filled + 1) }

/-
  Where there is room, a new key goes into the first slot
  tried if that is deleted, else where the search ended.
-/
theorem Kept.enter_new (hKept : Kept signed t) (hAccept : hooks.Accepting)
    (data : CString) (flag : Nat) (hAbsent : t.vars key = none)
    (hRoom : t.htab.filled ≠ t.htab.size) :
    ∃ idx idx', Comes signed t.htab key (.empty idx) ∧
      hsearchR signed hooks ⟨key, some data⟩ .enter t.htab flag =
        some ⟨1, some idx', t.htab.put idx' (firstIdx signed key t.htab.size) ⟨key, data⟩⟩ ∧
      ((t.htab.table (firstIdx signed key t.htab.size) = .deleted ∧
        idx' = firstIdx signed key t.htab.size) ∨
      (t.htab.table (firstIdx signed key t.htab.size) ≠ .deleted ∧ idx' = idx)) := by
  rcases hKept.probe_absent hAbsent with ⟨idx, hRun, hComes⟩
  refine ⟨idx,
    if t.htab.table (firstIdx signed key t.htab.size) = .deleted
      then firstIdx signed key t.htab.size
      else idx,
    hComes, ?_, ?_⟩
  · unfold hsearchR
    rw [hRun]
    dsimp only
    rw [if_neg hRoom]
    unfold createEntry
    dsimp only
    rw [hAccept.1, hAccept.2]
    rfl
  · by_cases hDeleted : t.htab.table (firstIdx signed key t.htab.size) = .deleted
    · exact Or.inl ⟨hDeleted, if_pos hDeleted⟩
    · exact Or.inr ⟨hDeleted, if_neg hDeleted⟩

theorem Kept.delete_absent
    (hKept : Kept signed t) (hooks : Hooks) (flag : Nat) (hAbsent : t.vars key = none) :
    hdeleteR signed hooks key t.htab flag = some (0, t.htab) := by
  unfold hdeleteR
  rw [hKept.find_absent hooks ⟨key, none⟩ 0 hAbsent]
  rfl

/- Deleting an entry needs an index that is not negative. -/
theorem Kept.delete_live (hKept : Kept signed t) (hAccept : hooks.Accepting) (flag : Nat)
    (hLive : t.vars key = some data) :
    ∃ idx, t.htab.table idx = .live (firstIdx signed key t.htab.size) ⟨key, data⟩ ∧
      hdeleteR signed hooks key t.htab flag =
        if idx < 2 ^ 31 then
          some (1, t.htab.hdelete idx)
        else
          none := by
  rcases hKept.find_live hooks ⟨key, none⟩ 0 hLive with ⟨idx, hRun, hAt, hPos, hLe⟩
  refine ⟨idx, hAt, ?_⟩
  have hLt := hKept.size.lt
  unfold hdeleteR
  rw [hRun]
  dsimp only [map_some]
  rw [hAt]
  dsimp only
  rw [hAccept.1, hAccept.2]
  unfold toInt
  by_cases hIdx : idx < 2 ^ 31
  · rw [if_pos (show idx % 2 ^ 32 < 2 ^ 31 by omega), Nat.mod_eq_of_lt (show idx < 2 ^ 32 by omega),
      if_neg (by omega), if_pos hIdx, if_neg nofun,
      if_neg (by omega), if_neg nofun]
    rfl
  · rw [if_neg (show ¬ idx % 2 ^ 32 < 2 ^ 31 by omega),
      Nat.mod_eq_of_lt (show idx < 2 ^ 32 by omega),
      if_neg (by omega), if_neg hIdx, if_neg nofun,
      if_pos (by omega)]

----
-- What A Call Keeps
----

theorem live_update_some (t : Tracked) (htab : HsearchData) (key data : CString) :
    Tracked.live ⟨htab, update t.vars key (some data)⟩ = insert key t.live := by
  ext k
  unfold Tracked.live
  rw [Set.mem_insert_iff, Set.mem_ofPred_eq, Set.mem_ofPred_eq]
  dsimp only
  by_cases hk : k = key
  · rw [hk, update_self]
    exact Iff.intro (fun _ => Or.inl rfl) (fun _ => nofun)
  · rw [update_of_ne hk]
    exact (or_iff_right hk).symm

theorem live_update_none (t : Tracked) (htab : HsearchData) (key : CString) :
    Tracked.live ⟨htab, update t.vars key none⟩ = t.live \ {key} := by
  ext k
  unfold Tracked.live
  rw [Set.mem_sdiff, Set.mem_singleton_iff, Set.mem_ofPred_eq, Set.mem_ofPred_eq]
  dsimp only
  by_cases hk : k = key
  · rw [hk, update_self]
    exact Iff.intro (fun h => absurd rfl h) (fun h => absurd rfl h.2)
  · rw [update_of_ne hk]
    exact Iff.intro (fun h => ⟨h, hk⟩) (fun h => h.1)

/- The map after a change at one key. -/
theorem update_eq_some_iff
    {vars : CString → Option CString} {key k v : CString} {new : Option CString} :
    update vars key new k = some v ↔ (k = key ∧ new = some v) ∨ (k ≠ key ∧ vars k = some v)
      := by
  by_cases hk : k = key
  · subst hk
    rw [update_self]
    exact Iff.intro (fun h => Or.inl ⟨rfl, h⟩) (fun h => h.elim And.right (fun h => absurd rfl h.1))
  · rw [update_of_ne hk]
    exact Iff.intro (fun h => Or.inr ⟨hk, h⟩) (fun h => h.elim (fun h => absurd h.1 hk) And.right)

section

variable (hKept : Kept signed t)
include hKept

theorem Kept.overwrite {idx : Nat} {old : CString}
    (hAt : t.htab.table idx = .live (firstIdx signed key t.htab.size) ⟨key, old⟩) (data : CString) :
    Kept signed
      ⟨t.htab.set idx (.live (firstIdx signed key t.htab.size) ⟨key, data⟩),
        update t.vars key (some data)⟩ := by
  have hContent : t.htab.slots idx = .live key old := content_eq_live_iff.mpr ⟨_, hAt⟩
  rcases hKept.sound.overwrite (w := data) hContent with
    ⟨hSound, hHolds⟩
  have hSlots := slots_set t.htab idx (.live (firstIdx signed key t.htab.size) ⟨key, data⟩)
  have hIn : key ∈ t.live := by
    have hOld := (hKept.vars key old).mp ⟨idx, hContent⟩
    intro hNone
    rw [hOld] at hNone
    cases hNone
  have hLive := live_update_some t
    (t.htab.set idx (.live (firstIdx signed key t.htab.size) ⟨key, data⟩))
    key data
  rw [Set.insert_eq_of_mem hIn] at hLive
  refine ⟨hKept.size, ?_, ?_, ?_, ?_, hKept.filled_le, ?_, ?_⟩
  · rw [set_of_ne]
    · exact hKept.zero
    · rintro rfl
      rw [hKept.zero] at hAt
      cases hAt
  · intro i used entry h
    by_cases hi : i = idx
    · subst hi
      rw [set_self] at h
      cases h
      rfl
    · rw [set_of_ne _ _ hi] at h
      exact hKept.hashed i used entry h
  · rw [hSlots]
    exact hSound
  · intro k v
    rw [hSlots, update_eq_some_iff, ← hKept.vars k v]
    refine (hHolds k v).trans ?_
    rw [Option.some.injEq, eq_comm (a := v)]
  · rw [hLive]
    exact hKept.finite
  · rw [hLive]
    exact hKept.filled

theorem Kept.put {idx j : Nat}
    (hAbsent : t.vars key = none) (hRoom : t.htab.filled ≠ t.htab.size) (hj : j < t.htab.size)
    (hTried : tried signed t.htab.size key j = idx)
    (hBefore : ∀ j', j' < j → t.htab.table (tried signed t.htab.size key j') ≠ .free)
    (hDead : t.htab.entryAt idx = none) (data : CString) :
    Kept signed
      ⟨t.htab.put idx (firstIdx signed key t.htab.size) ⟨key, data⟩,
        update t.vars key (some data)⟩ := by
  have hNone : ∀ v, ¬ OpenAddressing.Holds t.htab.slots key v := by
    intro v h
    rw [hKept.vars, hAbsent] at h
    cases h
  have hNotLive : ∀ k v, t.htab.slots idx ≠ .live k v := by
    intro k v h
    rcases content_eq_live_iff.mp h with ⟨used, hLive⟩
    rw [entryAt_eq_some_iff.mpr ⟨used, hLive⟩] at hDead
    cases hDead
  rcases hKept.sound.put (v := data) hNone hj hTried
    (fun j' hj' => slots_ne_free (hBefore j' hj')) hNotLive
    with ⟨hSound, hHolds⟩
  have hSlots := slots_set t.htab idx (.live (firstIdx signed key t.htab.size) ⟨key, data⟩)
  have hNotIn : key ∉ t.live := fun h => h hAbsent
  have hLive := live_update_some t
    (t.htab.put idx (firstIdx signed key t.htab.size) ⟨key, data⟩) key data
  have hLe := hKept.filled_le
  have hLt := hKept.size.lt
  have hFilled : u32 (t.htab.filled + 1) = t.htab.filled + 1 := u32_of_lt (by omega)
  have hRange := tried_range signed hKept.size key hj
  unfold HsearchData.put at hLive ⊢
  rw [hFilled] at hLive ⊢
  refine ⟨hKept.size, ?_, ?_, ?_, ?_, ?_, ?_, ?_⟩
  · rw [set_of_ne _ _ (by omega)]
    exact hKept.zero
  · intro i used entry h
    by_cases hi : i = idx
    · subst hi
      rw [set_self] at h
      cases h
      rfl
    · rw [set_of_ne _ _ hi] at h
      exact hKept.hashed i used entry h
  · exact hSlots ▸ hSound
  · intro k v
    rw [update_eq_some_iff, ← hKept.vars k v]
    refine ((hSlots ▸ hHolds) k v).trans ?_
    rw [Option.some.injEq, eq_comm (a := v)]
  · dsimp only [set_size]
    omega
  · rw [hLive]
    exact hKept.finite.insert key
  · rw [hLive, Set.ncard_insert_of_notMem hNotIn hKept.finite, ← hKept.filled]

theorem Kept.bury
    {idx : Nat} (hAt : t.htab.table idx = .live (firstIdx signed key t.htab.size) ⟨key, data⟩) :
    Kept signed ⟨t.htab.hdelete idx, update t.vars key none⟩ := by
  have hContent : t.htab.slots idx = .live key data := content_eq_live_iff.mpr ⟨_, hAt⟩
  rcases hKept.sound.bury hContent with ⟨hSound, hHolds⟩
  have hSlots := slots_set t.htab idx .deleted
  have hIn : key ∈ t.live := by
    have hOld := (hKept.vars key data).mp ⟨idx, hContent⟩
    intro hNone
    rw [hOld] at hNone
    cases hNone
  have hLive := live_update_none t (t.htab.hdelete idx) key
  have hLe := hKept.filled_le
  have hLt := hKept.size.lt
  have hPos : 0 < t.htab.filled := by
    rw [hKept.filled]
    exact (Set.ncard_pos hKept.finite).mpr ⟨key, hIn⟩
  have hFilled : u32 (t.htab.filled + 2 ^ 32 - 1) = t.htab.filled - 1 := by
    unfold u32
    omega
  unfold HsearchData.hdelete at hLive ⊢
  rw [hFilled] at hLive ⊢
  refine ⟨hKept.size, ?_, ?_, ?_, ?_, ?_, ?_, ?_⟩
  · rw [set_of_ne]
    · exact hKept.zero
    · rintro rfl
      rw [hKept.zero] at hAt
      cases hAt
  · intro i used entry h
    by_cases hi : i = idx
    · subst hi
      rw [set_self] at h
      cases h
    · rw [set_of_ne _ _ hi] at h
      exact hKept.hashed i used entry h
  · exact hSlots ▸ hSound
  · intro k v
    rw [update_eq_some_iff, ← hKept.vars k v]
    refine ((hSlots ▸ hHolds) k v).trans ?_
    exact Iff.intro Or.inr (fun h => h.elim (fun h => nomatch h.2) id)
  · dsimp only [set_size]
    omega
  · rw [hLive]
    exact hKept.finite.sdiff
  · rw [hLive, Set.ncard_sdiff_singleton_of_mem hIn, ← hKept.filled]

theorem Kept.isMap (hAccept : hooks.Accepting) :
    IsMap signed hooks t where
  find item flag := by
    cases hVars : t.vars item.key with
    | none => exact ⟨_, hKept.find_absent hooks item flag hVars, rfl, rfl⟩
    | some data =>
      rcases hKept.find_live hooks item flag hVars with ⟨idx, hRun, hAt, -⟩
      refine ⟨_, hRun, rfl, ?_⟩
      rw [map_some, map_some, entryAt_eq_some_iff.mpr ⟨_, hAt⟩]
  finite := hKept.finite
  filled := hKept.filled
  enter key data flag := by
    cases hVars : t.vars key with
    | some old =>
      rcases hKept.enter_live hAccept data flag hVars with ⟨idx, hRun, -⟩
      exact ⟨_, hRun, nofun⟩
    | none =>
      by_cases hFull : t.htab.filled = t.htab.size
      · refine ⟨_, hKept.enter_full hooks data flag hVars hFull, fun _ => ?_⟩
        rw [← hKept.filled, hFull]
      · rcases hKept.enter_new hAccept data flag hVars hFull with ⟨idx, idx', -, hRun, -⟩
        exact ⟨_, hRun, nofun⟩

end

theorem entryAt_eq_none_of_free (hFree : htab.table i = .free) :
    htab.entryAt i = none := by
  unfold HsearchData.entryAt
  rw [hFree]

theorem entryAt_eq_none_of_deleted (hDeleted : htab.table i = .deleted) :
    htab.entryAt i = none := by
  unfold HsearchData.entryAt
  rw [hDeleted]

section

variable (hKept : Kept signed t)
include hKept

theorem Kept.mem_live_of_entryAt
    {i : Nat} {entry : Entry} (hEntry : t.htab.entryAt i = some entry) :
    t.vars entry.key = some entry.data := by
  rcases entryAt_eq_some_iff.mp hEntry with ⟨used, hAt⟩
  exact (hKept.vars _ _).mp ⟨i, content_eq_live_iff.mpr ⟨used, hAt⟩⟩

/- In a table of one slot, that is live only if it is full. -/
theorem Kept.not_live_of_one
    (hOne : t.htab.size = 1) (hRoom : t.htab.filled ≠ t.htab.size) (i : Nat) :
    t.htab.entryAt i = none := by
  cases hEntry : t.htab.entryAt i with
  | none => rfl
  | some entry =>
    have hIn : entry.key ∈ t.live := by
      intro hNone
      rw [hKept.mem_live_of_entryAt hEntry] at hNone
      cases hNone
    have hPos := (Set.ncard_pos hKept.finite).mpr ⟨_, hIn⟩
    have hLe := hKept.filled_le
    rw [← hKept.filled] at hPos
    omega

section

variable (hAccept : hooks.Accepting)
include hAccept

variable {flag : Nat}

/- An entered key keeps the table under the condition. -/
theorem Kept.apply_enter (hKeeps : Keeps signed t (.enter key data flag)) :
    ∃ t', t.apply signed hooks (.enter key data flag) = some t' ∧ Kept signed t' := by
  unfold Tracked.apply
  cases hVars : t.vars key with
  | some old =>
    rcases hKept.enter_live hAccept data flag hVars with ⟨idx, hRun, hAt⟩
    dsimp only
    rw [hRun]
    exact ⟨_, rfl, hKept.overwrite hAt data⟩
  | none =>
    by_cases hFull : t.htab.filled = t.htab.size
    · dsimp only
      rw [hKept.enter_full hooks data flag hVars hFull]
      exact ⟨_, rfl, hKept⟩
    rcases hKept.enter_new hAccept data flag hVars hFull with ⟨idx, idx', hComes, hRun, hWhere⟩
    dsimp only
    rw [hRun]
    refine ⟨_, rfl, ?_⟩
    have hPos : 0 < t.htab.size := by
      have hLe := hKept.filled_le
      omega
    rcases hWhere with ⟨hDeleted, rfl⟩ | ⟨hNotDeleted, rfl⟩
    · exact hKept.put hVars hFull hPos rfl (fun j' h => absurd h (Nat.not_lt_zero j'))
        (entryAt_eq_none_of_deleted hDeleted) data
    generalize hProbe : Probe.empty idx' = result at hComes
    cases hComes with
    | found => cases hProbe
    | free i hFree hBefore hWithin =>
      cases hProbe
      rcases hWithin with hLt | ⟨hOne, rfl⟩
      · exact hKept.put hVars hFull hLt rfl (fun j' hj' => (hBefore j' hj').1)
          (entryAt_eq_none_of_free hFree) data
      -- The only slot is in use or deleted, but the table
      -- is not full.
      · have hNotLive := hKept.not_live_of_one hOne hFull (firstIdx signed key t.htab.size)
        have hNotFree := (hBefore 0 Nat.one_pos).1
        unfold HsearchData.entryAt at hNotLive
        cases hSlot : t.htab.table (firstIdx signed key t.htab.size) with
        | free => exact absurd hSlot hNotFree
        | deleted => exact absurd hSlot hNotDeleted
        | live used entry =>
          rw [hSlot] at hNotLive
          cases hNotLive
    | round hFive hAll =>
      cases hProbe
      rcases hKeeps hVars hFull with ⟨i, hLow, hHigh, hFree⟩ | hNotLive
      · rcases @exists_tried_eq signed _ hKept.size hFive key _ ⟨hLow, hHigh⟩ with ⟨j, hj, hEq⟩
        exact absurd (hEq ▸ hFree) (hAll j hj).1
      · exact hKept.put hVars hFull hPos rfl (fun j' h => absurd h (Nat.not_lt_zero j'))
          hNotLive data

theorem Kept.apply_delete (hKeeps : Keeps signed t (.delete key flag)) :
    ∃ t', t.apply signed hooks (.delete key flag) = some t' ∧ Kept signed t' := by
  unfold Tracked.apply
  dsimp only
  cases hVars : t.vars key with
  | none =>
    rw [hKept.delete_absent hooks flag hVars]
    refine ⟨_, rfl, ?_⟩
    rw [show update t.vars key none = t.vars by
      rw [← hVars, update_eq_self]]
    exact hKept
  | some data =>
    rcases hKept.delete_live hAccept flag hVars with ⟨idx, hAt, hRun⟩
    have hLt := hKeeps idx data (entryAt_eq_some_iff.mpr ⟨_, hAt⟩)
    rw [hRun, if_pos hLt]
    exact ⟨_, rfl, hKept.bury hAt⟩

theorem Kept.apply {op : Op} (hKeeps : Keeps signed t op) :
    ∃ t', t.apply signed hooks op = some t' ∧ Kept signed t' := by
  cases op with
  | enter key data flag => exact hKept.apply_enter hAccept hKeeps
  | delete key flag => exact hKept.apply_delete hAccept hKeeps
  | find item flag =>
    rcases (hKept.isMap hAccept).find item flag with ⟨r, hRun, hSame, -⟩
    unfold Tracked.apply
    dsimp only
    rw [hRun]
    refine ⟨_, rfl, ?_⟩
    dsimp only
    rw [hSame]
    exact hKept

/-
  Without the condition, an entered key takes the place of
  another one, which is then not found.
-/
theorem Kept.keeps_of_enter
    {t' : Tracked} (hApply : t.apply signed hooks (.enter key data flag) = some t')
    (hMap : IsMap signed hooks t') :
    Keeps signed t (.enter key data flag) := by
  intro hVars hFull
  by_contra hNot
  rw [not_or] at hNot
  rcases hNot with ⟨hNoFree, hFirstLive⟩
  rcases ne_none_iff_exists'.mp hFirstLive with ⟨entry, hEntry⟩
  rcases hKept.enter_new hAccept data flag hVars hFull with ⟨idx, idx', hComes, hRun, hWhere⟩
  have hIdx : idx' = firstIdx signed key t.htab.size := by
    rcases hWhere with ⟨-, hEq⟩ | ⟨-, hEq⟩
    · exact hEq
    rw [hEq]
    generalize hProbe : Probe.empty idx = result at hComes
    cases hComes with
    | found => cases hProbe
    | round => cases hProbe; rfl
    | free i hFree hBefore hWithin =>
      exfalso
      rcases hWithin with hLt | ⟨hOne, -⟩
      · have hMem := tried_range signed hKept.size key hLt
        exact hNoFree ⟨_, hMem.1, hMem.2, hFree⟩
      · exact hFirstLive (hKept.not_live_of_one hOne hFull _)
  rcases entryAt_eq_some_iff.mp hEntry with ⟨used, hAt⟩
  have hOther := hKept.mem_live_of_entryAt hEntry
  have hNe : entry.key ≠ key := by
    intro hEq
    rw [hEq, hVars] at hOther
    cases hOther
  unfold Tracked.apply at hApply
  dsimp only at hApply
  rw [hRun] at hApply
  cases hApply
  rcases hMap.find ⟨entry.key, none⟩ flag with ⟨r, -, -, hFound⟩
  dsimp only [isSome_some] at hFound
  rw [if_pos rfl, update_of_ne hNe, hOther] at hFound
  rcases map_eq_some_iff.mp hFound with ⟨i, -, hAfter⟩
  rcases entryAt_eq_some_iff.mp hAfter with ⟨used', hAt'⟩
  unfold HsearchData.put at hAt'
  by_cases hi : i = idx'
  · rw [hi, set_self] at hAt'
    cases hAt'
    exact hNe rfl
  · rw [set_of_ne _ _ hi] at hAt'
    have hSame := hKept.sound.unique i (firstIdx signed key t.htab.size) entry.key entry.data
      entry.data (content_eq_live_iff.mpr ⟨_, hAt'⟩)
      (content_eq_live_iff.mpr ⟨_, hAt⟩)
    exact hi (hSame.trans hIdx.symm)

theorem Kept.keeps_of_isMap {op : Op} {t' : Tracked}
    (hApply : t.apply signed hooks op = some t') (hMap : IsMap signed hooks t') :
    Keeps signed t op := by
  cases op with
  | enter key data flag => exact hKept.keeps_of_enter hAccept hApply hMap
  | find item flag => exact trivial
  | delete key flag =>
    intro i data hEntry
    have hVars := hKept.mem_live_of_entryAt hEntry
    rcases entryAt_eq_some_iff.mp hEntry with ⟨used, hAt⟩
    rcases hKept.delete_live hAccept flag hVars with ⟨idx, hIdx, hRun⟩
    have hSame := hKept.sound.unique i idx key data data (content_eq_live_iff.mpr ⟨_, hAt⟩)
      (content_eq_live_iff.mpr ⟨_, hIdx⟩)
    by_contra hGe
    unfold Tracked.apply at hApply
    dsimp only at hApply
    rw [hRun, if_neg (by omega)] at hApply
    cases hApply

end

end

----
-- Whole Runs
----

theorem Kept.created {size : Nat} (hSize : TableSize size) :
    Kept signed ⟨⟨fun _ => .free, size, 0⟩, fun _ => none⟩ where
  size := hSize
  zero := rfl
  hashed _ _ _ h := nomatch h
  sound := OpenAddressing.Sound.empty
  vars key data := by
    constructor
    · rintro ⟨i, h⟩
      cases h
    · intro h
      cases h
  filled_le := Nat.zero_le size
  finite := by
    unfold Tracked.live
    simp
  filled := by
    unfold Tracked.live
    simp

theorem Kept.of_reachableBy {size : Nat} (hAccept : hooks.Accepting) (hSize : TableSize size)
    (hReach : (tableSystem signed hooks ⟨fun _ => .free, size, 0⟩).ReachableBy (Keeps signed) t) :
    Kept signed t := by
  refine hReach.invariant ?_ ?_
  · rintro s rfl
    exact Kept.created hSize
  · intro s op s' hBefore hKeeps hStep
    rcases hBefore.apply hAccept hKeeps with ⟨s'', hApply, hAfter⟩
    rw [show s.apply signed hooks op = some s' from hStep] at hApply
    cases hApply
    exact hAfter

/-
  Creating a table ends.  In every run whose calls meet the
  condition the table is the map of the calls so far, and a
  further call leaves such a table if and only if it meets
  the condition.
-/
theorem hsearch_finite_map (signed : Bool) (hooks : Hooks) (hAccept : hooks.Accepting) (nel : Nat) :
    ∃ htab, hcreateR nel = some htab ∧
      ∀ t, (tableSystem signed hooks htab).ReachableBy (Keeps signed) t → IsMap signed hooks t ∧
        ∀ op, (∃ t', t.apply signed hooks op = some t' ∧ IsMap signed hooks t') ↔
          Keeps signed t op := by
  rcases hcreateR_ends nel with ⟨size, hSize, hCreate⟩
  refine ⟨_, hCreate, fun t hReach => ?_⟩
  have hKept := Kept.of_reachableBy hAccept hSize hReach
  refine ⟨hKept.isMap hAccept, fun op => ⟨?_, ?_⟩⟩
  · rintro ⟨t', hApply, hMap⟩
    exact hKept.keeps_of_isMap hAccept hApply hMap
  · intro hKeeps
    rcases hKept.apply hAccept hKeeps with ⟨t', hApply, hAfter⟩
    exact ⟨t', hApply, hAfter.isMap hAccept⟩

/- Hooks that are not there. -/
def noHooks : Hooks :=
  ⟨fun _ _ _ _ => false, fun _ _ _ _ => false⟩

/- The variables of one letter. -/
def letter (c : UInt8) (hc : 0 ∉ [c]) : CString := ⟨[c], hc⟩

def varA : CString := letter 97 (by decide)
def varB : CString := letter 98 (by decide)
def varC : CString := letter 99 (by decide)
def varE : CString := letter 101 (by decide)
def varF : CString := letter 102 (by decide)
def varG : CString := letter 103 (by decide)

/- A call before which a slot of a small table is free. -/
def HasFree (t : Tracked) (_ : Op) : Prop :=
  t.htab.size < 2 ^ 31 ∧ ∃ i ≤ t.htab.size, 1 ≤ i ∧ t.htab.table i = .free

instance (t : Tracked) (op : Op) : Decidable (HasFree t op) :=
  inferInstanceAs (Decidable (_ ∧ _))

theorem Kept.keeps {op : Op} (hKept : Kept signed t) (hFreeSlot : HasFree t op) : Keeps signed t op := by
  cases op with
  | enter key data flag =>
    rcases hFreeSlot.2 with ⟨i, hLe, hPos, hFree⟩
    exact fun _ _ => Or.inl ⟨i, hPos, hLe, hFree⟩
  | find item flag => trivial
  | delete key flag =>
    intro i data hEntry
    have hSlot := content_eq_live_iff.mpr (entryAt_eq_some_iff.mp hEntry)
    rcases hKept.sound.reachable i key data hSlot with ⟨j, hj, rfl, -⟩
    exact Nat.lt_of_le_of_lt (tried_range signed hKept.size key hj).2 hFreeSlot.1

theorem noHooks_accepting : noHooks.Accepting :=
  ⟨fun _ _ _ _ => rfl, fun _ _ _ _ => rfl⟩

/- The runs of a table of five slots. -/
theorem keeps_of_hasFree
    (hReach : (tableSystem false noHooks ⟨fun _ => .free, 5, 0⟩).ReachableBy HasFree t) :
    (tableSystem false noHooks ⟨fun _ => .free, 5, 0⟩).ReachableBy (Keeps false) t ∧
      Kept false t := by
  have hFive : TableSize 5 := ⟨by decide, Or.inr ⟨by decide, Nat.le_refl 5⟩⟩
  have hKeeps :
      (tableSystem false noHooks ⟨fun _ => .free, 5, 0⟩).ReachableBy (Keeps false) t := by
    refine hReach.invariant (fun _ => .start) ?_
    intro s op s' hBefore hFreeSlot hStep
    have hKept := Kept.of_reachableBy noHooks_accepting hFive hBefore
    exact .next hBefore (hKept.keeps hFreeSlot) hStep
  exact ⟨hKeeps, Kept.of_reachableBy noHooks_accepting hFive hKeeps⟩

/- The keys a and f have the same hash value. -/
theorem hsearch_finite_map_collided :
    ∃ t, IsMap false noHooks t ∧ t.vars varA = none ∧ t.vars varF = some varG := by
  rcases hsearch_finite_map false noHooks noHooks_accepting 5 with ⟨htab, hCreate, hRuns⟩
  cases (show hcreateR 5 = some ⟨fun _ => .free, 5, 0⟩ from rfl).symm.trans hCreate
  rcases TransitionSystem.exists_reachableBy (Tracked.apply false noHooks) HasFree
      ⟨⟨fun _ => .free, 5, 0⟩, fun _ => none⟩
      [.enter varA varB 0, .enter varF varB 0, .delete varA 0, .enter varF varG 0]
      (fun t => t.vars varA = none ∧ t.vars varF = some varG) (by decide +kernel)
    with ⟨t, hReach, hVars⟩
  exact ⟨t, (hRuns t (keeps_of_hasFree hReach).1).1, hVars⟩

/-
  In a table of five slots with a, b, c, e and f, of which f
  is deleted again, entering g overwrites b.
-/
theorem hsearch_overwrites_live :
    ∃ htab t, hcreateR 5 = some htab ∧ (tableSystem false noHooks htab).Reachable t ∧
      t.vars varB = some varA ∧
      (hsearchR false noHooks ⟨varB, none⟩ .find t.htab 0).map Searched.retval = some none := by
  refine ⟨⟨fun _ => .free, 5, 0⟩, ?_⟩
  have hRun :=
    TransitionSystem.exists_reachableBy (Tracked.apply false noHooks) (fun _ _ => True)
      ⟨⟨fun _ => .free, 5, 0⟩, fun _ => none⟩
      [.enter varA varA 0, .enter varB varA 0, .enter varC varA 0, .enter varE varA 0,
        .enter varF varA 0, .delete varF 0, .enter varG varA 0]
      (fun t => t.vars varB = some varA ∧
        (hsearchR false noHooks ⟨varB, none⟩ .find t.htab 0).map Searched.retval = some none)
      (by decide +kernel)
  rcases hRun with ⟨t, hReach, hVars, hLost⟩
  exact ⟨t, rfl, hReach, hVars, hLost⟩

end Uboot.Env
