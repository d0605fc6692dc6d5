import BootFirmware.Uboot.Env.Probing

/-
  Walking through the entries that match a prefix.

  Entries lie in the slots 1 to the size of the table, but the
  walk ends before the last of them.

  Key definitions include:
    * `hmatchR` and `hmatchAll`
    * `Enumerates`
    * `Within`

  The main result is `hmatch_enumerates`.
-/

----
-- hmatch_r
----

namespace Uboot.Env.Alloc

open Option

/-
  Whether `strncmp` finds the string at the start of a key.
  It reads nothing of the key for an empty string.
-/
def strncmpEq (matched : CString) (key : Option CString) :
    Option Bool :=
  if matched.bytes = [] then some true
  else key.map fun k => matched.bytes.isPrefixOf k.bytes

/- The tests of the loop. -/
def Cell.isMatch (cell : Cell) (matched : CString) :
    Option Bool :=
  match cell with
  | .live used entry =>
    if toInt used ≤ 0 then some false
    else strncmpEq matched entry.key
  | _ => some false

/- The loop over the `left` indices from `idx` on. -/
def hmatchLoop (matched : CString) (t : Table) :
    Nat → Nat → Option (Option Nat)
  | 0, _ => some none
  | left + 1, idx =>
    match (t.table idx).isMatch matched with
    | none => none
    | some true => some (some idx)
    | some false => hmatchLoop matched t left (idx + 1)

/- A return value, with the index of the entry `*retval`. -/
def hmatchR (matched : CString) (lastIdx : Int) (t : Table) :
    Option (Int × Option Nat) :=
  -- The largest `int` has no successor.
  if lastIdx = 2 ^ 31 - 1 then
    none
  else
    let idx := ((lastIdx + 1) % 2 ^ 32).toNat
    match hmatchLoop matched t (t.size - idx) idx with
    | none => none
    | some none => some (0, none)
    | some (some idx) => some (toInt idx, some idx)

/-
  Calls that pass each returned index back, until it is 0,
  and the entries that they return.
-/
def hmatchAll (matched : CString) (t : Table) :
    Nat → Int → Option (List Nat)
  | 0, _ => none
  | calls + 1, lastIdx =>
    match hmatchR matched lastIdx t with
    | none => none
    | some (idx, retval) =>
      if idx = 0 then
        some []
      else
        (hmatchAll matched t calls idx).map fun rest => retval.toList ++ rest

----
-- Entries That Match
----

/- A live entry whose key starts with the string. -/
def Matches (matched : CString) (t : Table)
    (i : Nat) : Prop :=
  ∃ used entry key, t.table i = .live used entry ∧ entry.key = some key ∧
    matched.bytes <+: key.bytes

/- The calls return the matching entries, once each. -/
def Enumerates (matched : CString)
    (t : Table) : Prop :=
  ∃ calls list, hmatchAll matched t calls 0 = some list ∧ list.Nodup ∧
    ∀ i, i ∈ list ↔ Matches matched t i

/-
  The condition: the matching entries lie in slots before the
  last one, and their indices and hash values are those of an
  `int` with a successor; and there is no entry without a key
  among the slots visited.
-/
structure Within
    (matched : CString)
    (t : Table) : Prop where
  slot : ∀ i, Matches matched t i → 1 ≤ i ∧ i < t.size ∧ i ≠ 2 ^ 31 - 1
  used : ∀ i used entry, Matches matched t i → t.table i = .live used entry → used < 2 ^ 31
  key : ∀ i used entry, 1 ≤ i → i < t.size →
    t.table i = .live used entry → used < 2 ^ 31 → entry.key ≠ none

variable {signed : Bool} {t : Table} {matched : CString}

theorem Laid.used_seen_iff
    (hLaid : Laid signed t) {i used : Nat} {entry : Copied} (hAt : t.table i = .live used entry) :
    0 < toInt used ↔ used < 2 ^ 31 := by
  rcases hLaid.live i used entry hAt with ⟨key, -, hUsed, -⟩
  have hMem := firstIdx_mem signed hLaid.size key
  have hLt := hLaid.size.lt
  rw [← hUsed] at hMem
  unfold toInt
  split <;> omega

variable {i : Nat}

theorem Laid.matches_of_isMatch
    (hLaid : Laid signed t) (hMatch : (t.table i).isMatch matched = some true)
    (hKey : ∀ used entry, t.table i = .live used entry → used < 2 ^ 31 → entry.key ≠ none) :
    Matches matched t i := by
  unfold Cell.isMatch at hMatch
  cases hAt : t.table i with
  | free =>
    rw [hAt] at hMatch
    cases hMatch
  | deleted =>
    rw [hAt] at hMatch
    cases hMatch
  | live used entry =>
    rw [hAt] at hMatch
    dsimp only at hMatch
    split at hMatch
    · cases hMatch
    rename_i hUsed
    have hLt := (hLaid.used_seen_iff hAt).mp (Int.not_le.mp hUsed)
    rcases ne_none_iff_exists'.mp (hKey used entry hAt hLt) with ⟨key, hSome⟩
    refine ⟨used, entry, key, hAt, hSome, ?_⟩
    unfold strncmpEq at hMatch
    split at hMatch
    · rename_i hEmpty
      rw [hEmpty]
      exact List.nil_prefix
    · rw [hSome] at hMatch
      exact List.isPrefixOf_iff_prefix.mp (Option.some.inj hMatch)

theorem Laid.isMatch_of_matches (hLaid : Laid signed t) (hMatch : Matches matched t i)
    (hUsed : ∀ used entry, t.table i = .live used entry → used < 2 ^ 31) :
    (t.table i).isMatch matched = some true := by
  rcases hMatch with ⟨used, entry, key, hAt, hKey, hPrefix⟩
  have hPos := (hLaid.used_seen_iff hAt).mpr (hUsed used entry hAt)
  unfold Cell.isMatch strncmpEq
  rw [hAt]
  dsimp only
  rw [if_neg (Int.not_le.mpr hPos), hKey]
  split
  · rfl
  · exact congrArg some (List.isPrefixOf_iff_prefix.mpr hPrefix)

----
-- One Call
----

theorem hmatchLoop_some
    {left idx : Nat} {result : Option Nat} (hRun : hmatchLoop matched t left idx = some result) :
    (result = none ∧ ∀ i, idx ≤ i → i < idx + left → (t.table i).isMatch matched = some false) ∨
    ∃ i, result = some i ∧ idx ≤ i ∧ i < idx + left ∧ (t.table i).isMatch matched = some true ∧
      ∀ i', idx ≤ i' → i' < i → (t.table i').isMatch matched = some false := by
  induction left generalizing idx with
  | zero =>
    refine Or.inl ⟨(Option.some.inj hRun).symm, ?_⟩
    intro i hLow hHigh
    omega
  | succ left ih =>
    unfold hmatchLoop at hRun
    cases hMatch : (t.table idx).isMatch matched with
    | none =>
      rw [hMatch] at hRun
      cases hRun
    | some found =>
      rw [hMatch] at hRun
      cases found with
      | true =>
        cases hRun
        exact Or.inr ⟨idx, rfl, Nat.le_refl idx, by omega, hMatch,
          fun i' hLow hHigh => absurd hLow (by omega)⟩
      | false =>
        have hFirst : ∀ i', idx ≤ i' → (idx + 1 ≤ i' → (t.table i').isMatch matched = some false) →
            (t.table i').isMatch matched = some false := by
          intro i' hLow hRest
          by_cases hEq : i' = idx
          · rw [hEq]
            exact hMatch
          · exact hRest (by omega)
        rcases ih hRun with ⟨hNone, hAll⟩ | ⟨i, hSome, hLow, hHigh, hFound, hBefore⟩
        · refine Or.inl ⟨hNone, ?_⟩
          intro i hLow hHigh
          exact hFirst i hLow fun h => hAll i h (by omega)
        · refine Or.inr ⟨i, hSome, by omega, by omega, hFound, ?_⟩
          intro i' hLow' hHigh'
          exact hFirst i' hLow' fun h => hBefore i' h hHigh'

/- It has one unless it compares with NULL. -/
theorem hmatchLoop_ends
    {left idx : Nat} (hKeys : ∀ i, idx ≤ i → i < idx + left → (t.table i).isMatch matched ≠ none) :
    ∃ result, hmatchLoop matched t left idx = some result := by
  induction left generalizing idx with
  | zero => exact ⟨none, rfl⟩
  | succ left ih =>
    unfold hmatchLoop
    rcases ne_none_iff_exists'.mp
      (hKeys idx (Nat.le_refl idx) (by omega)) with ⟨found, hMatch⟩
    rw [hMatch]
    cases found with
    | true => exact ⟨some idx, rfl⟩
    | false => exact ih fun i hLow hHigh => hKeys i (by omega) (by omega)

variable {j : Nat}

theorem toInt_succ (hLt : j + 1 < 2 ^ 32) :
    (toInt j = 2 ^ 31 - 1 ↔ j = 2 ^ 31 - 1) ∧ ((toInt j + 1) % 2 ^ 32).toNat = j + 1 := by
  unfold toInt
  split <;> omega

theorem toInt_ne_zero (hPos : 0 < i) (hLt : i < 2 ^ 32) :
    toInt i ≠ 0 := by
  unfold toInt
  split <;> omega

/- What a call comes to after slot `j`. -/
theorem hmatchR_some {ret : Int} {retval : Option Nat} (hSize : t.size < 2 ^ 32) (hj : j < t.size)
    (hRun : hmatchR matched (toInt j) t = some (ret, retval)) :
    j ≠ 2 ^ 31 - 1 ∧
      ((ret = 0 ∧ ∀ i, j < i → i < t.size → (t.table i).isMatch matched = some false) ∨
      ∃ i, ret = toInt i ∧ retval = some i ∧ j < i ∧ i < t.size ∧
        (t.table i).isMatch matched = some true ∧
        ∀ i', j < i' → i' < i → (t.table i').isMatch matched = some false) := by
  rcases toInt_succ (show j + 1 < 2 ^ 32 by omega) with ⟨hLargest, hNext⟩
  unfold hmatchR at hRun
  split at hRun
  · cases hRun
  rename_i hNot
  refine ⟨fun h => hNot (hLargest.mpr h), ?_⟩
  dsimp only at hRun
  rw [hNext] at hRun
  cases hLoop : hmatchLoop matched t (t.size - (j + 1)) (j + 1) with
  | none =>
    rw [hLoop] at hRun
    cases hRun
  | some result =>
    rw [hLoop] at hRun
    rcases hmatchLoop_some hLoop with ⟨rfl, hAll⟩ | ⟨i, rfl, hLow, hHigh, hFound, hBefore⟩
    · cases hRun
      exact Or.inl ⟨rfl, fun i hLow hHigh => hAll i hLow (by omega)⟩
    · cases hRun
      exact Or.inr ⟨i, rfl, rfl, hLow, by omega, hFound, hBefore⟩

theorem hmatchR_ends (hSize : t.size < 2 ^ 32) (hj : j < t.size) (hSucc : j ≠ 2 ^ 31 - 1)
    (hKeys : ∀ i, j < i → i < t.size → (t.table i).isMatch matched ≠ none) :
    ∃ ret retval, hmatchR matched (toInt j) t = some (ret, retval) := by
  rcases toInt_succ (show j + 1 < 2 ^ 32 by omega) with ⟨hLargest, hNext⟩
  unfold hmatchR
  rw [if_neg fun h => hSucc (hLargest.mp h)]
  dsimp only
  rw [hNext]
  rcases @hmatchLoop_ends t matched (t.size - (j + 1)) (j + 1)
    (fun i hLow hHigh => hKeys i hLow (by omega)) with ⟨result, hLoop⟩
  rw [hLoop]
  cases result with
  | none => exact ⟨0, none, rfl⟩
  | some i => exact ⟨toInt i, some i, rfl⟩

----
-- All Calls
----

/-
  The calls after slot `j` return the entries that the loop
  takes for matching, in ascending order.
-/
theorem hmatchAll_some {calls j : Nat} {list : List Nat} (hSize : t.size < 2 ^ 32) (hj : j < t.size)
    (hRun : hmatchAll matched t calls (toInt j) = some list) :
    j ≠ 2 ^ 31 - 1 ∧ list.Pairwise (· < ·) ∧
    (∀ i, i ∈ list ↔ j < i ∧ i < t.size ∧ (t.table i).isMatch matched = some true) ∧
    (∀ i, j < i → i < t.size → (t.table i).isMatch matched ≠ none) ∧
    ∀ i, i ∈ list → i ≠ 2 ^ 31 - 1 := by
  induction calls generalizing j list with
  | zero => cases hRun
  | succ calls ih =>
    unfold hmatchAll at hRun
    cases hCall : hmatchR matched (toInt j) t with
    | none =>
      rw [hCall] at hRun
      cases hRun
    | some returned =>
      rcases returned with ⟨ret, retval⟩
      rw [hCall] at hRun
      dsimp only at hRun
      rcases hmatchR_some hSize hj hCall with ⟨hSucc,
        ⟨rfl, hAll⟩ | ⟨i, rfl, rfl, hLow, hHigh, hFound, hBefore⟩⟩
      · rw [if_pos rfl] at hRun
        cases hRun
        refine ⟨hSucc, List.Pairwise.nil, ?_, ?_, nofun⟩
        · intro i
          refine Iff.intro nofun ?_
          rintro ⟨hLow, hHigh, hFound⟩
          rw [hAll i hLow hHigh] at hFound
          cases hFound
        · intro i hLow hHigh hNone
          rw [hAll i hLow hHigh] at hNone
          cases hNone
      · rw [if_neg (toInt_ne_zero (by omega) (by omega))] at hRun
        rcases map_eq_some_iff.mp hRun with ⟨rest, hRest, rfl⟩
        rcases ih hHigh hRest with ⟨hSucc', hSorted, hMem, hKeys, hInts⟩
        have hCases : ∀ i', j < i' → i' < i ∨ i' = i ∨ i < i' := by
          intro i' _
          omega
        refine ⟨hSucc, ?_, ?_, ?_, ?_⟩
        · refine List.pairwise_cons.mpr ⟨?_, hSorted⟩
          intro i' hIn
          exact ((hMem i').mp hIn).1
        · intro i'
          rw [toList_some, List.singleton_append, List.mem_cons, hMem]
          constructor
          · rintro (rfl | ⟨hLow', hRest'⟩)
            · exact ⟨hLow, hHigh, hFound⟩
            · exact ⟨by omega, hRest'⟩
          · rintro ⟨hLow', hHigh', hFound'⟩
            rcases hCases i' hLow' with h | h | h
            · rw [hBefore i' hLow' h] at hFound'
              cases hFound'
            · exact Or.inl h
            · exact Or.inr ⟨h, hHigh', hFound'⟩
        · intro i' hLow' hHigh'
          rcases hCases i' hLow' with h | h | h
          · rw [hBefore i' hLow' h]
            exact nofun
          · rw [h, hFound]
            exact nofun
          · exact hKeys i' h hHigh'
        · intro i' hIn
          rcases List.mem_cons.mp hIn with rfl | hIn
          · exact hSucc'
          · exact hInts i' hIn

theorem hmatchAll_ends
    {calls j : Nat} (hSize : t.size < 2 ^ 32) (hj : j < t.size) (hSucc : j ≠ 2 ^ 31 - 1)
    (hKeys : ∀ i, j < i → i < t.size → (t.table i).isMatch matched ≠ none)
    (hInts : ∀ i, j < i → i < t.size → (t.table i).isMatch matched = some true → i ≠ 2 ^ 31 - 1)
    (hCalls : t.size ≤ j + calls) :
    ∃ list, hmatchAll matched t calls (toInt j) = some list := by
  induction calls generalizing j with
  | zero => omega
  | succ calls ih =>
    rcases hmatchR_ends hSize hj hSucc hKeys with ⟨ret, retval, hCall⟩
    unfold hmatchAll
    rw [hCall]
    dsimp only
    rcases hmatchR_some hSize hj hCall with ⟨-, ⟨rfl, -⟩ | ⟨i, rfl, rfl, hLow, hHigh, hFound, -⟩⟩
    · exact ⟨[], if_pos rfl⟩
    · rw [if_neg (toInt_ne_zero (by omega) (by omega))]
      rcases ih hHigh (hInts i hLow hHigh hFound) (fun i' h => hKeys i' (by omega))
        (fun i' h => hInts i' (by omega)) (by omega) with ⟨rest, hRest⟩
      rw [hRest]
      exact ⟨_, rfl⟩

/-
  In every table that calls leave, the walk returns every
  matching entry once, and nothing else, if and only if the
  table meets the condition.
-/
theorem hmatch_enumerates
    (signed : Bool) {nel : Nat} {htab : HsearchData} (hCreate : hcreateR nel = some htab)
    {t : Table} (hReach : (callSystem signed htab).Reachable t) (matched : CString) :
    Enumerates matched t ↔ Within matched t := by
  have hLaid := laid_of_reachable hCreate hReach
  have hLt := hLaid.size.lt
  have hPos : 0 < t.size := by
    rcases hLaid.size.one_or_prime with hOne | ⟨-, hFive⟩
    · omega
    · omega
  have hStart : toInt 0 = 0 := toInt_of_lt (by omega)
  constructor
  · rintro ⟨calls, list, hRun, -, hList⟩
    rw [← hStart] at hRun
    rcases hmatchAll_some hLt hPos hRun with ⟨-, -, hMem, hKeys, hInts⟩
    refine ⟨?_, ?_, ?_⟩
    · intro i hMatch
      have hIn := (hList i).mpr hMatch
      have hAt := (hMem i).mp hIn
      exact ⟨hAt.1, hAt.2.1, hInts i hIn⟩
    · intro i used entry hMatch hAt
      have hFound := ((hMem i).mp ((hList i).mpr hMatch)).2.2
      unfold Cell.isMatch at hFound
      rw [hAt] at hFound
      dsimp only at hFound
      split at hFound
      · cases hFound
      rename_i hUsed
      exact (hLaid.used_seen_iff hAt).mp (Int.not_le.mp hUsed)
    · intro i used entry hLow hHigh hAt hUsed hNone
      have hTest : (t.table i).isMatch matched = strncmpEq matched none := by
        unfold Cell.isMatch
        rw [hAt, ← hNone]
        exact if_neg (Int.not_le.mpr ((hLaid.used_seen_iff hAt).mpr hUsed))
      by_cases hEmpty : matched.bytes = []
      -- The empty string is found in front of NULL.
      · have hFound : strncmpEq matched none = some true := if_pos hEmpty
        rw [hFound] at hTest
        have hMatch := (hList i).mp ((hMem i).mpr ⟨hLow, hHigh, hTest⟩)
        rcases hMatch with ⟨used', entry', key, hAt', hKey, -⟩
        rw [hAt] at hAt'
        cases hAt'
        rw [hNone] at hKey
        cases hKey
      · have hFails : strncmpEq matched none = none := if_neg hEmpty
        exact hKeys i hLow hHigh (hTest.trans hFails)
  · intro hWithin
    have hMatch : ∀ i, 0 < i → i < t.size →
        (t.table i).isMatch matched = some true → Matches matched t i := by
      intro i hLow hHigh hFound
      exact hLaid.matches_of_isMatch hFound
        fun used entry hAt hUsed => hWithin.key i used entry hLow hHigh hAt hUsed
    have hKeys : ∀ i, 0 < i → i < t.size → (t.table i).isMatch matched ≠ none := by
      intro i hLow hHigh hNone
      unfold Cell.isMatch strncmpEq at hNone
      cases hAt : t.table i with
      | free =>
        rw [hAt] at hNone
        cases hNone
      | deleted =>
        rw [hAt] at hNone
        cases hNone
      | live used entry =>
        rw [hAt] at hNone
        dsimp only at hNone
        split at hNone
        · cases hNone
        rename_i hUsed
        split at hNone
        · cases hNone
        exact hWithin.key i used entry hLow hHigh hAt
          ((hLaid.used_seen_iff hAt).mp (Int.not_le.mp hUsed))
          (map_eq_none_iff.mp hNone)
    rcases @hmatchAll_ends t matched t.size 0 hLt hPos (by omega) hKeys
      (fun i hLow hHigh hFound => (hWithin.slot i (hMatch i hLow hHigh hFound)).2.2)
      (by omega) with ⟨list, hRun⟩
    rcases hmatchAll_some hLt hPos hRun with ⟨-, hSorted, hMem, -, -⟩
    rw [hStart] at hRun
    refine ⟨t.size, list, hRun, hSorted.imp Nat.ne_of_lt, ?_⟩
    intro i
    rw [hMem]
    constructor
    · rintro ⟨hLow, hHigh, hFound⟩
      exact hMatch i hLow hHigh hFound
    · intro hIs
      have hSlot := hWithin.slot i hIs
      exact ⟨hSlot.1, hSlot.2.1, hLaid.isMatch_of_matches hIs
        fun used entry hAt => hWithin.used i used entry hIs hAt⟩

/- The string of no characters. -/
def emptyString : CString := ⟨[], nofun⟩

/- The keys a and f collide, and e was deleted between them. -/
theorem hmatch_enumerates_collided :
    ∃ t, hmatchAll emptyString t 6 0 = some [1, 3] ∧
      (Enumerates emptyString t ↔ Within emptyString t) := by
  rcases TransitionSystem.exists_reachableBy (Table.call false) (fun _ _ => True)
      (.ofData ⟨fun _ => .free, 5, 0⟩)
      [.search ⟨varE, some varB⟩ .enter accepted, .search ⟨varA, some varB⟩ .enter accepted,
        .search ⟨varF, some varC⟩ .enter accepted, .delete varE accepted]
      (fun t => hmatchAll emptyString t 6 0 = some [1, 3]) (by decide +kernel)
    with ⟨t, hReach, hCalls⟩
  exact ⟨t, hCalls, @hmatch_enumerates false 5 _ rfl t hReach emptyString⟩

def varL : CString := letter 108 (by decide)

/-
  The variables b, g and l have the same hash value, and the
  third of them lies in the last of five slots.
-/
theorem hmatch_misses_last_slot :
    ∃ htab t, hcreateR 5 = some htab ∧ (callSystem false htab).Reachable t ∧
      hmatchAll emptyString t 6 0 = some [2, 4] ∧ Matches emptyString t 5 ∧
      ¬ Enumerates emptyString t := by
  refine ⟨⟨fun _ => .free, 5, 0⟩, ?_⟩
  have hRun :=
    TransitionSystem.exists_reachableBy (Table.call false) (fun _ _ => True)
      (.ofData ⟨fun _ => .free, 5, 0⟩)
      [.search ⟨varB, some varA⟩ .enter accepted, .search ⟨varG, some varA⟩ .enter accepted,
        .search ⟨varL, some varA⟩ .enter accepted]
      (fun t => t.size = 5 ∧ hmatchAll emptyString t 6 0 = some [2, 4] ∧
        t.table 5 = .live 4 ⟨some varL, some varA⟩)
      (by decide +kernel)
  rcases hRun with ⟨t, hReach, hSize, hCalls, hLast⟩
  have hMatch : Matches emptyString t 5 := ⟨_, _, varL, hLast, rfl, List.nil_prefix⟩
  refine ⟨t, rfl, hReach, hCalls, hMatch, ?_⟩
  rintro ⟨calls, list, hSome, -, hList⟩
  have hMem := (hList 5).mpr hMatch
  have hStart : toInt 0 = 0 := toInt_of_lt (by omega)
  rw [← hStart] at hSome
  rcases hmatchAll_some (by omega) (by omega) hSome with ⟨-, -, hIn, -, -⟩
  have hLt := ((hIn 5).mp hMem).2.1
  omega

end Uboot.Env.Alloc
