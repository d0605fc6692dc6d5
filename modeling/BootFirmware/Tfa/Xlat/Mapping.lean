import BootFirmware.Tfa.Xlat.Reflection

/-
  Mapping one region.

  The loops visit the entries that the region meets, each
  table before its entries.  A visited entry reflects the
  list with the new region, any other entry the list without
  it.  Every region mapped before lies inside the new one or
  apart from it, which is what the order of the array is
  for.

  Where a table has to be created for each entry of
  `neededTables`, mapping stops at the first of these for
  which no table is left.

  Key definitions include:
    * `Span` and `pick`
    * `neededTables` and `freeTables`
    * `MapPost`

  The main results are:
    * `mapEntry_post`
    * `mapLoop_post`
    * `mapFromBase_post`
-/

namespace Tfa.Xlat

open List Function

----
-- Visited Entries
----

/- The entries from depth `k` on whose blocks start in a range. -/
def Span (cfg : Config) (k a b : Nat)
    (k' n' : Nat) : Prop :=
  k ≤ k' ∧ a ≤ cfg.start k' n' ∧ cfg.start k' n' < b

/- One list for the entries of a set and one for the others. -/
open Classical in
noncomputable def pick
    (V : Nat → Nat → Prop) (L₁ L₀ : List MmapRegion)
    (k n : Nat) : List MmapRegion :=
  if V k n then L₁ else L₀

variable {V : Nat → Nat → Prop} {L₁ L₀ : List MmapRegion} {k n : Nat}

theorem pick_of (hV : V k n) :
    pick V L₁ L₀ k n = L₁ :=
  if_pos hV

theorem pick_of_not (hV : ¬ V k n) :
    pick V L₁ L₀ k n = L₀ :=
  if_neg hV

variable {V W : Nat → Nat → Prop}

theorem pick_congr (hIff : V k n ↔ W k n) :
    pick V L₁ L₀ k n = pick W L₁ L₀ k n := by
  by_cases hV : V k n
  · rw [pick_of hV, pick_of (hIff.mp hV)]
  · rw [pick_of_not hV, pick_of_not (fun hW => hV (hIff.mpr hW))]

variable {cfg : Config} {tb : Tables}

/-
  The set matters only at entries that are reached and that
  the region by which the lists differ meets.
-/
theorem Reflects.pick_congr (hR : Reflects cfg tb (pick V L₁ L₀)) {q : MmapRegion}
    (hOff : ∀ k n, ¬ q.Meets cfg k n → meeting cfg L₁ k n = meeting cfg L₀ k n)
    (hIff : ∀ {k n x}, tb.slot k n = some x → q.Meets cfg k n → (V k n ↔ W k n)) :
    Reflects cfg tb (pick W L₁ L₀) := by
  have hEither :
      ∀ (U : Nat → Nat → Prop) k n, ¬ q.Meets cfg k n →
        meeting cfg (pick U L₁ L₀ k n) k n = meeting cfg L₀ k n := by
    intro U k n hNot
    by_cases hU : U k n
    · rw [pick_of hU, hOff k n hNot]
    · rw [pick_of_not hU]
  apply hR.congr
  intro k n x hSlot
  by_cases hMeets : q.Meets cfg k n
  · rw [Xlat.pick_congr (hIff hSlot hMeets)]
  · rw [hEither V k n hMeets, hEither W k n hMeets]

/- One entry of an unvisited table is added to the set. -/
theorem pick_else (hW : ∀ k' n', ¬ (k' = k ∧ n' = n) → (W k' n' ↔ V k' n')) :
    ∀ k' n', ¬ (k' = k ∧ n' = n) → pick W L₁ L₀ k' n' = pick V L₁ L₀ k' n' :=
  fun k' n' hNe => pick_congr (hW k' n' hNe)

----
-- Tables Needed
----

/-
  What an entry adds to the tables that mapping a region has
  to create: one of its own when no other region meets it
  and one descriptor does not describe it, and those that
  are needed below it.
-/
def neededAt (cfg : Config) (L : List MmapRegion) (mm : MmapRegion) (below : Nat → List (Nat × Nat))
    (k n : Nat) : List (Nat × Nat) :=
  if mm.Meets cfg k n then
    if meeting cfg L k n ≠ [] then below n
    else if mm.Splits cfg k n then (k, n) :: below n
    else []
  else []

/-
  The entries at which mapping a region has to create a
  table, in the order in which they are visited.
-/
def neededTables (cfg : Config) (L : List MmapRegion) (mm : MmapRegion) :
    Nat → Nat → Nat → Nat → List (Nat × Nat)
  | 0, _, _, _ => []
  | left + 1, k, first, entries =>
    (List.range' first entries).flatMap
      (neededAt cfg L mm
        (fun n => neededTables cfg L mm left (k + 1) (512 * n) 512)
        k)

/- The sub-tables that may be handed out. -/
def freeTables (cfg : Config)
    (tb : Tables) : Nat :=
  (List.range cfg.tablesNum).countP fun j => tb.mappedRegions j = 0

/-
  The entry lies in the base table, or is not the first one
  of its table that the region meets.
-/
def NotFirst (cfg : Config) (mm : MmapRegion)
    (entry : Nat × Nat) : Prop :=
  entry.1 = 0 ∨ (entry.2 % 512 ≠ 0 ∧ mm.baseVa < cfg.start entry.1 entry.2)

theorem countP_update
    {f : Nat → Int} {j bound : Nat} (hj : j < bound) (hZero : f j = 0) {c : Int} (hc : c ≠ 0) :
    ((List.range bound).countP fun i =>
        update f j c i = 0) + 1 =
      (List.range bound).countP fun i => f i = 0 := by
  induction bound with
  | zero => omega
  | succ bound ih =>
    rw [range_succ, countP_append, countP_append, countP_singleton, countP_singleton]
    by_cases hHere : j = bound
    · subst hHere
      have hBefore :
          ((List.range j).countP fun i =>
            update f j c i = 0) = (List.range j).countP fun i => f i = 0 := by
        apply countP_congr
        intro i hMem
        have hNe : i ≠ j := by
          have hLt := mem_range.mp hMem
          omega
        rw [update_of_ne hNe]
      rw [hBefore, update_self]
      simp [hZero, hc]
    · rw [update_of_ne (Ne.symm hHere)]
      omega

----
-- Postconditions
----

/- Two sets of entries together. -/
def Also (V W : Nat → Nat → Prop)
    (k n : Nat) : Prop :=
  V k n ∨ W k n

/- The needed tables are counted when no regions overlap. -/
def Budgeted (cfg : Config) (mm : MmapRegion)
    (L : List MmapRegion) : Prop :=
  cfg.platXlatTablesDynamic = true ∧ ∀ q ∈ L, q.Apart mm

/-
  Mapping stopped at an entry for want of a table.  Unless
  that was the first entry of its table, what was done is
  the mapping of the region up to there.
-/
structure StopsAt
    (cfg : Config) (mm : MmapRegion) (L : List MmapRegion) (N : List (Nat × Nat))
    (tb : Tables) (V : Nat → Nat → Prop) (k a b : Nat) (tb' : Tables) (endVa : Nat)
    (entry : Nat × Nat) : Prop where
  needed : N[freeTables cfg tb]? = some entry
  place : endVa = cfg.start entry.1 entry.2
  depth_ge : k ≤ entry.1
  level_le : cfg.baseLevel + entry.1 ≤ 3
  ge : a ≤ endVa
  lt : endVa < b
  reflects :
    NotFirst cfg mm entry → Reflects cfg tb' (pick (Also V (Span cfg k a endVa)) (mm :: L) L)

/-
  What mapping does to the entries from depth `k` on in the
  range from `a` to `b`, when it starts from `tb` with the
  entries of `V` visited and needs the tables of `N`.
-/
inductive MapPost
    (cfg : Config) (mm : MmapRegion) (L : List MmapRegion)
    (N : List (Nat × Nat)) (tb : Tables) (V : Nat → Nat → Prop)
    (k a b : Nat) : Except Fault (Tables × Nat) → Prop
  | assertion : ¬ mm.AttrOk → MapPost cfg mm L N tb V k a b (.error .assertion)
  | outOfTables :
      cfg.platXlatTablesDynamic = false → MapPost cfg mm L N tb V k a b (.error .outOfTables)
  | done {tb' : Tables} {endVa : Nat} : endVa + 1 = min (mm.baseVa + mm.size) b → Extends tb tb' →
      Reflects cfg tb' (pick (Also V (Span cfg k a b)) (mm :: L) L) →
      (Budgeted cfg mm L → freeTables cfg tb' + N.length = freeTables cfg tb) →
        MapPost cfg mm L N tb V k a b (.ok (tb', endVa))
  | stopped {tb' : Tables} {endVa : Nat} : 4096 ∣ endVa → Extends tb tb' →
      cfg.platXlatTablesDynamic = true →
      (Budgeted cfg mm L → ∃ entry, StopsAt cfg mm L N tb V k a b tb' endVa entry) →
        MapPost cfg mm L N tb V k a b (.ok (tb', endVa))

variable {mm : MmapRegion}

/- The lists differ where the region meets an entry. -/
theorem meeting_cons_off {L : List MmapRegion} :
    ∀ k n, ¬ mm.Meets cfg k n → meeting cfg (mm :: L) k n = meeting cfg L k n :=
  fun _ _ hNot => meeting_cons_of_not_meets hNot

variable {L : List MmapRegion} {res : Except Fault (Tables × Nat)}

variable {tb tb' : Tables} {N₁ N' : List (Nat × Nat)}

/-
  A postcondition over a part of the entries, reached after
  the tables of `N₁` were created, is one over all of them
  when the visited entries are the same.
-/
theorem MapPost.convert {V V' : Nat → Nat → Prop} {k a b k' a' b' : Nat}
    (hPost : MapPost cfg mm L N' tb' V' k' a' b' res) (hExt : Extends tb tb')
    (hFree : Budgeted cfg mm L → freeTables cfg tb' + N₁.length = freeTables cfg tb)
    (hDepth : k ≤ k') (hStart : a ≤ a') (hStop : b' ≤ b)
    (hMin : min (mm.baseVa + mm.size) b' = min (mm.baseVa + mm.size) b)
    (hDone :
      ∀ k₁ n₁, mm.Meets cfg k₁ n₁ →
        (Also V' (Span cfg k' a' b') k₁ n₁ ↔ Also V (Span cfg k a b) k₁ n₁))
    (hPart :
      ∀ entry : Nat × Nat, NotFirst cfg mm entry → k' ≤ entry.1 → cfg.baseLevel + entry.1 ≤ 3 →
        a' ≤ cfg.start entry.1 entry.2 → cfg.start entry.1 entry.2 < b' →
        ∀ k₁ n₁, mm.Meets cfg k₁ n₁ → (Also V' (Span cfg k' a' (cfg.start entry.1 entry.2)) k₁ n₁ ↔
            Also V (Span cfg k a (cfg.start entry.1 entry.2)) k₁ n₁)) :
    MapPost cfg mm L (N₁ ++ N') tb V k a b res := by
  cases hPost with
  | assertion hAttr => exact .assertion hAttr
  | outOfTables hStatic => exact .outOfTables hStatic
  | done hEnd hExt' hR hCount =>
    refine .done (hEnd.trans hMin) (hExt.trans hExt') ?_ ?_
    · exact hR.pick_congr meeting_cons_off (fun _ hMeets => hDone _ _ hMeets)
    · intro hBudget
      have hFirst := hFree hBudget
      have hSecond := hCount hBudget
      rw [length_append]
      omega
  | stopped hPage hExt' hDyn hStops =>
    refine .stopped hPage (hExt.trans hExt') hDyn ?_
    intro hBudget
    rcases hStops hBudget with ⟨entry, hStopsAt⟩
    have hFirst := hFree hBudget
    refine ⟨entry, ?_, hStopsAt.place, hDepth.trans hStopsAt.depth_ge, hStopsAt.level_le,
      hStart.trans hStopsAt.ge, Nat.lt_of_lt_of_le hStopsAt.lt hStop, ?_⟩
    · rw [← hFirst, getElem?_append_right (by omega), Nat.add_sub_cancel]
      exact hStopsAt.needed
    · intro hNotFirst
      have hPlace := hStopsAt.place
      have hGe := hStopsAt.ge
      have hLt := hStopsAt.lt
      have hPrefix := hStopsAt.reflects hNotFirst
      rw [hPlace] at hGe hLt hPrefix ⊢
      exact hPrefix.pick_congr meeting_cons_off
        (fun _ hMeets => hPart entry hNotFirst hStopsAt.depth_ge hStopsAt.level_le hGe hLt _ _
          hMeets)

/- The entries of two adjacent ranges, one after the other. -/
theorem MapPost.append {N₁ N₂ : List (Nat × Nat)} {k a b c : Nat} (hExt : Extends tb tb')
    (hFree : Budgeted cfg mm L → freeTables cfg tb' + N₁.length = freeTables cfg tb)
    (hPost : MapPost cfg mm L N₂ tb' (Also V (Span cfg k a b)) k b c res)
    (hab : a ≤ b) (hbc : b ≤ c) :
    MapPost cfg mm L (N₁ ++ N₂) tb V k a c res := by
  have hJoin :
      ∀ e, b ≤ e → ∀ k₁ n₁, (Also (Also V (Span cfg k a b)) (Span cfg k b e) k₁ n₁ ↔
          Also V (Span cfg k a e) k₁ n₁) := by
    intro e hbe k₁ n₁
    unfold Also Span
    constructor
    · rintro ((hV | hFirst) | hSecond)
      · exact Or.inl hV
      · right
        omega
      · right
        omega
    · rintro (hV | hSpan)
      · exact Or.inl (Or.inl hV)
      · by_cases hSide : cfg.start k₁ n₁ < b
        · exact Or.inl (Or.inr ⟨hSpan.1, hSpan.2.1, hSide⟩)
        · right
          omega
  exact hPost.convert hExt hFree (Nat.le_refl k) hab (Nat.le_refl c) rfl
    (fun k₁ n₁ _ => hJoin c hbc k₁ n₁) (fun entry _ _ _ hGe _ k₁ n₁ _ => hJoin _ hGe k₁ n₁)

variable {N : List (Nat × Nat)}

/- Entries before the region may be left out. -/
theorem MapPost.widen_start {k a n b : Nat}
    (hPost : MapPost cfg mm L N tb V k (cfg.start k n) b res) (hStart : a ≤ cfg.start k n)
    (hBefore : a < cfg.start k n → cfg.start k n ≤ mm.baseVa) :
    MapPost cfg mm L N tb V k a b res := by
  have hSame :
      ∀ e k₁ n₁, mm.Meets cfg k₁ n₁ →
        (Also V (Span cfg k (cfg.start k n) e) k₁ n₁ ↔ Also V (Span cfg k a e) k₁ n₁) := by
    intro e k₁ n₁ hMeets
    unfold Also Span
    constructor
    · rintro (hV | hSpan)
      · exact Or.inl hV
      · right
        omega
    · rintro (hV | ⟨hDepth, hGe, hLt⟩)
      · exact Or.inl hV
      · by_cases hLow : cfg.start k₁ n₁ < cfg.start k n
        · have hStop := cfg.start_add_le_of_lt hDepth hLow
          have hLo := hMeets.1
          omega
        · right
          omega
  have hAll : MapPost cfg mm L ([] ++ N) tb V k a b res :=
    hPost.convert (Extends.refl tb) (fun _ => rfl)
      (Nat.le_refl k) hStart (Nat.le_refl b) rfl (hSame b)
      (fun entry _ _ _ _ _ k₁ n₁ hMeets => hSame _ k₁ n₁ hMeets)
  exact hAll

/- So may entries behind it. -/
theorem MapPost.widen_stop
    {k a b c : Nat} (hPost : MapPost cfg mm L N tb V k a b res) (hStop : b ≤ c)
    (hBehind : mm.baseVa + mm.size ≤ b) :
    MapPost cfg mm L N tb V k a c res := by
  have hSame :
      ∀ k₁ n₁, mm.Meets cfg k₁ n₁ →
        (Also V (Span cfg k a b) k₁ n₁ ↔ Also V (Span cfg k a c) k₁ n₁) := by
    intro k₁ n₁ hMeets
    have hHi := hMeets.2
    unfold Also Span
    constructor
    · rintro (hV | hSpan)
      · exact Or.inl hV
      · right
        omega
    · rintro (hV | hSpan)
      · exact Or.inl hV
      · right
        omega
  have hAll : MapPost cfg mm L ([] ++ N) tb V k a c res :=
    hPost.convert (Extends.refl tb) (fun _ => rfl)
      (Nat.le_refl k) (Nat.le_refl a) hStop (by omega) hSame
      (fun entry _ _ _ _ _ k₁ n₁ _ => Iff.rfl)
  exact hAll

/- Below an entry that was visited itself. -/
theorem MapPost.ascend (hPost :
      MapPost cfg mm L N' tb' (Also V fun k' n' => k' = k ∧ n' = n) (k + 1)
        (cfg.start k n) (cfg.start k n + cfg.blockSize k)
        res)
    (hExt : Extends tb tb')
    (hFree : Budgeted cfg mm L → freeTables cfg tb' + N₁.length = freeTables cfg tb) :
    MapPost cfg mm L (N₁ ++ N') tb V k (cfg.start k n) (cfg.start k n + cfg.blockSize k) res := by
  have hJoin :
      ∀ e, cfg.start k n < e → e ≤ cfg.start k n + cfg.blockSize k → ∀ k₁ n₁,
          (Also (Also V fun k' n' => k' = k ∧ n' = n) (Span cfg (k + 1) (cfg.start k n) e) k₁ n₁ ↔
            Also V (Span cfg k (cfg.start k n) e) k₁ n₁) := by
    intro e hLt hLe k₁ n₁
    unfold Also Span
    constructor
    · rintro ((hV | ⟨rfl, rfl⟩) | hSpan)
      · exact Or.inl hV
      · right
        omega
      · right
        omega
    · rintro (hV | ⟨hDepth, hGe, hEnd⟩)
      · exact Or.inl (Or.inl hV)
      · by_cases hHere : k₁ = k
        · subst hHere
          left
          right
          exact ⟨rfl, cfg.eq_of_start_mem hGe (by omega)⟩
        · right
          omega
  have hPos := cfg.blockSize_pos k
  apply hPost.convert hExt hFree (Nat.le_succ k) (Nat.le_refl _) (Nat.le_refl _) rfl
  · intro k₁ n₁ _
    exact hJoin _ (by omega) (Nat.le_refl _) k₁ n₁
  · intro entry hNotFirst hDepth hLevel hGe hLt k₁ n₁ _
    -- The first entry of the table is excluded here.
    have hInside : cfg.start k n ≠ cfg.start entry.1 entry.2 := by
      intro hEq
      rcases hNotFirst with hBase | ⟨hMod, _⟩
      · omega
      · exact hMod (cfg.mod_eq_zero_of_start_eq (by omega) hLevel hEq.symm)
    exact hJoin _ (by omega) (by omega) k₁ n₁

----
-- Entering Tables
----

/- Mapping counts the region when it enters a table. -/
def bump (cfg : Config) (j : Nat)
    (tb : Tables) : Tables :=
  if cfg.platXlatTablesDynamic then
    { tb with
      mappedRegions := update tb.mappedRegions j (tb.mappedRegions j + 1) }
  else tb

section Entering

variable {cfg : Config} {tb : Tables} {j : Nat}

theorem bump_desc : (bump cfg j tb).desc = tb.desc := by
  unfold bump
  split <;> rfl

theorem bump_slot (k n : Nat) :
    (bump cfg j tb).slot k n = tb.slot k n := by
  rw [Tables.slot, Tables.slot, bump_desc]

theorem enter_eq (j : Nat) (tb : Tables) {k : Nat} (hDepth : 0 < k) :
    (if cfg.platXlatTablesDynamic ∧ cfg.baseLevel + k > cfg.baseLevel then
      xlatTableIncRegionsCount (.sub j) tb
    else .ok tb) = .ok (bump cfg j tb) := by
  have hBelow : cfg.baseLevel + k > cfg.baseLevel := by omega
  unfold bump
  by_cases hDyn : cfg.platXlatTablesDynamic = true
  · rw [if_pos ⟨hDyn, hBelow⟩, if_pos hDyn]
    rfl
  · rw [if_neg (fun h => hDyn h.1), if_neg hDyn]

theorem sameOthers_bump : SameOthers cfg tb (bump cfg j tb) j := by
  intro j' hNe
  unfold Counted Unclaimed bump
  split
  · constructor
    · intro regions hCount
      dsimp only
      rw [update_of_ne hNe]
      exact hCount
    · intro hFree
      dsimp only
      rw [update_of_ne hNe]
      exact hFree
  · exact ⟨fun _ hCount => hCount, fun hFree => hFree⟩

theorem counted_bump {regions : Nat} (hCount : Counted cfg tb j regions) :
    Counted cfg (bump cfg j tb) j (regions + 1) := by
  unfold Counted bump at *
  split
  · rename_i hDyn
    rw [if_pos hDyn] at hCount
    dsimp only
    rw [update_self, hCount]
    rfl
  · rename_i hDyn
    rw [if_neg hDyn] at hCount
    exact hCount

/- A table in use is not free before or after. -/
theorem freeTables_bump (hDyn : cfg.platXlatTablesDynamic = true) {regions : Nat}
    (hCount : Counted cfg tb j regions) (hPos : 0 < regions) :
    freeTables cfg (bump cfg j tb) = freeTables cfg tb := by
  unfold Counted at hCount
  rw [if_pos hDyn] at hCount
  unfold freeTables bump
  rw [if_pos hDyn]
  apply countP_congr
  intro i _
  simp only [decide_eq_true_eq]
  by_cases hHere : i = j
  · subst hHere
    rw [update_self]
    omega
  · rw [update_of_ne hHere]

/-
  What the allocator answers: out of tables in either build,
  or a table that was free, which is then counted.
-/
theorem getEmpty_cases (cfg : Config) (tb : Tables) :
    (xlatTableGetEmpty cfg tb = .error .outOfTables ∧ cfg.platXlatTablesDynamic = false) ∨
    (xlatTableGetEmpty cfg tb = .ok none ∧ cfg.platXlatTablesDynamic = true ∧
      freeTables cfg tb = 0) ∨
    ∃ j tb', xlatTableGetEmpty cfg tb = .ok (some (j, tb')) ∧
      j < cfg.tablesNum ∧ Unclaimed cfg tb j ∧ tb'.desc = tb.desc ∧
      ∀ t i d, SameOthers cfg tb (bump cfg j (tb'.write t i d)) j ∧
        Counted cfg (bump cfg j (tb'.write t i d)) j 1 ∧ (cfg.platXlatTablesDynamic = true →
          freeTables cfg (bump cfg j (tb'.write t i d)) + 1 = freeTables cfg tb) := by
  unfold xlatTableGetEmpty
  by_cases hDyn : cfg.platXlatTablesDynamic = true
  · right
    rw [if_pos hDyn]
    cases hFind : (List.range cfg.tablesNum).find? fun i => decide (tb.mappedRegions i = 0) with
    | none =>
      left
      refine ⟨rfl, hDyn, ?_⟩
      unfold freeTables
      rw [countP_eq_zero]
      rw [find?_eq_none] at hFind
      exact hFind
    | some j =>
      right
      have hZero : tb.mappedRegions j = 0 := by
        have hHolds := find?_some hFind
        exact of_decide_eq_true hHolds
      have hBound : j < cfg.tablesNum := mem_range.mp (mem_of_find?_eq_some hFind)
      refine ⟨j, tb, rfl, hBound, ?_, rfl, ?_⟩
      · unfold Unclaimed
        rw [if_pos hDyn]
        exact hZero
      · intro t i d
        have hOthers : SameOthers cfg (tb.write t i d) (bump cfg j (tb.write t i d)) j :=
          sameOthers_bump
        refine ⟨hOthers, ?_, ?_⟩
        · unfold Counted bump
          rw [if_pos hDyn, if_pos hDyn]
          dsimp only [Tables.write]
          rw [update_self, hZero]
          rfl
        · intro _
          unfold freeTables bump
          rw [if_pos hDyn]
          exact countP_update hBound hZero (c := tb.mappedRegions j + 1) (by omega)
  · rw [if_neg hDyn]
    have hStatic : cfg.platXlatTablesDynamic = false := Bool.eq_false_iff.mpr hDyn
    by_cases hRoom : tb.nextTable < cfg.tablesNum
    · right
      right
      rw [if_pos hRoom]
      refine ⟨_, _, rfl, hRoom, ?_, rfl, ?_⟩
      · unfold Unclaimed
        rw [if_neg hDyn]
      · intro t i d
        unfold SameOthers Counted Unclaimed bump
        simp only [if_neg hDyn]
        dsimp only [Tables.write]
        refine ⟨?_, by omega, fun h => absurd h hDyn⟩
        intro j' hNe
        constructor
        · intro _ hLt
          omega
        · intro hLe
          omega
    · left
      rw [if_neg hRoom]
      exact ⟨rfl, hStatic⟩

end Entering

----
-- One Entry
----

/-
  What the loop relies on when it enters a sub-table: the
  region is counted there, and none of its entries was
  visited.
-/
def EntersWell (cfg : Config) (mm : MmapRegion) (L : List MmapRegion) (left k : Nat)
    (recurse : Nat → TableRef → Tables → Except Fault (Tables × Nat)) : Prop :=
  ∀ tb V n t i j, cfg.baseLevel + k < 3 → tb.slot k n = some (t, i) → tb.desc t i = .table j →
    Reflects cfg (bump cfg j tb) (pick V (mm :: L) L) → mm.Meets cfg k n → (∀ k' n',
      Span cfg (k + 1) (cfg.start k n) (cfg.start k n + cfg.blockSize k) k' n' → ¬ V k' n') →
    MapPost cfg mm L (neededTables cfg L mm left (k + 1) (512 * n) 512)
      (bump cfg j tb) V (k + 1) (cfg.start k n)
      (cfg.start k n + cfg.blockSize k)
      (recurse (cfg.start k n) (.sub j) tb)

section Entry

variable {cfg : Config} {mm : MmapRegion}
variable {L : List MmapRegion} {tb : Tables}
variable {V : Nat → Nat → Prop} {left k n i : Nat}
variable {t : TableRef}
variable {recurse : Nat → TableRef → Tables → Except Fault (Tables × Nat)}

/- The entry itself counts as visited from now on. -/
theorem also_self : Also V (fun k' n' => k' = k ∧ n' = n) k n :=
  Or.inr ⟨rfl, rfl⟩

variable {L₁ L₀ : List MmapRegion}

theorem also_else :
    ∀ k' n', ¬ (k' = k ∧ n' = n) →
      pick (Also V fun k' n' => k' = k ∧ n' = n) L₁ L₀ k' n' = pick V L₁ L₀ k' n' :=
  pick_else (fun _ _ hNe => ⟨fun hAlso => hAlso.resolve_right hNe, Or.inl⟩)

/- An entry with nothing below it is the only one visited. -/
theorem span_leaf {tb : Tables} {q : MmapRegion}
    (hOff : ∀ k n, ¬ q.Meets cfg k n → meeting cfg L₁ k n = meeting cfg L₀ k n)
    (hR : Reflects cfg tb (pick (Also V fun k' n' => k' = k ∧ n' = n) L₁ L₀))
    (hSlot : tb.slot k n = some (t, i)) (hLeaf : (tb.desc t i).subtable? = none) :
    Reflects cfg tb
      (pick (Also V (Span cfg k (cfg.start k n) (cfg.start k n + cfg.blockSize k))) L₁ L₀) := by
  have hPos := cfg.blockSize_pos k
  apply hR.pick_congr hOff
  intro k' n' x hSlot' _
  unfold Also Span
  constructor
  · rintro (hV | ⟨rfl, rfl⟩)
    · exact Or.inl hV
    · right
      omega
  · rintro (hV | ⟨hDepth, hGe, hLt⟩)
    · exact Or.inl hV
    · by_cases hHere : k' = k
      · subst hHere
        exact Or.inr ⟨rfl, cfg.eq_of_start_mem hGe hLt⟩
      · have hLevel := hR.level_le hSlot'
        have hUnder := (cfg.strictlyUnder_iff (by omega : k < k') hLevel).mpr ⟨hGe, hLt⟩
        have hNone : tb.slot k' n' = none := RadixTable.slot_under_eq_none hSlot hLeaf hUnder
        rw [hNone] at hSlot'
        cases hSlot'

/- What the postcondition needs to know of a finished block. -/
theorem MapPost.of_block
    {N : List (Nat × Nat)} {tb' : Tables} (hCovers : mm.Covers cfg k n) (hExt : Extends tb tb')
    (hR :
      Reflects cfg tb'
        (pick (Also V (Span cfg k (cfg.start k n) (cfg.start k n + cfg.blockSize k))) (mm :: L) L))
    (hFree : Budgeted cfg mm L → freeTables cfg tb' + N.length = freeTables cfg tb) :
    MapPost cfg mm L N tb V k (cfg.start k n) (cfg.start k n + cfg.blockSize k)
      (.ok (tb', cfg.start k n + cfg.blockSize k - 1)) := by
  have hPos := cfg.blockSize_pos k
  have hHi := hCovers.2
  exact .done (by omega) hExt hR hFree

theorem afterSubtable_block (tb' : Tables) :
    afterSubtable (cfg.baseLevel + k) (cfg.start k n)
        (.ok (tb', cfg.start k n + cfg.blockSize k - 1)) =
      .ok (tb', none) := by
  unfold afterSubtable Config.blockSize
  dsimp only
  rw [if_neg (not_not.mpr rfl)]

theorem extends_write {tb tb' : Tables} {d : Desc}
    (hInvalid : tb.desc t i = .invalid) (hWrite : tb'.desc = RadixTable.write tb.desc t i d) :
    Extends tb tb' := by
  intro t' i' hUsed
  rw [hWrite]
  apply RadixTable.write_other
  rintro ⟨rfl, rfl⟩
  exact hUsed hInvalid

/- The turn of the entry leaves what its postcondition says. -/
def TurnsWell
    (cfg : Config) (mm : MmapRegion) (L : List MmapRegion) (V : Nat → Nat → Prop) (k n i : Nat)
    (t : TableRef) (recurse : Nat → TableRef → Tables → Except Fault (Tables × Nat))
    (tb : Tables) (N : List (Nat × Nat)) : Prop :=
  ∃ res, mapEntry cfg mm (cfg.baseLevel + k) t recurse i (cfg.start k n) tb =
      afterSubtable (cfg.baseLevel + k) (cfg.start k n) res ∧
    MapPost cfg mm L N tb V k (cfg.start k n) (cfg.start k n + cfg.blockSize k) res

variable (hR : Reflects cfg tb (pick V (mm :: L) L))
variable (hSlot : tb.slot k n = some (t, i)) (hMeets : mm.Meets cfg k n)

include hR hSlot hMeets

/- A block that nothing describes gets a descriptor. -/
theorem mapEntry_write
    (hValid : mm.Valid cfg) (hV : ¬ V k n) (hInvalid : tb.desc t i = .invalid) (hWhole : ¬ mm.Splits cfg k n) :
    TurnsWell cfg mm L V k n i t recurse tb [] := by
  have hLevel := hR.level_le hSlot
  have hDesc := hR.describes hSlot
  rw [pick_of_not hV, hInvalid] at hDesc
  have hEmpty : meeting cfg L k n = [] := hDesc
  have hCovers : mm.Covers cfg k n := by
    by_contra hNot
    exact hWhole (Or.inl hNot)
  have hBlock : mm.BlockOk cfg k n := by
    by_contra hNot
    exact hWhole (Or.inr hNot)
  have hAligned : mm.paOf (cfg.start k n) % xlatBlockSize (cfg.baseLevel + k) = 0 := by
    rcases hBlock with hLast | ⟨_, hMod, _⟩
    · have hIn : mm.Contains (cfg.start k n) := ⟨hCovers.1, hMeets.2⟩
      have hPa := hValid.paOf_eq hIn
      have hStart := cfg.page_dvd_start k n
      have hVa := hValid.va_dvd
      have hBase := hValid.pa_dvd
      have hSize : xlatBlockSize (cfg.baseLevel + k) = 4096 := cfg.blockSize_last hLast
      rw [hPa, hSize]
      omega
    · exact hMod
  have hType : (tb.desc t i).type = invalidDesc := by
    rw [hInvalid]
    rfl
  have hAction := mapAction_invalid hValid hLevel hMeets
  rw [if_neg hWhole] at hAction
  unfold TurnsWell mapEntry
  dsimp only
  rw [hType, hAction]
  cases hWord : xlatDesc cfg.xlatRegime mm.attr (mm.paOf (cfg.start k n)) (cfg.baseLevel + k) with
  | error fault =>
    have hFault := xlatDesc_error hWord
    subst hFault
    refine ⟨.error .assertion, rfl, .assertion ?_⟩
    intro hAttr
    rcases xlatDesc_ok cfg.xlatRegime hAttr hAligned with ⟨word, hOk⟩
    rw [hWord] at hOk
    cases hOk
  | ok word =>
    refine ⟨.ok (tb.write t i (.leaf word), cfg.start k n + cfg.blockSize k - 1), ?_, ?_⟩
    · exact (afterSubtable_block _).symm
    · have hOld : (tb.desc t i).subtable? = none := by
        rw [hInvalid]
        rfl
      have hNewDesc :
          Describes cfg
            (pick (Also V fun k' n' => k' = k ∧ n' = n) (mm :: L) L k n) k n (.leaf word) := by
        rw [pick_of also_self]
        refine ⟨mm, ?_, hCovers, ?_, hWord⟩
        · rw [meeting_cons_of_meets hMeets]
          exact mem_cons_self
        · intro q hMem
          rw [meeting_cons_of_meets hMeets, hEmpty, mem_singleton] at hMem
          subst hMem
          exact ⟨Nat.le_refl _, Nat.le_refl _⟩
      have hR' := hR.write hSlot hOld rfl hNewDesc also_else
      have hSlot' : (tb.write t i (.leaf word)).slot k n = some (t, i) :=
        RadixTable.slot_write_self hR.noSharing hSlot
      have hLeaf : ((tb.write t i (.leaf word)).desc t i).subtable? = none := by
        have hSame : (tb.write t i (.leaf word)).desc t i = .leaf word :=
          RadixTable.write_same _ _ _ _
        rw [hSame]
        rfl
      exact MapPost.of_block hCovers (extends_write hInvalid rfl)
        (span_leaf meeting_cons_off hR' hSlot' hLeaf)
        (fun _ => rfl)

/- Another region's descriptor stays. -/
theorem mapEntry_leaf (hValid : mm.Valid cfg) (hValidL : ∀ q ∈ L, q.Valid cfg)
    (hOrder : ∀ q ∈ L, q.Within mm ∨ q.Apart mm) (N : List (Nat × Nat)) (hV : ¬ V k n) {word : Nat}
    (hLeaf : tb.desc t i = .leaf word) :
    TurnsWell cfg mm L V k n i t recurse tb N := by
  have hDesc := hR.describes hSlot
  rw [pick_of_not hV, hLeaf] at hDesc
  have hType : (tb.desc t i).type = leafType (cfg.baseLevel + k) := by
    rw [hLeaf]
    exact hDesc.leaf_type hValidL
  rcases hDesc with ⟨q, hMem, hCovers, hInner, hWord⟩
  have hNotApart := hCovers.not_apart hMeets
  have hWithin : q.Within mm := (hOrder q (mem_meeting.mp hMem).1).resolve_right hNotApart
  have hCoversMm := hCovers.of_within hWithin
  have hNewDesc :
      Describes cfg
        (pick (Also V fun k' n' => k' = k ∧ n' = n) (mm :: L) L k n) k n (.leaf word) := by
    rw [pick_of also_self]
    refine ⟨q, ?_, hCovers, ?_, hWord⟩
    · rw [meeting_cons_of_meets hMeets]
      exact mem_cons_of_mem mm hMem
    · intro q' hMem'
      rw [meeting_cons_of_meets hMeets] at hMem'
      rcases mem_cons.mp hMem' with rfl | hOther
      · exact hWithin
      · exact hInner q' hOther
  have hOld : (tb.desc t i).subtable? = none := by
    rw [hLeaf]
    rfl
  have hR' := hR.write hSlot hOld rfl hNewDesc also_else
  have hSame : tb.write t i (.leaf word) = tb := by
    unfold Tables.write
    rw [← hLeaf, RadixTable.write_self]
  rw [hSame] at hR'
  have hAction := mapAction_leaf hValid hCoversMm
  refine ⟨.ok (tb, cfg.start k n + cfg.blockSize k - 1), ?_, ?_⟩
  · unfold mapEntry
    dsimp only
    rw [hType, hAction, afterSubtable_block]
  · exact MapPost.of_block hCoversMm (Extends.refl tb) (span_leaf meeting_cons_off hR' hSlot hOld)
      (fun hBudget => absurd (hBudget.2 q (mem_meeting.mp hMem).1) hNotApart)

/- A sub-table that is there already is entered. -/
theorem mapEntry_table (hRec : EntersWell cfg mm L left k recurse)
    (hNew : ∀ k' n', Span cfg k (cfg.start k n) (cfg.start k n + cfg.blockSize k) k' n' → ¬ V k' n')
    (hV : ¬ V k n) {j : Nat} (hTable : tb.desc t i = .table j) :
    TurnsWell cfg mm L V k n i t recurse tb
      (neededTables cfg L mm left (k + 1) (512 * n) 512) := by
  have hDesc := hR.describes hSlot
  have hCount := (hR.counted hSlot hTable).2
  rw [pick_of_not hV, hTable] at hDesc
  rw [pick_of_not hV] at hCount
  have hLevel := hDesc.1
  have hType : (tb.desc t i).type = tableDesc := by
    rw [hTable]
    rfl
  have hSub : (tb.desc t i).subtable? = some (.sub j) := by
    rw [hTable]
    rfl
  have hNewDesc :
      Describes cfg
        (pick (Also V fun k' n' => k' = k ∧ n' = n) (mm :: L) L k n) k n (.table j) := by
    rw [pick_of also_self]
    refine ⟨hLevel, ?_⟩
    rw [meeting_cons_of_meets hMeets]
    exact cons_ne_nil _ _
  have hR' :
      Reflects cfg (bump cfg j tb) (pick (Also V fun k' n' => k' = k ∧ n' = n) (mm :: L) L) := by
    apply hR.recount hSlot hTable bump_desc sameOthers_bump hNewDesc _ also_else
    rw [pick_of also_self, meeting_cons_of_meets hMeets, length_cons]
    exact counted_bump hCount
  have hBelow := hRec _ _ _ _ _ _ hLevel hSlot hTable hR' hMeets (by
    intro k' n' hSpan hAlso
    rcases hAlso with hOld | ⟨hEq, _⟩
    · exact hNew k' n' ⟨by have hDepth := hSpan.1; omega, hSpan.2⟩ hOld
    · have hDepth := hSpan.1
      omega)
  refine ⟨recurse (cfg.start k n) (.sub j) tb, ?_, ?_⟩
  · unfold mapEntry
    dsimp only
    rw [hType, mapAction_table hLevel hMeets, hSub]
  · have hExt : Extends tb (bump cfg j tb) := by
      intro t' i' _
      rw [bump_desc]
    have hFree :
        Budgeted cfg mm L →
          freeTables cfg (bump cfg j tb) + ([] : List (Nat × Nat)).length = freeTables cfg tb := by
      intro hBudget
      have hPos := length_pos_of_ne_nil hDesc.2
      exact freeTables_bump hBudget.1 hCount hPos
    exact hBelow.ascend hExt hFree

/- A sub-table is created and entered, if there is one left. -/
theorem mapEntry_create (hValid : mm.Valid cfg) (hRec : EntersWell cfg mm L left k recurse)
    (hNew : ∀ k' n', Span cfg k (cfg.start k n) (cfg.start k n + cfg.blockSize k) k' n' → ¬ V k' n')
    (hV : ¬ V k n) (hInvalid : tb.desc t i = .invalid) (hSplits : mm.Splits cfg k n) :
    TurnsWell cfg mm L V k n i t recurse tb
      ((k, n) :: neededTables cfg L mm left (k + 1) (512 * n) 512) := by
  have hLevelLe := hR.level_le hSlot
  have hLevel := hValid.level_lt_of_splits hMeets hSplits hLevelLe
  have hPos := cfg.blockSize_pos k
  have hDesc := hR.describes hSlot
  rw [pick_of_not hV, hInvalid] at hDesc
  have hEmpty : meeting cfg L k n = [] := hDesc
  have hType : (tb.desc t i).type = invalidDesc := by
    rw [hInvalid]
    rfl
  have hAction := mapAction_invalid hValid hLevelLe hMeets
  rw [if_pos hSplits] at hAction
  unfold TurnsWell mapEntry
  dsimp only
  rw [hType, hAction]
  rcases getEmpty_cases cfg tb with
    ⟨hGet, hStatic⟩ | ⟨hGet, hDyn, hNone⟩ | ⟨j, tb₀, hGet, hBound, hFree, hSameDesc, hAfter⟩
  · rw [hGet]
    exact ⟨.error .outOfTables, rfl, .outOfTables hStatic⟩
  · rw [hGet]
    have hPage := cfg.page_dvd_start k n
    have hBlockPage := cfg.page_dvd_blockSize k
    refine ⟨.ok (tb, cfg.start k n), ?_, ?_⟩
    · unfold afterSubtable
      dsimp only
      unfold Config.blockSize at hPos hBlockPage
      rw [if_pos (by omega)]
    · refine .stopped hPage (Extends.refl tb) hDyn ?_
      intro _
      refine ⟨(k, n), ?_, rfl, Nat.le_refl k, hLevelLe, Nat.le_refl _, by omega, ?_⟩
      · rw [hNone]
        rfl
      · intro _
        apply hR.pick_congr meeting_cons_off
        intro k' n' x _ _
        unfold Also Span
        constructor
        · exact Or.inl
        · rintro (hOld | hSpan)
          · exact hOld
          · omega
  · rw [hGet]
    have hOld : (tb.desc t i).subtable? = none := by
      rw [hInvalid]
      rfl
    have hWrite :
        (bump cfg j (tb₀.write t i (.table j))).desc = RadixTable.write tb.desc t i (.table j) := by
      rw [bump_desc, ← hSameDesc]
      rfl
    rcases hAfter t i (.table j) with ⟨hOthers, hCount, hBudgeted⟩
    have hNewDesc :
        Describes cfg
          (pick (Also V fun k' n' => k' = k ∧ n' = n) (mm :: L) L k n) k n (.table j) := by
      rw [pick_of also_self]
      refine ⟨hLevel, ?_⟩
      rw [meeting_cons_of_meets hMeets]
      exact cons_ne_nil _ _
    have hR' :
        Reflects cfg (bump cfg j (tb₀.write t i (.table j)))
          (pick (Also V fun k' n' => k' = k ∧ n' = n) (mm :: L) L) := by
      apply hR.link hSlot hOld hFree hBound hWrite hOthers hNewDesc _ _ also_else
      · rw [pick_of also_self, meeting_cons_of_meets hMeets, hEmpty]
        exact hCount
      · intro n' hDiv
        have hIn := (cfg.div_eq_iff_start_mem hLevel).mp hDiv
        have hNotV : ¬ Also V (fun k' n' => k' = k ∧ n' = n) (k + 1) n' := by
          rintro (hOldV | ⟨hEq, _⟩)
          · exact hNew (k + 1) n' ⟨Nat.le_succ k, hIn⟩ hOldV
          · omega
        rw [pick_of_not hNotV]
        apply eq_nil_iff_forall_not_mem.mpr
        intro q hMem
        have hParts := mem_meeting.mp hMem
        have hStop : cfg.start (k + 1) n' + cfg.blockSize (k + 1) ≤ cfg.start k (n + 1) :=
          cfg.start_add_le_of_lt (Nat.le_succ k) (by rw [cfg.start_succ]; exact hIn.2)
        rw [cfg.start_succ] at hStop
        have hUp : q ∈ meeting cfg L k n := mem_meeting.mpr ⟨hParts.1, hParts.2.mono hIn.1 hStop⟩
        rw [hEmpty] at hUp
        cases hUp
    have hSlot' : (tb₀.write t i (.table j)).slot k n = some (t, i) := by
      have hSelf :=
        RadixTable.slot_write_self (d := Desc.table j)
          hR.noSharing hSlot
      rw [← hSameDesc] at hSelf
      exact hSelf
    have hTable : (tb₀.write t i (.table j)).desc t i = .table j := RadixTable.write_same _ _ _ _
    have hBelow := hRec _ _ _ _ _ _ hLevel hSlot' hTable hR' hMeets (by
      intro k' n' hSpan hAlso
      rcases hAlso with hOldV | ⟨hEq, _⟩
      · exact hNew k' n' ⟨by have hDepth := hSpan.1; omega, hSpan.2⟩ hOldV
      · have hDepth := hSpan.1
        omega)
    have hFree₁ :
        Budgeted cfg mm L →
          freeTables cfg (bump cfg j (tb₀.write t i (.table j))) + [(k, n)].length =
            freeTables cfg tb :=
      fun hBudget => hBudgeted hBudget.1
    refine ⟨_, rfl, ?_⟩
    exact hBelow.ascend (extends_write hInvalid hWrite) hFree₁

/-
  One turn of the loop, over the entry and everything below
  it.
-/
theorem mapEntry_post (hValid : mm.Valid cfg) (hValidL : ∀ q ∈ L, q.Valid cfg)
    (hOrder : ∀ q ∈ L, q.Within mm ∨ q.Apart mm) (hRec : EntersWell cfg mm L left k recurse)
    (hNew :
      ∀ k' n', Span cfg k (cfg.start k n) (cfg.start k n + cfg.blockSize k) k' n' → ¬ V k' n') :
    TurnsWell cfg mm L V k n i t recurse tb
      (neededAt cfg L mm (fun n => neededTables cfg L mm left (k + 1) (512 * n) 512) k n) := by
  have hPos := cfg.blockSize_pos k
  have hV : ¬ V k n := hNew k n ⟨Nat.le_refl k, Nat.le_refl _, by omega⟩
  have hDesc := hR.describes hSlot
  rw [pick_of_not hV] at hDesc
  have hIff := hDesc.invalid_iff
  unfold neededAt
  rw [if_pos hMeets]
  cases hRead : tb.desc t i with
  | invalid =>
    rw [if_neg (not_not.mpr (hIff.mp hRead))]
    by_cases hSplits : mm.Splits cfg k n
    · rw [if_pos hSplits]
      exact mapEntry_create hR hSlot hMeets hValid hRec hNew hV hRead hSplits
    · rw [if_neg hSplits]
      exact mapEntry_write hR hSlot hMeets hValid hV hRead hSplits
  | leaf word => exact mapEntry_leaf hR hSlot hMeets hValid hValidL hOrder _ hV hRead
  | table j =>
    have hUsed : meeting cfg L k n ≠ [] := by
      intro hNil
      rw [hRead] at hIff
      cases hIff.mpr hNil
    rw [if_pos hUsed]
    exact mapEntry_table hR hSlot hMeets hRec hNew hV hRead

end Entry

----
-- The Loop
----

section Loop

variable {cfg : Config} {mm : MmapRegion}
variable {L : List MmapRegion} {left k : Nat}

theorem needed_eq_nil {below : Nat → List (Nat × Nat)} {first entries : Nat}
    (hNot : ∀ n, first ≤ n → n < first + entries → ¬ mm.Meets cfg k n) :
    (List.range' first entries).flatMap (neededAt cfg L mm below k) = [] := by
  rw [flatMap_eq_nil_iff]
  intro n hMem
  rcases mem_range'_1.mp hMem with ⟨hGe, hLt⟩
  unfold neededAt
  rw [if_neg (hNot n hGe hLt)]

theorem MapPost.of_stopped
    {N N₂ : List (Nat × Nat)} {tb tb' : Tables} {V : Nat → Nat → Prop} {a b c endVa : Nat}
    (hPage : 4096 ∣ endVa) (hExt : Extends tb tb') (hDyn : cfg.platXlatTablesDynamic = true)
    (hStops : Budgeted cfg mm L → ∃ entry, StopsAt cfg mm L N tb V k a b tb' endVa entry)
    (hStop : b ≤ c) :
    MapPost cfg mm L (N ++ N₂) tb V k a c (.ok (tb', endVa)) := by
  refine .stopped hPage hExt hDyn ?_
  intro hBudget
  rcases hStops hBudget with ⟨entry, hAt⟩
  have hNeeded := hAt.needed
  have hIndex := List.getElem?_eq_some_iff.mp hNeeded
  rcases hIndex with ⟨hLt, _⟩
  refine ⟨entry, ?_, hAt.place, hAt.depth_ge, hAt.level_le,
    hAt.ge, Nat.lt_of_lt_of_le hAt.lt hStop, hAt.reflects⟩
  rw [getElem?_append_left hLt]
  exact hNeeded

/- What holds before each turn of the loop. -/
structure LoopPre
    (cfg : Config) (mm : MmapRegion) (L : List MmapRegion)
    (table : TableRef) (k first entries : Nat) (i : Nat) (tb : Tables)
    (V : Nat → Nat → Prop) : Prop where
  reflects : Reflects cfg tb (pick V (mm :: L) L)
  slots : ∀ i' < entries, tb.slot k (first + i') = some (table, i')
  lo : mm.baseVa < cfg.start k (first + i) + cfg.blockSize k
  hi : cfg.start k (first + i) < mm.baseVa + mm.size
  unvisited :
    ∀ k' n', Span cfg k (cfg.start k (first + i)) (cfg.start k (first + entries)) k' n' → ¬ V k' n'

theorem mapLoop_post (hValid : mm.Valid cfg) (hValidL : ∀ q ∈ L, q.Valid cfg)
    (hOrder : ∀ q ∈ L, q.Within mm ∨ q.Apart mm)
    {recurse : Nat → TableRef → Tables → Except Fault (Tables × Nat)}
    (hRec : EntersWell cfg mm L left k recurse) {table : TableRef} {first entries : Nat}
    (hEntries : 0 < entries) (rest : Nat) :
    ∀ {i tb V}, i + rest = entries → LoopPre cfg mm L table k first entries i tb V →
      MapPost cfg mm L
        ((List.range' (first + i) rest).flatMap
          (neededAt cfg L mm
            (fun n => neededTables cfg L mm left (k + 1) (512 * n) 512) k))
        tb V k (cfg.start k (first + i))
        (cfg.start k (first + entries))
        (mapLoop cfg mm (cfg.baseLevel + k) table recurse rest i (cfg.start k (first + i)) tb) := by
  have hBlock := cfg.blockSize_pos k
  induction rest with
  | zero =>
    intro i tb V hSum hPre
    have hi : i = entries := by omega
    subst hi
    have hStart : 0 < cfg.start k (first + i) := Nat.mul_pos (by omega) hBlock
    have hHi := hPre.hi
    refine .done (by omega) (Extends.refl tb) ?_ (fun _ => rfl)
    apply hPre.reflects.pick_congr meeting_cons_off
    intro k' n' x _ _
    unfold Also Span
    constructor
    · exact Or.inl
    · rintro (hV | hSpan)
      · exact hV
      · omega
  | succ rest ih =>
    intro i tb V hSum hPre
    have hNext : cfg.start k (first + (i + 1)) = cfg.start k (first + i) + cfg.blockSize k :=
      cfg.start_succ k (first + i)
    have hEnd : cfg.start k (first + (i + 1)) ≤ cfg.start k (first + entries) :=
      cfg.start_le_start k (by omega)
    have hNow := mapEntry_post hPre.reflects (hPre.slots i (by omega))
      ⟨hPre.lo, hPre.hi⟩ hValid hValidL hOrder hRec (by
        intro k' n' hSpan
        apply hPre.unvisited k' n'
        exact ⟨hSpan.1, hSpan.2.1, Nat.lt_of_lt_of_le hSpan.2.2 (by omega)⟩)
    rcases hNow with ⟨res, hEq, hPost⟩
    have hList :
        List.range' (first + i) (rest + 1) = (first + i) :: List.range' (first + (i + 1)) rest := by
      rw [List.range'_succ, Nat.add_assoc]
    rw [hList, flatMap_cons]
    -- No table is needed behind the end of the region.
    have hBehind :
        mm.baseVa + mm.size ≤ cfg.start k (first + (i + 1)) →
          (List.range' (first + (i + 1)) rest).flatMap
            (neededAt cfg L mm
              (fun n => neededTables cfg L mm left (k + 1) (512 * n) 512) k) = [] := by
      intro hLast
      apply needed_eq_nil
      intro n hGe _ hMeets
      have hMono := cfg.start_le_start k hGe
      have hHi := hMeets.2
      omega
    have hPageNow := cfg.page_dvd_start k (first + (i + 1))
    rw [hNext] at hPageNow
    unfold mapLoop
    rw [hEq]
    cases hPost with
    | assertion hAttr => exact .assertion hAttr
    | outOfTables hStatic => exact .outOfTables hStatic
    | stopped hPage hExt hDyn hStops =>
      rename_i tb' endVa
      have hNe : endVa ≠ cfg.start k (first + i) + xlatBlockSize (cfg.baseLevel + k) - 1 := by
        unfold Config.blockSize at hBlock hPageNow
        omega
      unfold afterSubtable
      dsimp only
      rw [if_pos hNe]
      exact MapPost.of_stopped hPage hExt hDyn hStops (by omega)
    | done hLast hExt hR hFree =>
      rename_i tb' endVa
      have hDone : MapPost cfg mm L _ tb V k (cfg.start k (first + i))
          (cfg.start k (first + i) + cfg.blockSize k)
          (.ok (tb', endVa)) :=
        .done hLast hExt hR hFree
      by_cases hGo : endVa = cfg.start k (first + i) + xlatBlockSize (cfg.baseLevel + k) - 1
      · subst hGo
        unfold afterSubtable
        dsimp only
        rw [if_neg (not_not.mpr rfl)]
        dsimp only
        have hReach : cfg.start k (first + i) + cfg.blockSize k ≤ mm.baseVa + mm.size := by
          unfold Config.blockSize at hLast hBlock ⊢
          omega
        have hVa := hValid.va_dvd
        have hSize := hValid.size_dvd
        rw [hValid.endVa_eq]
        by_cases hBreak :
            mm.baseVa + mm.size - 1 ≤ cfg.start k (first + i) + xlatBlockSize (cfg.baseLevel + k)
        · rw [if_pos hBreak]
          have hExact : mm.baseVa + mm.size ≤ cfg.start k (first + (i + 1)) := by
            rw [hNext]
            omega
          rw [hBehind hExact, append_nil]
          exact hDone.widen_stop (by omega) (by omega)
        · rw [if_neg hBreak]
          have hTurn :
              LoopPre cfg mm L table k first entries (i + 1) tb'
                (Also V
                  (Span cfg k (cfg.start k (first + i))
                    (cfg.start k (first + i) + cfg.blockSize k))) := by
            refine ⟨hR, ?_, ?_, ?_, ?_⟩
            · intro i' hLt
              exact hExt.slot (hPre.slots i' hLt)
            · have hLo := hPre.lo
              omega
            · rw [hNext]
              omega
            · rintro k' n' hSpan (hV | hBefore)
              · exact hPre.unvisited k' n'
                  ⟨hSpan.1, by
                    have hGe := hSpan.2.1
                    omega, hSpan.2.2⟩ hV
              · have hGe := hSpan.2.1
                have hLt := hBefore.2.2
                omega
          have hRest := ih (by omega) hTurn
          rw [hNext] at hRest
          exact MapPost.append hExt hFree hRest (by omega) (by omega)
      · unfold afterSubtable
        dsimp only
        rw [if_pos hGo]
        have hExact : mm.baseVa + mm.size ≤ cfg.start k (first + (i + 1)) := by
          rw [hNext]
          unfold Config.blockSize at hLast ⊢
          omega
        rw [hBehind hExact, append_nil]
        exact hDone.widen_stop (by omega) (by omega)

end Loop

----
-- Tables
----

section Table

variable {cfg : Config} {mm : MmapRegion}
variable {L : List MmapRegion}

section

variable (hValid : mm.Valid cfg)
include hValid

section

variable (hValidL : ∀ q ∈ L, q.Valid cfg) (hOrder : ∀ q ∈ L, q.Within mm ∨ q.Apart mm)
include hValidL hOrder

/- The function itself, on a table that the region meets. -/
theorem mapTable_post {left k : Nat} (hLevel : cfg.baseLevel + k ≤ 3)
    (hRec :
      EntersWell cfg mm L left k
        (fun va subtable tb =>
          xlatTablesMapRegion cfg mm left va subtable xlatTableEntries (cfg.baseLevel + k + 1) tb))
    {table : TableRef} {first entries : Nat} {tb tb' : Tables} {V : Nat → Nat → Prop}
    (hEnter :
      (if cfg.platXlatTablesDynamic ∧ cfg.baseLevel + k > cfg.baseLevel then
        xlatTableIncRegionsCount table tb
      else .ok tb) = .ok tb')
    (hR : Reflects cfg tb' (pick V (mm :: L) L))
    (hSlots : ∀ i < entries, tb'.slot k (first + i) = some (table, i))
    (hLo : mm.baseVa < cfg.start k (first + entries))
    (hHi : cfg.start k first < mm.baseVa + mm.size) (hEntries : 0 < entries)
    (hNew :
      ∀ k' n', Span cfg k (cfg.start k first) (cfg.start k (first + entries)) k' n' → ¬ V k' n') :
    MapPost cfg mm L (neededTables cfg L mm (left + 1) k first entries) tb' V k (cfg.start k first)
      (cfg.start k (first + entries))
      (xlatTablesMapRegion cfg mm (left + 1) (cfg.start k first) table entries
        (cfg.baseLevel + k) tb) := by
  rcases firstEntry_eq hLo hHi hValid.size_pos hEntries with ⟨i, hFirst, hi, hMeets, hBefore⟩
  have hBounds : cfg.baseLevel + k ≥ cfg.baseLevel ∧ cfg.baseLevel + k ≤ xlatTableLevelMax :=
    ⟨Nat.le_add_right _ _, hLevel⟩
  have hStart : cfg.start k first ≤ cfg.start k (first + i) := cfg.start_le_start k (by omega)
  unfold xlatTablesMapRegion
  rw [if_neg (not_not.mpr hBounds), hFirst]
  rw [hEnter]
  have hPre : LoopPre cfg mm L table k first entries i tb' V := by
    refine ⟨hR, hSlots, hMeets.1, hMeets.2, ?_⟩
    intro k' n' hSpan
    apply hNew k' n'
    exact ⟨hSpan.1, hStart.trans hSpan.2.1, hSpan.2.2⟩
  have hLoop := mapLoop_post hValid hValidL hOrder hRec hEntries (entries - i) (by omega) hPre
  have hNeeded :
      neededTables cfg L mm (left + 1) k first entries =
        (List.range' (first + i) (entries - i)).flatMap
          (neededAt cfg L mm
            (fun n => neededTables cfg L mm left (k + 1) (512 * n) 512) k) := by
    have hSplit :
        List.range' first entries =
          List.range' first i ++ List.range' (first + i) (entries - i) := by
      rw [List.range'_append_1]
      congr 1
      omega
    rw [neededTables, hSplit, flatMap_append, needed_eq_nil, nil_append]
    intro n hGe hLt hOther
    have hStop : cfg.start k n + cfg.blockSize k ≤ cfg.start k (first + i) := by
      rw [← cfg.start_succ]
      exact cfg.start_le_start k (by omega)
    have hNear := hOther.1
    omega
  rw [hNeeded]
  apply hLoop.widen_start hStart
  intro hLt
  apply hBefore
  have hLtNum := cfg.lt_of_start_lt hLt
  omega

theorem entersWell (left : Nat) :
    ∀ k, cfg.baseLevel + k + 1 + left = 4 → EntersWell cfg mm L left k
        (fun va subtable tb =>
          xlatTablesMapRegion cfg mm left va subtable
            xlatTableEntries (cfg.baseLevel + k + 1) tb) := by
  induction left with
  | zero =>
    intro k hLeft tb V n t i j hLevel
    omega
  | succ left ih =>
    intro k hLeft tb V n t i j hLevel hSlot hTable hR hMeets hNew
    have hChild := cfg.start_child hLevel n
    have hStop : cfg.start (k + 1)
        (512 * n + xlatTableEntries) = cfg.start k n + cfg.blockSize k := by
      have hMul : 512 * n + xlatTableEntries = 512 * (n + 1) := by
        unfold xlatTableEntries
        omega
      rw [hMul, cfg.start_child hLevel, cfg.start_succ]
    have hSlots :
        ∀ i < xlatTableEntries, (bump cfg j tb).slot (k + 1) (512 * n + i) = some (.sub j, i) := by
      intro i hLt
      unfold xlatTableEntries at hLt
      have hDiv : (512 * n + i) / 512 = n := by omega
      have hMod : (512 * n + i) % 512 = i := by omega
      have hHere := Tables.slot_child hSlot hTable hDiv
      rw [hMod] at hHere
      rw [bump_slot]
      exact hHere
    have hPost := mapTable_post hValid hValidL hOrder (by omega) (ih (k + 1) (by omega))
      (enter_eq j tb (Nat.succ_pos k)) hR
      hSlots
      (by rw [hStop]; exact hMeets.1)
      (by rw [hChild]; exact hMeets.2) (by decide)
      (by rw [hChild, hStop]; exact hNew)
    rw [hChild, hStop] at hPost
    exact hPost

theorem mapFromBase_post {tb : Tables} (hR : Reflects cfg tb (fun _ _ => L)) :
    MapPost cfg mm L (neededTables cfg L mm cfg.levels 0 0 cfg.baseTableEntries)
      tb (fun _ _ => False) 0 0 cfg.virtAddrSpaceSize
      (mapFromBase cfg mm tb) := by
  have hBase := cfg.baseLevel_le
  have hSpec := cfg.baseTableEntries_spec
  have hSize : 0 < cfg.virtAddrSpaceSize := Nat.two_pow_pos _
  have hEntries : 0 < cfg.baseTableEntries := by
    have hNe : cfg.baseTableEntries ≠ 0 := by
      intro hZero
      rw [hZero, Config.start, Nat.zero_mul] at hSpec
      omega
    omega
  obtain ⟨left, hLeft⟩ : ∃ left, cfg.levels = left + 1 := by
    refine ⟨cfg.levels - 1, ?_⟩
    unfold Config.levels xlatTableLevelMax
    omega
  have hSum : cfg.baseLevel + 0 + 1 + left = 4 := by
    unfold Config.levels xlatTableLevelMax at hLeft
    omega
  have hZero : cfg.start 0 0 = 0 := Nat.zero_mul _
  have hStop : cfg.start 0 (0 + cfg.baseTableEntries) = cfg.virtAddrSpaceSize := by
    rw [Nat.zero_add]
    exact hSpec.2
  have hR' : Reflects cfg tb (pick (fun _ _ => False) (mm :: L) L) := by
    apply hR.congr
    intro k n x _
    rw [pick_of_not not_false]
  have hLe := hValid.va_le
  have hPos := hValid.size_pos
  have hPost :
      MapPost cfg mm L (neededTables cfg L mm (left + 1) 0 0 cfg.baseTableEntries)
        tb (fun _ _ => False) 0 (cfg.start 0 0)
        (cfg.start 0 (0 + cfg.baseTableEntries))
        (xlatTablesMapRegion cfg mm (left + 1) (cfg.start 0 0) .base cfg.baseTableEntries
          (cfg.baseLevel + 0) tb) :=
    mapTable_post hValid hValidL hOrder (by omega) (entersWell hValid hValidL hOrder left 0 hSum)
      (if_neg (fun h => Nat.lt_irrefl _ h.2)) hR'
      (fun i _ => by rw [Nat.zero_add]; rfl)
      (by rw [hStop]; omega) (by rw [hZero]; omega) hEntries
      (fun _ _ _ => not_false)
  rw [hStop, hZero] at hPost
  unfold mapFromBase
  rw [hLeft]
  exact hPost

end

theorem MapPost.mapped {N : List (Nat × Nat)} {tb tb' : Tables}
    (hPost :
      MapPost cfg mm L N tb (fun _ _ => False) 0 0 cfg.virtAddrSpaceSize (.ok (tb', mm.endVa))) :
    Extends tb tb' ∧ Reflects cfg tb' (fun _ _ => mm :: L) := by
  have hPos := hValid.size_pos
  have hEndVa := hValid.endVa_eq
  cases hPost with
  | done hEnd hExt hR hFree =>
    refine ⟨hExt, ?_⟩
    apply hR.congr
    intro k n x hSlot
    by_cases hMeets : mm.Meets cfg k n
    · have hSpan : Also (fun _ _ => False) (Span cfg 0 0 cfg.virtAddrSpaceSize) k n := by
        right
        have hHi := hMeets.2
        exact ⟨Nat.zero_le _, Nat.zero_le _, by omega⟩
      rw [pick_of hSpan]
    · rw [meeting_cons_of_not_meets hMeets]
      by_cases hV : Also (fun _ _ => False) (Span cfg 0 0 cfg.virtAddrSpaceSize) k n
      · rw [pick_of hV, meeting_cons_of_not_meets hMeets]
      · rw [pick_of_not hV]
  | stopped hPage hExt hDyn hStops =>
    have hVa := hValid.va_dvd
    have hSize := hValid.size_dvd
    omega

end

end Table

end Tfa.Xlat
