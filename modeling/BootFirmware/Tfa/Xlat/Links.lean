import BootFirmware.Tfa.Xlat.Reflection

/-
  How the tables refer to one another, in every context that
  calls can lead to.

  No sub-table is referred to twice, and the allocator does
  not hand out one that is referred to.  The mapper enters a
  new table before it counts it, and the unmapper leaves one
  whose count went down to 0 before it unlinks it, so that
  one table at a time is excepted.

  Key definitions include:
    * `Claimed`
    * `LinkedBut` and `Linked`

  The main results are:
    * `mapTable_linked` and `unmapTable_linked`
    * `Linked.mapFromBase` and `Linked.unmapFromBase`
    * `Linked.noSharing`
-/

namespace Tfa.Xlat

----
-- References
----

/- The table is in use, for at least so many regions. -/
def Claimed (cfg : Config) (tb : Tables) (regions : Int)
    (j : Nat) : Prop :=
  if cfg.platXlatTablesDynamic then
    regions ≤ tb.mappedRegions j
  else j < tb.nextTable

/- The references are in order, but for the count of a table. -/
structure LinkedBut
    (cfg : Config) (table : TableRef)
    (tb : Tables) : Prop where
  once : ∀ {t i t' i' j}, tb.desc t i = .table j → tb.desc t' i' = .table j → t = t' ∧ i = i'
  claimed :
    ∀ {t i j}, tb.desc t i = .table j → Claimed cfg tb 0 j ∧ (table ≠ .sub j → Claimed cfg tb 1 j)

/- The base table has no count. -/
def Linked (cfg : Config) (tb : Tables) : Prop :=
  LinkedBut cfg .base tb

/- The references of the second tables are among the first's. -/
def Sublinks (tb tb' : Tables) : Prop :=
  ∀ t i j, tb'.desc t i = .table j → tb.desc t i = .table j

theorem Claimed.mono {cfg : Config} {tb : Tables} {m n : Int} {j : Nat}
    (hClaimed : Claimed cfg tb n j) (hLe : m ≤ n) :
    Claimed cfg tb m j := by
  unfold Claimed at *
  split
  · rename_i hDynamic
    rw [if_pos hDynamic] at hClaimed
    omega
  · rename_i hStatic
    rw [if_neg hStatic] at hClaimed
    exact hClaimed

theorem Sublinks.refl (tb : Tables) :
    Sublinks tb tb :=
  fun _ _ _ hLink => hLink

theorem Sublinks.trans
    {tb tb' tb'' : Tables} (hFirst : Sublinks tb tb') (hSecond : Sublinks tb' tb'') :
    Sublinks tb tb'' :=
  fun t i j hLink => hFirst t i j (hSecond t i j hLink)

namespace LinkedBut

variable {cfg : Config} {tb tb' : Tables}
variable {table : TableRef}

/- Fewer references and the same counts. -/
theorem sublinks (hLinked : LinkedBut cfg table tb) (hSub : Sublinks tb tb')
    (hCounts : tb'.mappedRegions = tb.mappedRegions) (hNext : tb'.nextTable = tb.nextTable) :
    LinkedBut cfg table tb' := by
  refine ⟨?_, ?_⟩
  · intro t i t' i' j hLink hLink'
    exact hLinked.once (hSub _ _ _ hLink) (hSub _ _ _ hLink')
  · intro t i j hLink
    unfold Claimed
    rw [hCounts, hNext]
    exact hLinked.claimed (hSub _ _ _ hLink)

theorem of_linked (hLinked : Linked cfg tb) (table : TableRef) :
    LinkedBut cfg table tb := by
  refine ⟨hLinked.once, ?_⟩
  intro t i j hLink
  have hClaimed := (hLinked.claimed hLink).2 nofun
  exact ⟨hClaimed.mono (by decide), fun _ => hClaimed⟩

/- Without counts no table is excepted. -/
theorem linked_of_static
    (hLinked : LinkedBut cfg table tb) (hStatic : ¬ cfg.platXlatTablesDynamic) :
    Linked cfg tb := by
  refine ⟨hLinked.once, ?_⟩
  intro t i j hLink
  have hClaimed := (hLinked.claimed hLink).1
  refine ⟨hClaimed, fun _ => ?_⟩
  unfold Claimed at *
  rw [if_neg hStatic] at *
  exact hClaimed

end LinkedBut

/- An entry that refers to no table is written. -/
theorem sublinks_write
    (tb : Tables) (t : TableRef) (i : Nat) {desc : Desc} (hDesc : ∀ j, desc ≠ .table j) :
    Sublinks tb (tb.write t i desc) := by
  intro t' i' j hLink
  unfold Tables.write RadixTable.write at hLink
  dsimp only at hLink
  split at hLink
  · exact absurd hLink (hDesc j)
  · exact hLink

theorem Linked.write
    {cfg : Config} {tb : Tables} (hLinked : Linked cfg tb) (t : TableRef) (i : Nat) {desc : Desc}
    (hDesc : ∀ j, desc ≠ .table j) :
    Linked cfg (tb.write t i desc) :=
  hLinked.sublinks (sublinks_write tb t i hDesc) rfl rfl

----
-- The Mapper
----

section

variable {cfg : Config} {mm : MmapRegion}

variable {tb tb' : Tables}

/- A table that is handed out is referred to by no entry. -/
theorem xlatTableGetEmpty_linked
    {j : Nat} (hLinked : Linked cfg tb) (hEmpty : xlatTableGetEmpty cfg tb = .ok (some (j, tb'))) :
    Linked cfg tb' ∧ Claimed cfg tb' 0 j ∧ ∀ t i, tb'.desc t i ≠ .table j := by
  unfold xlatTableGetEmpty at hEmpty
  split at hEmpty
  · rename_i hDynamic
    have hFound := Except.ok.inj hEmpty
    rw [Option.map_eq_some_iff] at hFound
    rcases hFound with ⟨j', hFind, hPair⟩
    cases hPair
    have hTest := List.find?_some hFind
    have hZero : tb.mappedRegions j = 0 := of_decide_eq_true hTest
    refine ⟨hLinked, ?_, ?_⟩
    · unfold Claimed
      rw [if_pos hDynamic, hZero]
    · intro t i hLink
      have hClaimed := (hLinked.claimed hLink).2 nofun
      unfold Claimed at hClaimed
      rw [if_pos hDynamic] at hClaimed
      omega
  · rename_i hStatic
    split at hEmpty
    · cases hEmpty
      have hMore : ∀ {regions j}, Claimed cfg tb regions j →
          ∀ regions', Claimed cfg { tb with nextTable := tb.nextTable + 1 } regions' j := by
        intro regions j hClaimed regions'
        unfold Claimed at *
        rw [if_neg hStatic] at *
        exact Nat.lt_succ_of_lt hClaimed
      refine ⟨⟨hLinked.once, ?_⟩, ?_, ?_⟩
      · intro t i j hLink
        have hClaimed := (hLinked.claimed hLink).1
        exact ⟨hMore hClaimed 0, fun _ => hMore hClaimed 1⟩
      · unfold Claimed
        rw [if_neg hStatic]
        exact Nat.lt_succ_self _
      · intro t i hLink
        have hClaimed := (hLinked.claimed hLink).1
        unfold Claimed at hClaimed
        rw [if_neg hStatic] at hClaimed
        exact Nat.lt_irrefl _ hClaimed
    · cases hEmpty

/- The entry that refers to it is the only one. -/
theorem linkedBut_write_table {tb : Tables} (t : TableRef) (i : Nat) {j : Nat}
    (hLinked : Linked cfg tb) (hClaimed : Claimed cfg tb 0 j)
    (hFree : ∀ t i, tb.desc t i ≠ .table j) :
    LinkedBut cfg (.sub j) (tb.write t i (.table j)) := by
  have hRead : ∀ {t' i' j'}, (tb.write t i (.table j)).desc t' i' = .table j' →
        (t' = t ∧ i' = i ∧ j' = j) ∨ tb.desc t' i' = .table j' := by
    intro t' i' j' hLink
    unfold Tables.write RadixTable.write at hLink
    dsimp only at hLink
    split at hLink
    · rename_i hHere
      cases hLink
      exact Or.inl ⟨hHere.1, hHere.2, rfl⟩
    · exact Or.inr hLink
  refine ⟨?_, ?_⟩
  · intro t₁ i₁ t₂ i₂ j' hFirst hSecond
    rcases hRead hFirst with ⟨rfl, rfl, rfl⟩ | hOld
    · rcases hRead hSecond with ⟨rfl, rfl, -⟩ | hOld'
      · exact ⟨rfl, rfl⟩
      · exact absurd hOld' (hFree _ _)
    · rcases hRead hSecond with ⟨-, -, rfl⟩ | hOld'
      · exact absurd hOld (hFree _ _)
      · exact hLinked.once hOld hOld'
  · intro t' i' j' hLink
    rcases hRead hLink with ⟨-, -, rfl⟩ | hOld
    · exact ⟨hClaimed, fun hOther => absurd rfl hOther⟩
    · have hOne := (hLinked.claimed hOld).2 nofun
      exact ⟨hOne.mono (by decide), fun _ => hOne⟩

/- The loop goes on with the tables of the call. -/
theorem afterSubtable_ok
    {level tableIdxVa : Nat} {res : Except Fault (Tables × Nat)} {tb' : Tables} {stop : Option Nat}
    (hAfter : afterSubtable level tableIdxVa res = .ok (tb', stop)) :
    ∃ endVa, res = .ok (tb', endVa) := by
  cases res with
  | error fault => cases hAfter
  | ok answer =>
    rcases answer with ⟨tb, endVa⟩
    refine ⟨endVa, ?_⟩
    unfold afterSubtable at hAfter
    dsimp only at hAfter
    split at hAfter
    · rw [(Prod.mk.inj (Except.ok.inj hAfter)).1]
    · rw [(Prod.mk.inj (Except.ok.inj hAfter)).1]

variable {table : TableRef} {level : Nat}

/- One entry, if the tables below it are mapped so. -/
theorem mapEntry_linked {recurse : Nat → TableRef → Tables → Except Fault (Tables × Nat)}
    (hRecurse : ∀ va j tb tb' endVa,
      LinkedBut cfg (.sub j) tb → recurse va (.sub j) tb = .ok (tb', endVa) → Linked cfg tb')
    {tableIdx tableIdxVa : Nat} {stop : Option Nat} (hLinked : Linked cfg tb)
    (hEntry : mapEntry cfg mm level table recurse tableIdx tableIdxVa tb = .ok (tb', stop)) :
    Linked cfg tb' := by
  unfold mapEntry at hEntry
  dsimp only at hEntry
  generalize mm.paOf tableIdxVa = pa at hEntry
  generalize xlatTablesMapRegionAction mm
    (tb.desc table tableIdx).type pa tableIdxVa level = action at hEntry
  generalize xlatDesc cfg.xlatRegime mm.attr pa level = word at hEntry
  cases action with
  | error fault => cases hEntry
  | ok action =>
    cases action with
    | none =>
      cases hEntry
      exact hLinked
    | writeBlockEntry =>
      cases word with
      | error fault => cases hEntry
      | ok word =>
        cases hEntry
        exact hLinked.write table tableIdx nofun
    | createNewTable =>
      cases hEmpty : xlatTableGetEmpty cfg tb with
      | error fault =>
        rw [hEmpty] at hEntry
        cases hEntry
      | ok answer =>
        rw [hEmpty] at hEntry
        cases answer with
        | none =>
          cases hEntry
          exact hLinked
        | some answer =>
          rcases answer with ⟨j, tb₁⟩
          rcases xlatTableGetEmpty_linked hLinked hEmpty with ⟨hLinked₁, hClaimed, hFree⟩
          rcases afterSubtable_ok hEntry with ⟨endVa, hCall⟩
          exact hRecurse _ _ _ _ _
            (linkedBut_write_table table tableIdx hLinked₁ hClaimed hFree) hCall
    | recurseIntoTable =>
      cases hSub : (tb.desc table tableIdx).subtable? with
      | none =>
        rw [hSub] at hEntry
        cases hEntry
      | some subtable =>
        rw [hSub] at hEntry
        rcases subtable?_eq_some hSub with ⟨j, -, rfl⟩
        rcases afterSubtable_ok hEntry with ⟨endVa, hCall⟩
        exact hRecurse _ _ _ _ _ (.of_linked hLinked _) hCall

theorem mapLoop_linked {recurse : Nat → TableRef → Tables → Except Fault (Tables × Nat)}
    (hRecurse : ∀ va j tb tb' endVa,
      LinkedBut cfg (.sub j) tb → recurse va (.sub j) tb = .ok (tb', endVa) → Linked cfg tb')
    {left tableIdx tableIdxVa : Nat} {endVa : Nat} (hLinked : Linked cfg tb)
    (hLoop : mapLoop cfg mm level table recurse left tableIdx tableIdxVa tb = .ok (tb', endVa)) :
    Linked cfg tb' := by
  induction left generalizing tableIdx tableIdxVa tb with
  | zero =>
    cases hLoop
    exact hLinked
  | succ left ih =>
    unfold mapLoop at hLoop
    split at hLoop
    · cases hLoop
    · rename_i hEntry
      cases hLoop
      exact mapEntry_linked hRecurse hLinked hEntry
    · rename_i tb₁ hEntry
      have hLinked₁ := mapEntry_linked hRecurse hLinked hEntry
      dsimp only at hLoop
      split at hLoop
      · cases hLoop
        exact hLinked₁
      · exact ih hLinked₁ hLoop

theorem incRegionsCount_linked
    (hLinked : LinkedBut cfg table tb) (hInc : xlatTableIncRegionsCount table tb = .ok tb') :
    Linked cfg tb' := by
  cases table with
  | base => cases hInc
  | sub k =>
    cases hInc
    refine ⟨hLinked.once, ?_⟩
    intro t i j hLink
    have hClaimed := hLinked.claimed hLink
    unfold Claimed at *
    split
    · rename_i hDynamic
      simp only [if_pos hDynamic] at hClaimed
      dsimp only
      by_cases hSame : j = k
      · subst hSame
        rw [Function.update_self]
        exact ⟨by omega, fun _ => by omega⟩
      · rw [Function.update_of_ne hSame]
        have hOne := hClaimed.2 (by
          intro hEq
          cases hEq
          exact hSame rfl)
        exact ⟨by omega, fun _ => hOne⟩
    · rename_i hStatic
      simp only [if_neg hStatic] at hClaimed
      exact ⟨hClaimed.1, fun _ => hClaimed.1⟩

/- A whole table and those below it. -/
theorem mapTable_linked {left : Nat} :
    ∀ {tableBaseVa : Nat} {table : TableRef} {tableEntries level : Nat} {tb tb' : Tables}
      {endVa : Nat}, (level ≤ cfg.baseLevel → table = .base) → LinkedBut cfg table tb →
      xlatTablesMapRegion cfg mm left tableBaseVa table tableEntries level tb = .ok (tb', endVa) →
        Linked cfg tb' := by
  induction left with
  | zero =>
    intro tableBaseVa table tableEntries level tb tb' endVa _
      _ hMap
    cases hMap
  | succ left ih =>
    intro tableBaseVa table tableEntries level tb tb' endVa hBase hLinked hMap
    unfold xlatTablesMapRegion at hMap
    split at hMap
    · cases hMap
    split at hMap
    · cases hMap
    split at hMap
    · cases hMap
    rename_i tb₁ hEnter
    refine mapLoop_linked ?_ ?_ hMap
    · intro va j tb₂ tb₃ endVa₂ hBut hCall
      exact ih (fun h => by omega) hBut hCall
    · split at hEnter
      · exact incRegionsCount_linked hLinked hEnter
      · rename_i hNot
        cases hEnter
        by_cases hDynamic : cfg.platXlatTablesDynamic = true
        · rw [hBase (by
            have hLe : ¬ level > cfg.baseLevel := fun h => hNot ⟨hDynamic, h⟩
            omega)] at hLinked
          exact hLinked
        · exact hLinked.linked_of_static hDynamic

theorem Linked.mapFromBase
    {endVa : Nat} (hLinked : Linked cfg tb) (hMap : Xlat.mapFromBase cfg mm tb = .ok (tb', endVa)) :
    Linked cfg tb' :=
  mapTable_linked (fun _ => rfl) hLinked hMap

----
-- The Unmapper
----

/- What a table is left as, before its entry is looked at. -/
structure Left
    (cfg : Config) (table : TableRef)
    (tb tb' : Tables) : Prop where
  linked : LinkedBut cfg table tb'
  sublinks : Sublinks tb tb'

/- An entry loses its reference when nothing is counted. -/
theorem Left.unlink {t : TableRef} {i j : Nat}
    (hLinked : Linked cfg tb) (hRead : tb.desc t i = .table j) (hLeft : Left cfg (.sub j) tb tb') :
    Linked cfg
      (if tb'.mappedRegions j = 0 then tb'.write t i .invalid
        else tb') := by
  have hOnly : ∀ {t' i'}, tb'.desc t' i' = .table j → t' = t ∧ i' = i := by
    intro t' i' hLink
    exact hLinked.once (hLeft.sublinks _ _ _ hLink) hRead
  split
  · have hGone : ∀ {t' i' j'},
        (tb'.write t i .invalid).desc t' i' = .table j' → tb'.desc t' i' = .table j' ∧ j' ≠ j := by
      intro t' i' j' hLink
      have hOld := @sublinks_write tb' t i .invalid nofun _ _ _ hLink
      refine ⟨hOld, ?_⟩
      rintro rfl
      rcases hOnly hOld with ⟨rfl, rfl⟩
      unfold Tables.write at hLink
      dsimp only at hLink
      rw [RadixTable.write_same] at hLink
      cases hLink
    refine ⟨?_, ?_⟩
    · intro t₁ i₁ t₂ i₂ j' hFirst hSecond
      exact hLeft.linked.once (hGone hFirst).1 (hGone hSecond).1
    · intro t' i' j' hLink
      rcases hGone hLink with ⟨hOld, hOther⟩
      have hClaimed := (hLeft.linked.claimed hOld).2 (by
        intro hEq
        cases hEq
        exact hOther rfl)
      exact ⟨hClaimed.mono (by decide), fun _ => hClaimed⟩
  · refine ⟨hLeft.linked.once, ?_⟩
    intro t' i' j' hLink
    have hClaimed := hLeft.linked.claimed hLink
    refine ⟨hClaimed.1, fun _ => ?_⟩
    by_cases hSame : j' = j
    · subst hSame
      have hZero := hClaimed.1
      unfold Claimed at *
      split
      · rename_i hDynamic
        rw [if_pos hDynamic] at hZero
        omega
      · rename_i hStatic
        rw [if_neg hStatic] at hZero
        exact hZero
    · refine hClaimed.2 ?_
      intro hEq
      cases hEq
      exact hSame rfl

/- One entry, if the tables below it are unmapped so. -/
theorem unmapEntry_linked {recurse : Nat → TableRef → Tables → Except Fault Tables}
    (hRecurse : ∀ va j tb tb',
      Linked cfg tb → recurse va (.sub j) tb = .ok tb' → Left cfg (.sub j) tb tb')
    {tableIdx tableIdxVa : Nat} (hLinked : Linked cfg tb)
    (hEntry : unmapEntry mm level table recurse tableIdx tableIdxVa tb = .ok tb') :
    Linked cfg tb' ∧ Sublinks tb tb' := by
  unfold unmapEntry at hEntry
  dsimp only at hEntry
  generalize xlatTablesUnmapRegionAction mm
    (tb.desc table tableIdx).type tableIdxVa level = action at hEntry
  cases action with
  | error fault => cases hEntry
  | ok action =>
    cases action with
    | none =>
      cases hEntry
      exact ⟨hLinked, Sublinks.refl _⟩
    | writeBlockEntry =>
      cases hEntry
      exact ⟨hLinked.write table tableIdx nofun, sublinks_write tb table tableIdx nofun⟩
    | createNewTable => cases hEntry
    | recurseIntoTable =>
      cases hSub : (tb.desc table tableIdx).subtable? with
      | none =>
        rw [hSub] at hEntry
        cases hEntry
      | some subtable =>
        rw [hSub] at hEntry
        rcases subtable?_eq_some hSub with ⟨j, hRead, rfl⟩
        dsimp only at hEntry
        cases hCall : recurse tableIdxVa (.sub j) tb with
        | error fault =>
          rw [hCall] at hEntry
          cases hEntry
        | ok tb₁ =>
          have hLeft := hRecurse _ _ _ _ hLinked hCall
          have hUnlink := hLeft.unlink hLinked hRead
          rw [hCall] at hEntry
          unfold xlatTableGetIndex at hEntry
          dsimp only at hEntry
          split at hEntry
          · rename_i hZero
            rw [if_pos hZero] at hUnlink
            cases hEntry
            exact ⟨hUnlink, Sublinks.trans hLeft.sublinks
              (sublinks_write tb₁ table tableIdx
                nofun)⟩
          · rename_i hSome
            rw [if_neg hSome] at hUnlink
            cases hEntry
            exact ⟨hUnlink, hLeft.sublinks⟩

theorem unmapLoop_linked {recurse : Nat → TableRef → Tables → Except Fault Tables}
    (hRecurse : ∀ va j tb tb',
      Linked cfg tb → recurse va (.sub j) tb = .ok tb' → Left cfg (.sub j) tb tb')
    {left tableIdx tableIdxVa : Nat} (hLinked : Linked cfg tb)
    (hLoop : unmapLoop mm level table recurse left tableIdx tableIdxVa tb = .ok tb') :
    Linked cfg tb' ∧ Sublinks tb tb' := by
  induction left generalizing tableIdx tableIdxVa tb with
  | zero =>
    cases hLoop
    exact ⟨hLinked, Sublinks.refl _⟩
  | succ left ih =>
    unfold unmapLoop at hLoop
    split at hLoop
    · cases hLoop
    · rename_i tb₁ hEntry
      rcases unmapEntry_linked hRecurse hLinked hEntry with ⟨hLinked₁, hSub₁⟩
      dsimp only at hLoop
      split at hLoop
      · cases hLoop
        exact ⟨hLinked₁, hSub₁⟩
      · rcases ih hLinked₁ hLoop with ⟨hLinked', hSub'⟩
        exact ⟨hLinked', Sublinks.trans hSub₁ hSub'⟩

theorem decRegionsCount_left
    {tb tb' tb'' : Tables} (hLinked : Linked cfg tb') (hSub : Sublinks tb tb')
    (hDec : xlatTableDecRegionsCount table tb' = .ok tb'') :
    Left cfg table tb tb'' := by
  cases table with
  | base => cases hDec
  | sub k =>
    cases hDec
    refine ⟨⟨hLinked.once, ?_⟩, hSub⟩
    intro t i j hLink
    have hClaimed := (hLinked.claimed hLink).2 nofun
    unfold Claimed at *
    split
    · rename_i hDynamic
      rw [if_pos hDynamic] at hClaimed
      dsimp only
      by_cases hSame : j = k
      · subst hSame
        rw [Function.update_self]
        exact ⟨by omega, fun hOther => absurd rfl hOther⟩
      · rw [Function.update_of_ne hSame]
        exact ⟨by omega, fun _ => hClaimed⟩
    · rename_i hStatic
      rw [if_neg hStatic] at hClaimed
      exact ⟨hClaimed, fun _ => hClaimed⟩

/- A whole table and those below it. -/
theorem unmapTable_linked {left : Nat} :
    ∀ {tableBaseVa : Nat} {table : TableRef} {tableEntries level : Nat} {tb tb' : Tables},
      (level ≤ cfg.baseLevel → table = .base) → Linked cfg tb →
      xlatTablesUnmapRegion cfg mm left tableBaseVa table tableEntries level tb = .ok tb' →
        Left cfg table tb tb' := by
  induction left with
  | zero =>
    intro tableBaseVa table tableEntries level tb tb' _ _ hUnmap
    cases hUnmap
  | succ left ih =>
    intro tableBaseVa table tableEntries level tb tb' hBase hLinked hUnmap
    unfold xlatTablesUnmapRegion at hUnmap
    split at hUnmap
    · cases hUnmap
    split at hUnmap
    · cases hUnmap
    split at hUnmap
    · cases hUnmap
    rename_i tb₁ hLoop
    rcases unmapLoop_linked
      (fun va j tb₂ tb₃ hLinked₂ hCall => ih (fun h => by omega) hLinked₂ hCall)
      hLinked hLoop with ⟨hLinked₁, hSub₁⟩
    split at hUnmap
    · exact decRegionsCount_left hLinked₁ hSub₁ hUnmap
    · cases hUnmap
      exact ⟨.of_linked hLinked₁ table, hSub₁⟩

theorem Linked.unmapFromBase
    (hLinked : Linked cfg tb) (hUnmap : Xlat.unmapFromBase cfg mm tb = .ok tb') :
    Linked cfg tb' :=
  (unmapTable_linked (fun _ => rfl) hLinked hUnmap).linked

----
-- Walks
----

/- With a single reference to each table walks do not meet. -/
theorem Linked.noSharing {tb : Tables} (hLinked : Linked cfg tb) :
    RadixTable.NoSharing .base xlatTableEntries Desc.subtable?
      tb.desc := by
  intro k
  induction k with
  | zero =>
    intro n k' n' x hSlot hSlot'
    cases k' with
    | zero =>
      cases hSlot
      cases hSlot'
      exact ⟨rfl, rfl⟩
    | succ k' =>
      cases hSlot
      rcases RadixTable.slot_succ_eq_some hSlot' with ⟨t, i, -, hNext, -⟩
      rcases subtable?_eq_some hNext with ⟨j, -, hBase⟩
      cases hBase
  | succ k ih =>
    intro n k' n' x hSlot hSlot'
    rcases RadixTable.slot_succ_eq_some hSlot with ⟨t, i, hParent, hNext, hIndex⟩
    rcases subtable?_eq_some hNext with ⟨j, hRead, hTable⟩
    cases k' with
    | zero =>
      cases hSlot'
      cases hTable
    | succ k' =>
      rcases RadixTable.slot_succ_eq_some hSlot' with ⟨t', i', hParent', hNext', hIndex'⟩
      rcases subtable?_eq_some hNext' with ⟨j', hRead', hTable'⟩
      have hSame : j' = j := by
        rw [hTable] at hTable'
        cases hTable'
        rfl
      subst hSame
      rcases hLinked.once hRead hRead' with ⟨rfl, rfl⟩
      have hUp := ih _ _ _ _ hParent hParent'
      refine ⟨by rw [hUp.1], ?_⟩
      have hMod : n % xlatTableEntries = n' % xlatTableEntries := by rw [← hIndex, ← hIndex']
      rw [← Nat.div_add_mod n xlatTableEntries, ← Nat.div_add_mod n' xlatTableEntries, hUp.2, hMod]

end

end Tfa.Xlat
