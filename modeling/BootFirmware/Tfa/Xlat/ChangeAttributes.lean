import BootFirmware.Tfa.Xlat.Attributes
import BootFirmware.Tfa.Xlat.Initialisation

/-
  `change_mem_attributes` in every context that is reached.

  The number of pages is kept in an `int`, and the walk looks
  at 9 bits of an address on each level, so that the range
  has to be one that both tell apart.

  Key definitions include:
    * `Config.walkSize`
    * `PagesRewritten`
    * `Reached`
    * `ChangedPage` and `SamePage`
    * `Refused` and `Covered`

  The main results are:
    * `find_write`
    * `rewritePages_post`
    * `Reached.linked`
    * `changeMemAttributes_exact`
-/

namespace Tfa.Xlat

----
-- Walks
----

/- The addresses that a walk tells apart. -/
def Config.walkSize (cfg : Config) : Nat :=
  xlatTableEntries * cfg.blockSize 0

theorem Config.walkSize_le (cfg : Config) :
    cfg.walkSize ≤ 2 ^ 48 := by
  have hBlock : cfg.blockSize 0 ≤ 2 ^ 39 := by
    unfold Config.blockSize
    rw [xlatBlockSize_eq]
    refine Nat.pow_le_pow_right (by decide) ?_
    unfold xlatAddrShift xlatTableLevelMax
    omega
  unfold Config.walkSize xlatTableEntries
  omega

section

variable {cfg : Config} {tb tb' : Tables} {va : Nat}

/- The walk starts at the entry of the base table. -/
theorem root_slot (tb : Tables) (hVa : va < cfg.walkSize) :
    tb.slot 0 (va / cfg.blockSize 0) = some (.base, xlatTableIdx va (cfg.baseLevel + 0)) := by
  have hLt : va / cfg.blockSize 0 < 512 := by
    rw [Nat.div_lt_iff_lt_mul (cfg.blockSize_pos 0)]
    exact hVa
  rw [xlatTableIdx_eq, Nat.mod_eq_of_lt hLt]
  rfl

variable {t : TableRef}

theorem child_slot {k j : Nat} (hLevel : cfg.baseLevel + k < 3)
    (hSlot : tb.slot k (va / cfg.blockSize k) = some (t, xlatTableIdx va (cfg.baseLevel + k)))
    (hRead : tb.desc t (xlatTableIdx va (cfg.baseLevel + k)) = .table j) :
    tb.slot (k + 1) (va / cfg.blockSize (k + 1)) =
      some (.sub j, xlatTableIdx va (cfg.baseLevel + (k + 1))) := by
  have hDiv := cfg.div_blockSize_succ hLevel va
  rw [xlatTableIdx_eq]
  exact Tables.slot_child hSlot hRead hDiv

/- What a walk answers is an entry that it reaches. -/
theorem findLoop_slot (left : Nat) :
    ∀ {k entries : Nat} {t t' : TableRef} {i' level : Nat}, cfg.baseLevel + k + left = 4 →
      tb.slot k (va / cfg.blockSize k) = some (t, xlatTableIdx va (cfg.baseLevel + k)) →
      findEntryLoop tb va left t entries (cfg.baseLevel + k) = .ok (some (t', i', level)) →
      ∃ k', level = cfg.baseLevel + k' ∧ tb.slot k' (va / cfg.blockSize k') = some (t', i') := by
  induction left with
  | zero =>
    intro k entries t t' i' level _ _ hFind
    cases hFind
  | succ left ih =>
    intro k entries t t' i' level hLeft hSlot hFind
    unfold findEntryLoop at hFind
    dsimp only at hFind
    split at hFind
    · cases hFind
    split at hFind
    · cases hFind
    split at hFind
    · split at hFind
      · cases hFind
        exact ⟨k, rfl, hSlot⟩
      · cases hFind
    rename_i hNotLast
    split at hFind
    · cases hFind
      exact ⟨k, rfl, hSlot⟩
    cases hNext : (tb.desc t (xlatTableIdx va (cfg.baseLevel + k))).subtable? with
    | none =>
      rw [hNext] at hFind
      cases hFind
    | some subtable =>
      rw [hNext] at hFind
      rcases subtable?_eq_some hNext with ⟨j, hRead, rfl⟩
      have hLevel : cfg.baseLevel + k < 3 := by
        unfold xlatTableLevelMax at hNotLast
        omega
      exact ih (by omega) (child_slot hLevel hSlot hRead) hFind

theorem levels_eq (cfg : Config) :
    cfg.baseLevel + 0 + cfg.levels = 4 := by
  have hBase := cfg.baseLevel_le
  unfold Config.levels xlatTableLevelMax
  omega

theorem find_slot (hVa : va < cfg.walkSize) {i level : Nat}
    (hFind : findXlatTableEntry cfg tb va = .ok (some (t, i, level))) :
    ∃ k, level = cfg.baseLevel + k ∧ tb.slot k (va / cfg.blockSize k) = some (t, i) :=
  findLoop_slot cfg.levels (levels_eq cfg) (root_slot tb hVa) hFind

/- A walk depends on the entries that it reaches. -/
theorem findLoop_congr (hUpper : ∀ k t i, cfg.baseLevel + k < 3 →
      tb.slot k (va / cfg.blockSize k) = some (t, i) → tb'.desc t i = tb.desc t i)
    (hLast : ∀ k t i, cfg.baseLevel + k = 3 →
      tb.slot k (va / cfg.blockSize k) = some (t, i) → (tb'.desc t i).type = (tb.desc t i).type)
    (left : Nat) :
    ∀ {k entries : Nat} {t : TableRef}, cfg.baseLevel + k + left = 4 →
      tb.slot k (va / cfg.blockSize k) = some (t, xlatTableIdx va (cfg.baseLevel + k)) →
      findEntryLoop tb' va left t entries (cfg.baseLevel + k) =
        findEntryLoop tb va left t entries (cfg.baseLevel + k) := by
  induction left with
  | zero =>
    intro k entries t _ _
    rfl
  | succ left ih =>
    intro k entries t hLeft hSlot
    unfold findEntryLoop
    dsimp only
    by_cases hEnd : cfg.baseLevel + k = xlatTableLevelMax
    · rw [hLast k _ _ hEnd hSlot]
      simp only [if_pos hEnd]
    · have hLevel : cfg.baseLevel + k < 3 := by
        unfold xlatTableLevelMax at hEnd
        omega
      rw [hUpper k _ _ hLevel hSlot]
      cases hNext : (tb.desc t (xlatTableIdx va (cfg.baseLevel + k))).subtable? with
      | none => rfl
      | some subtable =>
        rcases subtable?_eq_some hNext with ⟨j, hRead, rfl⟩
        have hRest := @ih (k + 1) xlatTableEntries (.sub j)
          (by omega) (child_slot hLevel hSlot hRead)
        dsimp only
        rw [Nat.add_assoc, hRest]

/- Entries of different pages are different. -/
theorem find_page_other (hLinked : Linked cfg tb) {va' i i' level' : Nat} {t t' : TableRef}
    (hVa : va < cfg.walkSize) (hVa' : va' < cfg.walkSize)
    (hFind : findXlatTableEntry cfg tb va = .ok (some (t, i, xlatTableLevelMax)))
    (hFind' : findXlatTableEntry cfg tb va' = .ok (some (t', i', level')))
    (hPage : va' / pageSize ≠ va / pageSize) :
    ¬ (t' = t ∧ i' = i) := by
  rintro ⟨rfl, rfl⟩
  rcases find_slot hVa hFind with ⟨k, hLevel, hSlot⟩
  rcases find_slot hVa' hFind' with ⟨k', -, hSlot'⟩
  have hSame := hLinked.noSharing _ _ _ _ _ hSlot hSlot'
  have hSize : cfg.blockSize k = pageSize := by
    unfold Config.blockSize
    rw [← hLevel]
    rfl
  rw [← hSame.1, hSize] at hSame
  exact hPage hSame.2.symm

/- The descriptor of a page is written over. -/
theorem find_write (hLinked : Linked cfg tb) {va' i word : Nat} (hVa' : va' < cfg.walkSize)
    (hFind : findXlatTableEntry cfg tb va' = .ok (some (t, i, xlatTableLevelMax)))
    (hType : (tb.desc t i).type = pageDesc)
    (hWord : word &&& descMask = pageDesc) (hVa : va < cfg.walkSize) :
    findXlatTableEntry cfg (tb.write t i (.leaf word)) va = findXlatTableEntry cfg tb va := by
  rcases find_slot hVa' hFind with ⟨k, hLevel, hSlot⟩
  refine findLoop_congr ?_ ?_ cfg.levels (levels_eq cfg) (root_slot tb hVa)
  · intro k' t' i' hUpper hSlot'
    refine RadixTable.write_other _ _ ?_
    rintro ⟨rfl, rfl⟩
    have hSame := hLinked.noSharing _ _ _ _ _ hSlot hSlot'
    unfold xlatTableLevelMax at hLevel
    omega
  · intro k' t' i' _ _
    by_cases hHere : t' = t ∧ i' = i
    · rcases hHere with ⟨rfl, rfl⟩
      unfold Tables.write
      dsimp only
      rw [RadixTable.write_same, hType]
      exact hWord
    · have hOther : (tb.write t i (.leaf word)).desc t' i' = tb.desc t' i' :=
        RadixTable.write_other _ _ hHere
      rw [hOther]

theorem xlatTableIdx_page {va' : Nat} (hPage : va' / pageSize = va / pageSize) (level : Nat) :
    xlatTableIdx va' level = xlatTableIdx va level := by
  have hShift : ∀ x, x >>> 12 = x / pageSize := fun x => Nat.shiftRight_eq_div_pow x 12
  unfold xlatTableIdx xlatAddrShift
  rw [Nat.shiftRight_add, Nat.shiftRight_add, hShift, hShift, hPage]

/- Addresses with the same indices have the same walk. -/
theorem find_of_idx (tb : Tables) {va' : Nat}
    (hIdx : ∀ k, xlatTableIdx va' (cfg.baseLevel + k) = xlatTableIdx va (cfg.baseLevel + k)) :
    findXlatTableEntry cfg tb va' = findXlatTableEntry cfg tb va := by
  have hLoop : ∀ left k t entries, findEntryLoop tb va' left t entries (cfg.baseLevel + k) =
        findEntryLoop tb va left t entries (cfg.baseLevel + k) := by
    intro left
    induction left with
    | zero => exact fun _ _ _ => rfl
    | succ left ih =>
      intro k t entries
      unfold findEntryLoop
      rw [hIdx]
      simp only [Nat.add_assoc, ih]
  exact hLoop cfg.levels 0 .base cfg.baseTableEntries

theorem find_page (tb : Tables) {va' : Nat} (hPage : va' / pageSize = va / pageSize) :
    findXlatTableEntry cfg tb va' = findXlatTableEntry cfg tb va :=
  find_of_idx tb fun k => xlatTableIdx_page hPage (cfg.baseLevel + k)

end

----
-- Pages
----

/- The address belongs to one of the pages. -/
def InPages (baseVa count va : Nat) : Prop :=
  baseVa ≤ va ∧ va < baseVa + count * pageSize

/- The page that a loop comes to after some turns. -/
def pageAddr (baseVa i : Nat) : Nat :=
  (baseVa + i * pageSize) % 2 ^ 64

/- What the first loop asks of a page. -/
def Changeable (cfg : Config) (tables : TableAddresses) (attr : Nat) (tb : Tables)
    (va : Nat) : Prop :=
  ∃ t i, findXlatTableEntry cfg tb va = .ok (some (t, i, xlatTableLevelMax)) ∧
      (tb.desc t i).word tables &&& descMask = pageDesc ∧
      (((tb.desc t i).word tables >>> attrIndexShift) &&& attrIndexMask = attrDeviceIndex →
        attr &&& mtExecuteNever ≠ 0)

/- What the second loop does to a page. -/
def Rewritten (cfg : Config) (tables : TableAddresses) (attr : Nat) (tb tb' : Tables)
    (va : Nat) : Prop :=
  ∃ t i oldAttr, findXlatTableEntry cfg tb va = .ok (some (t, i, xlatTableLevelMax)) ∧
      memAttributes cfg.xlatRegime ((tb.desc t i).word tables) = .ok oldAttr ∧
      memAttributes cfg.xlatRegime ((tb'.desc t i).word tables) =
        .ok (replaced cfg.xlatRegime oldAttr attr) ∧
      (tb'.desc t i).word tables &&& tableAddrMask = (tb.desc t i).word tables &&& tableAddrMask ∧
      (replaced cfg.xlatRegime oldAttr attr &&& mtRw ≠ 0 →
        replaced cfg.xlatRegime oldAttr attr &&& mtExecuteNever ≠ 0)

/- What it does to all of them. -/
structure PagesRewritten
    (cfg : Config) (tables : TableAddresses) (attr baseVa count : Nat)
    (tb tb' : Tables) : Prop where
  walk : ∀ va < cfg.walkSize, findXlatTableEntry cfg tb' va = findXlatTableEntry cfg tb va
  kept :
    ∀ va < cfg.walkSize, ¬ InPages baseVa count va → ∀ t i level,
        findXlatTableEntry cfg tb va = .ok (some (t, i, level)) → tb'.desc t i = tb.desc t i
  pages : ∀ va, InPages baseVa count va → Rewritten cfg tables attr tb tb' va

theorem word_type (tables : TableAddresses) (desc : Desc) :
    desc.word tables &&& descMask = desc.type := by
  cases desc with
  | invalid => exact Nat.zero_and descMask
  | leaf word => rfl
  | table j =>
    rcases tables.aligned j with ⟨page, hPage⟩
    have hZero : tables.addr j &&& descMask = 0 := by
      have hMask : descMask = 2 ^ 2 - 1 := rfl
      rw [hMask, Nat.and_two_pow_sub_one_eq_mod, hPage]
      omega
    unfold Desc.word Desc.type
    rw [Nat.and_or_distrib_right, hZero]
    rfl

section

variable {cfg : Config} {tables : TableAddresses}
variable {attr : Nat}

/- The address field is the address of a page. -/
theorem page_of_tableAddrMask (word : Nat) :
    4096 ∣ word &&& tableAddrMask ∧ word &&& tableAddrMask < 2 ^ 48 := by
  constructor
  · have hSize : 4096 = 2 ^ 12 := rfl
    have hMask : tableAddrMask &&& (2 ^ 12 - 1) = 0 := by decide
    rw [hSize, Nat.dvd_iff_mod_eq_zero, ← Nat.and_two_pow_sub_one_eq_mod, Nat.and_assoc, hMask,
      Nat.and_zero]
  · exact Nat.lt_of_le_of_lt Nat.and_le_right (by decide)

/- The first loop is through if every page it comes to passes. -/
theorem checkPages_iff {tb : Tables} {count baseVa : Nat} {ret : Int}
    (hBase : baseVa < 2 ^ 64) (hCheck : checkPages cfg tables tb attr count baseVa = .ok ret) :
    ret = 0 ↔ ∀ i < count, Changeable cfg tables attr tb (pageAddr baseVa i) := by
  have hInval : -einval ≠ 0 := by decide
  induction count generalizing baseVa with
  | zero =>
    cases hCheck
    exact iff_of_true rfl fun i hi => absurd hi (Nat.not_lt_zero i)
  | succ count ih =>
    have hFirst : pageAddr baseVa 0 = baseVa := by
      unfold pageAddr
      omega
    -- A first page that fails is all that counts.
    have hFails : ¬ Changeable cfg tables attr tb baseVa →
        ¬ ∀ i < count + 1, Changeable cfg tables attr tb (pageAddr baseVa i) := by
      intro hNot hAll
      exact hNot (hFirst ▸ hAll 0 (Nat.succ_pos count))
    unfold checkPages at hCheck
    split at hCheck
    · cases hCheck
    · rename_i hFind
      cases hCheck
      refine iff_of_false hInval (hFails ?_)
      rintro ⟨t, i, hFind', -⟩
      rw [hFind] at hFind'
      cases hFind'
    rename_i t i level hFind
    dsimp only at hCheck
    split at hCheck
    · rename_i hPage
      cases hCheck
      refine iff_of_false hInval (hFails ?_)
      rintro ⟨t', i', hFind', hPage', -⟩
      rw [hFind] at hFind'
      cases hFind'
      exact hPage.elim (fun h => h hPage') fun h => h rfl
    rename_i hPage
    split at hCheck
    · rename_i hDevice
      cases hCheck
      refine iff_of_false hInval (hFails ?_)
      rintro ⟨t', i', hFind', -, hDevice'⟩
      rw [hFind] at hFind'
      cases hFind'
      exact hDevice' hDevice.1 hDevice.2
    rename_i hDevice
    push Not at hPage hDevice
    refine (ih (Nat.mod_lt _ (Nat.two_pow_pos 64)) hCheck).trans ?_
    have hNext : ∀ i, pageAddr ((baseVa + pageSize) % 2 ^ 64) i = pageAddr baseVa (i + 1) := by
      intro i
      unfold pageAddr
      rw [Nat.mod_add_mod, Nat.add_assoc, Nat.succ_mul, Nat.add_comm pageSize]
    constructor
    · intro hRest i hi
      cases i with
      | zero =>
        rw [hPage.2] at hFind
        rw [hFirst]
        exact ⟨t, _, hFind, hPage.1, hDevice⟩
      | succ i =>
        rw [← hNext]
        exact hRest i (by omega)
    · intro hAll i hi
      rw [hNext]
      exact hAll (i + 1) (by omega)

theorem changeable_of_pages {tb : Tables} {count baseVa : Nat}
    (hBase : baseVa % pageSize = 0) (hSpace : baseVa + count * pageSize ≤ 2 ^ 64)
    (hAll : ∀ i < count, Changeable cfg tables attr tb (pageAddr baseVa i)) {va : Nat}
    (hIn : InPages baseVa count va) :
    Changeable cfg tables attr tb va := by
  rcases hIn with ⟨hLo, hHi⟩
  unfold pageSize at *
  have hIndex : (va - baseVa) / 4096 < count := by omega
  rcases hAll _ hIndex with ⟨t, i, hFind, hRest⟩
  have hSame : va / pageSize = pageAddr baseVa ((va - baseVa) / 4096) / pageSize := by
    unfold pageAddr pageSize
    omega
  exact ⟨t, i, (find_page tb hSame).trans hFind, hRest⟩

/- Writing the new descriptor of the page at an address. -/
theorem rewritePage_post {tb : Tables} {baseVa i oldAttr word : Nat} {t : TableRef}
    (hLinked : Linked cfg tb) (hAttr : attr &&& mtExecuteNever = 0 → attr &&& mtRw = 0)
    (hBase : baseVa % pageSize = 0) (hVa : baseVa < cfg.walkSize)
    (hChange : Changeable cfg tables attr tb baseVa)
    (hFind : findXlatTableEntry cfg tb baseVa = .ok (some (t, i, xlatTableLevelMax)))
    (hOld : memAttributes cfg.xlatRegime ((tb.desc t i).word tables) = .ok oldAttr)
    (hWord :
      xlatDesc cfg.xlatRegime (newAttributes oldAttr attr)
        ((tb.desc t i).word tables &&& tableAddrMask) 3 = .ok word) :
    Linked cfg (tb.write t i (.leaf word)) ∧
      PagesRewritten cfg tables attr baseVa 1 tb (tb.write t i (.leaf word)) := by
  rcases hChange with ⟨t', i', hFind', hPage, hDevice⟩
  rw [hFind] at hFind'
  cases hFind'
  have hPa := page_of_tableAddrMask ((tb.desc t i).word tables)
  have hCarries := xlatDesc_carries hPa.1 hPa.2 hWord
  have hBack := memAttributes_xlatDesc hPa.1 hPa.2 (reported_of_memAttributes hOld)
    (fun hNever => ⟨hAttr hNever, fun hType => hDevice (device_of_memAttributes hOld hType) hNever⟩)
    hWord
  have hType : (tb.desc t i).type = pageDesc := by
    rw [← word_type tables]
    exact hPage
  refine ⟨hLinked.write t i nofun, ?_, ?_, ?_⟩
  · intro va hLt
    exact find_write hLinked hVa hFind hType hCarries.1 hLt
  · intro va hLt hOut t' i' level' hFind'
    refine RadixTable.write_other _ _ ?_
    refine find_page_other hLinked hVa hLt hFind hFind' ?_
    intro hSame
    refine hOut ⟨?_, ?_⟩
    · unfold pageSize at *
      omega
    · unfold pageSize at *
      omega
  · intro va hIn
    have hSame : va / pageSize = baseVa / pageSize := by
      rcases hIn with ⟨hLo, hHi⟩
      unfold pageSize at *
      omega
    have hRead : (tb.write t i (.leaf word)).desc t i = .leaf word := RadixTable.write_same _ _ _ _
    refine ⟨t, i, oldAttr, (find_page tb hSame).trans hFind, hOld, ?_, ?_, hBack.2⟩
    · rw [hRead]
      exact hBack.1
    · rw [hRead]
      exact hCarries.2

variable {baseVa count : Nat}

/- One page, and then the others. -/
theorem PagesRewritten.cons {tb tb₁ tb₂ : Tables}
    (hBase : baseVa % pageSize = 0) (hSpace : baseVa + (count + 1) * pageSize ≤ cfg.walkSize)
    (hFirst : PagesRewritten cfg tables attr baseVa 1 tb tb₁)
    (hRest : PagesRewritten cfg tables attr (baseVa + pageSize) count tb₁ tb₂) :
    PagesRewritten cfg tables attr baseVa (count + 1) tb tb₂ := by
  have hSplit : ∀ va, InPages baseVa (count + 1) va ↔
      InPages baseVa 1 va ∨ InPages (baseVa + pageSize) count va := by
    intro va
    unfold InPages pageSize
    omega
  have hApart : ∀ va, InPages baseVa 1 va → ¬ InPages (baseVa + pageSize) count va := by
    intro va hIn hRestIn
    unfold InPages pageSize at *
    omega
  have hLt : ∀ va, InPages baseVa (count + 1) va → va < cfg.walkSize :=
    fun va hIn => Nat.lt_of_lt_of_le hIn.2 hSpace
  refine ⟨?_, ?_, ?_⟩
  · intro va hVa
    rw [hRest.walk va hVa, hFirst.walk va hVa]
  · intro va hVa hOut t i level hFind
    rw [hSplit] at hOut
    push Not at hOut
    have hFind₁ := (hFirst.walk va hVa).trans hFind
    rw [hRest.kept va hVa hOut.2 t i level hFind₁, hFirst.kept va hVa hOut.1 t i level hFind]
  · intro va hIn
    have hVa := hLt va hIn
    rcases (hSplit va).mp hIn with hHere | hThere
    · rcases hFirst.pages va hHere with ⟨t, i, oldAttr, hFind, hOld, hNew, hPa, hNever⟩
      have hFind₁ := (hFirst.walk va hVa).trans hFind
      have hSame := hRest.kept va hVa (hApart va hHere) t i _ hFind₁
      refine ⟨t, i, oldAttr, hFind, hOld, ?_, ?_, hNever⟩
      · rw [hSame]
        exact hNew
      · rw [hSame]
        exact hPa
    · rcases hRest.pages va hThere with ⟨t, i, oldAttr, hFind₁, hOld, hNew, hPa, hNever⟩
      have hFind := (hFirst.walk va hVa).symm.trans hFind₁
      have hSame := hFirst.kept va hVa (fun h => hApart va h hThere) t i _ hFind
      refine ⟨t, i, oldAttr, hFind, ?_, hNew, ?_, hNever⟩
      · rw [← hSame]
        exact hOld
      · rw [← hSame]
        exact hPa

/- The pages that are left can still be changed. -/
theorem PagesRewritten.changeable {tb tb' : Tables} {baseVa count va : Nat}
    (hDone : PagesRewritten cfg tables attr baseVa count tb tb')
    (hVa : va < cfg.walkSize) (hOut : ¬ InPages baseVa count va)
    (hChange : Changeable cfg tables attr tb va) :
    Changeable cfg tables attr tb' va := by
  rcases hChange with ⟨t, i, hFind, hPage, hDevice⟩
  have hSame := hDone.kept va hVa hOut t i _ hFind
  refine ⟨t, i, (hDone.walk va hVa).trans hFind, ?_, ?_⟩
  · rw [hSame]
    exact hPage
  · rw [hSame]
    exact hDevice

theorem internal_found {ctx : Ctx} {va : Nat} {mapping : Mapping}
    (hGet : getMemAttributesInternal cfg tables ctx va = .ok (some mapping)) :
    findXlatTableEntry cfg ctx.tables va =
        .ok (some (mapping.table, mapping.tableIdx, mapping.tableLevel)) ∧
      memAttributes cfg.xlatRegime ((ctx.tables.desc mapping.table mapping.tableIdx).word tables) =
        .ok mapping.attributes ∧
      mapping.addrPa =
        (ctx.tables.desc mapping.table mapping.tableIdx).word tables &&& tableAddrMask := by
  unfold getMemAttributesInternal at hGet
  split at hGet
  · cases hGet
  split at hGet
  · cases hGet
  · cases hGet
  rename_i t i level hFind
  dsimp only at hGet
  split at hGet
  · cases hGet
  rename_i attributes hAttr
  cases hGet
  exact ⟨hFind, hAttr, rfl⟩

/- The second loop, over pages that passed the first. -/
theorem rewritePages_post {ctx ctx' : Ctx}
    (hLinked : Linked cfg ctx.tables) (hAttr : attr &&& mtExecuteNever = 0 → attr &&& mtRw = 0)
    (hBase : baseVa % pageSize = 0) (hSpace : baseVa + count * pageSize ≤ cfg.walkSize)
    (hChange : ∀ va, InPages baseVa count va → Changeable cfg tables attr ctx.tables va)
    (hRun : rewritePages cfg tables attr count baseVa ctx = .ok ctx') :
    PagesRewritten cfg tables attr baseVa count ctx.tables ctx'.tables := by
  induction count generalizing baseVa ctx with
  | zero =>
    cases hRun
    refine ⟨fun _ _ => rfl, fun _ _ _ _ _ _ _ => rfl, ?_⟩
    rintro va ⟨hLo, hHi⟩
    omega
  | succ count ih =>
    have hWalk := cfg.walkSize_le
    have hHere : InPages baseVa (count + 1) baseVa := by
      unfold InPages pageSize
      omega
    have hVa : baseVa < cfg.walkSize := Nat.lt_of_lt_of_le hHere.2 hSpace
    have hNext : (baseVa + pageSize) % 2 ^ 64 = baseVa + pageSize := by
      unfold pageSize at *
      omega
    unfold rewritePages at hRun
    split at hRun
    · cases hRun
    · cases hRun
    rename_i old hGet
    split at hRun
    · cases hRun
    rename_i word hWord
    rcases internal_found hGet with ⟨hFind, hOld, hPa⟩
    have hChangeHere := hChange baseVa hHere
    have hLevel : old.tableLevel = xlatTableLevelMax := by
      rcases hChangeHere with ⟨t, i, hFind', -⟩
      have hEq := hFind.symm.trans hFind'
      simp only [Except.ok.injEq, Option.some.injEq, Prod.mk.injEq] at hEq
      exact hEq.2.2
    rw [hLevel] at hFind hWord
    rw [hPa] at hWord
    rcases rewritePage_post hLinked hAttr hBase hVa
      hChangeHere hFind hOld hWord with ⟨hLinked₁, hFirst⟩
    rw [hNext] at hRun
    refine hFirst.cons hBase hSpace (ih hLinked₁ ?_ ?_ ?_ hRun)
    · unfold pageSize at *
      omega
    · unfold pageSize at *
      omega
    · intro va hIn
      refine hFirst.changeable ?_ ?_ (hChange va ?_)
      · unfold InPages pageSize at *
        omega
      · unfold InPages pageSize at *
        omega
      · unfold InPages pageSize at *
        omega

/- Every descriptor that the second loop writes is a page's. -/
theorem rewritePages_linked {ctx ctx' : Ctx} (hLinked : Linked cfg ctx.tables)
    (hRun : rewritePages cfg tables attr count baseVa ctx = .ok ctx') :
    Linked cfg ctx'.tables := by
  induction count generalizing baseVa ctx with
  | zero =>
    cases hRun
    exact hLinked
  | succ count ih =>
    unfold rewritePages at hRun
    split at hRun
    · cases hRun
    · cases hRun
    rename_i old _
    split at hRun
    · cases hRun
    refine ih ?_ hRun
    exact hLinked.write old.table old.tableIdx nofun

end

----
-- Contexts
----

/-
  The contexts that calls lead to, in any order and whatever
  they answer, as long as each of them returns.
-/
inductive Reached
    (cfg : Config)
    (tables : TableAddresses) : Ctx → Prop where
  | fresh : Reached cfg tables Ctx.fresh
  | addRegion {ctx ctx' : Ctx} (mm : MmapRegion) (hReached : Reached cfg tables ctx)
      (hCall : ctx.mmapAddRegionCtx cfg mm = .ok ctx') :
      Reached cfg tables ctx'
  | init {ctx ctx' : Ctx} (hReached : Reached cfg tables ctx)
      (hCall : ctx.initXlatTablesCtx cfg = .ok ctx') :
      Reached cfg tables ctx'
  | addDynamicRegion {ctx ctx' : Ctx} (mm : MmapRegion) (ret : Int)
      (hDynamic : cfg.platXlatTablesDynamic)
      (hReached : Reached cfg tables ctx)
      (hCall : ctx.mmapAddDynamicRegionCtx cfg mm = .ok (ctx', ret)) :
      Reached cfg tables ctx'
  | removeDynamicRegion {ctx ctx' : Ctx} (baseVa size : Nat) (ret : Int)
      (hDynamic : cfg.platXlatTablesDynamic)
      (hReached : Reached cfg tables ctx)
      (hCall : ctx.mmapRemoveDynamicRegionCtx cfg baseVa size = .ok (ctx', ret)) :
      Reached cfg tables ctx'
  | changeAttributes {ctx ctx' : Ctx} (baseVa size attr : Nat) (ret : Int)
      (hReached : Reached cfg tables ctx)
      (hCall : changeMemAttributes cfg tables ctx baseVa size attr = .ok (ctx', ret)) :
      Reached cfg tables ctx'

section

variable {cfg : Config} {tables : TableAddresses}
variable {ctx ctx' : Ctx}

theorem linked_addRegion {mm : MmapRegion}
    (hLinked : Linked cfg ctx.tables) (hCall : ctx.mmapAddRegionCtx cfg mm = .ok ctx') :
    Linked cfg ctx'.tables := by
  unfold Ctx.mmapAddRegionCtx at hCall
  split at hCall
  · cases hCall
    exact hLinked
  split at hCall
  · cases hCall
  split at hCall
  · cases hCall
  · cases hCall
    exact hLinked

theorem linked_mapAll {regions : List MmapRegion} {tb tb' : Tables}
    (hLinked : Linked cfg tb) (hMap : Ctx.mapAll cfg regions tb = .ok tb') :
    Linked cfg tb' := by
  induction regions generalizing tb with
  | nil =>
    cases hMap
    exact hLinked
  | cons mm rest ih =>
    unfold Ctx.mapAll at hMap
    split at hMap
    · cases hMap
    rename_i tb₁ endVa hHead
    split at hMap
    · cases hMap
    exact ih (hLinked.mapFromBase hHead) hMap

theorem linked_init (hCall : ctx.initXlatTablesCtx cfg = .ok ctx') :
    Linked cfg ctx'.tables := by
  have hEmpty : Linked cfg
      { ctx.tables with
        desc := fun _ _ => .invalid
        mappedRegions := fun _ => 0 } := ⟨nofun, nofun⟩
  unfold Ctx.initXlatTablesCtx at hCall
  split at hCall
  · cases hCall
  split at hCall
  · cases hCall
  rename_i tb hMap
  split at hCall
  · cases hCall
  split at hCall
  · cases hCall
  · cases hCall
    exact linked_mapAll hEmpty hMap

variable {ret : Int}

theorem linked_addDynamicRegion {mm : MmapRegion} (hLinked : Linked cfg ctx.tables)
    (hCall : ctx.mmapAddDynamicRegionCtx cfg mm = .ok (ctx', ret)) :
    Linked cfg ctx'.tables := by
  unfold Ctx.mmapAddDynamicRegionCtx at hCall
  dsimp only at hCall
  split at hCall
  · cases hCall
    exact hLinked
  split at hCall
  · cases hCall
    exact hLinked
  split at hCall
  · split at hCall
    · cases hCall
    rename_i tb endVa hMap
    have hMapped := hLinked.mapFromBase hMap
    split at hCall
    · split at hCall
      · cases hCall
        exact hMapped
      · split at hCall
        · cases hCall
        rename_i tb' hUnmap
        cases hCall
        exact hMapped.unmapFromBase hUnmap
    · cases hCall
      exact hMapped
  · cases hCall
    exact hLinked

theorem linked_removeDynamicRegion {baseVa size : Nat} (hLinked : Linked cfg ctx.tables)
    (hCall : ctx.mmapRemoveDynamicRegionCtx cfg baseVa size = .ok (ctx', ret)) :
    Linked cfg ctx'.tables := by
  unfold Ctx.mmapRemoveDynamicRegionCtx at hCall
  split at hCall
  · cases hCall
    exact hLinked
  split at hCall
  · cases hCall
    exact hLinked
  split at hCall
  · cases hCall
    exact hLinked
  split at hCall
  · cases hCall
  rename_i tb hUnmap
  cases hCall
  split at hUnmap
  · exact hLinked.unmapFromBase hUnmap
  · cases hUnmap
    exact hLinked

variable {baseVa size attr : Nat}

/- What is refused before the pages are looked at. -/
def BadArguments (baseVa size attr : Nat) : Prop :=
  baseVa % pageSize ≠ 0 ∨ size = 0 ∨ size % pageSize ≠ 0 ∨
    (attr &&& mtExecuteNever = 0 ∧ attr &&& mtRw ≠ 0)

theorem isPageAligned_iff (va : Nat) :
    isPageAligned va ↔ va % pageSize = 0 := by
  have hPage : 4096 - 1 = 2 ^ 12 - 1 := rfl
  unfold isPageAligned pageSize
  rw [hPage, Nat.and_two_pow_sub_one_eq_mod]

/- Nothing is done, or the two loops have run. -/
theorem changeMemAttributes_cases
    (hCall : changeMemAttributes cfg tables ctx baseVa size attr = .ok (ctx', ret)) :
    (ret ≠ 0 ∧ ctx' = ctx ∧ (BadArguments baseVa size attr ∨
          checkPages cfg tables ctx.tables attr (pagesCount size).toNat baseVa = .ok ret)) ∨
      (ret = 0 ∧ ctx.initialized = true ∧ ¬ BadArguments baseVa size attr ∧
        checkPages cfg tables ctx.tables attr (pagesCount size).toNat baseVa = .ok 0 ∧
        rewritePages cfg tables attr (pagesCount size).toNat baseVa ctx = .ok ctx') := by
  have hInval : -einval ≠ 0 := by decide
  unfold changeMemAttributes at hCall
  split at hCall
  · cases hCall
  rename_i hInit
  split at hCall
  · rename_i hBase
    cases hCall
    exact Or.inl ⟨hInval, rfl, Or.inl (Or.inl fun h => hBase ((isPageAligned_iff _).mpr h))⟩
  rename_i hBase
  split at hCall
  · rename_i hZero
    cases hCall
    exact Or.inl ⟨hInval, rfl, Or.inl (Or.inr (Or.inl hZero))⟩
  rename_i hZero
  split at hCall
  · rename_i hSize
    cases hCall
    exact Or.inl ⟨hInval, rfl, Or.inl (Or.inr (Or.inr (Or.inl hSize)))⟩
  rename_i hSize
  split at hCall
  · rename_i hAttr
    cases hCall
    exact Or.inl ⟨hInval, rfl, Or.inl (Or.inr (Or.inr (Or.inr hAttr)))⟩
  rename_i hAttr
  dsimp only at hCall
  split at hCall
  · cases hCall
  rename_i answer hCheck
  split at hCall
  · rename_i hAnswer
    cases hCall
    exact Or.inl ⟨hAnswer, rfl, Or.inr hCheck⟩
  rename_i hAnswer
  split at hCall
  · cases hCall
  rename_i hRun
  cases hCall
  refine Or.inr ⟨rfl, not_not.mp hInit, ?_, ?_, hRun⟩
  · rintro (hBad | hBad | hBad | hBad)
    · exact hBase fun h => hBad ((isPageAligned_iff _).mp h)
    · exact hZero hBad
    · exact hSize hBad
    · exact hAttr hBad
  · rw [hCheck, not_not.mp hAnswer]

theorem linked_changeMemAttributes (hLinked : Linked cfg ctx.tables)
    (hCall : changeMemAttributes cfg tables ctx baseVa size attr = .ok (ctx', ret)) :
    Linked cfg ctx'.tables := by
  rcases changeMemAttributes_cases hCall with ⟨_, rfl, _⟩ | ⟨_, _, _, _, hRun⟩
  · exact hLinked
  · exact rewritePages_linked hLinked hRun

theorem Reached.linked (hReached : Reached cfg tables ctx) :
    Linked cfg ctx.tables := by
  induction hReached with
  | fresh => exact ⟨nofun, nofun⟩
  | addRegion mm _ hCall ih => exact linked_addRegion ih hCall
  | init _ hCall ih => exact linked_init hCall
  | addDynamicRegion mm ret _ _ hCall ih => exact linked_addDynamicRegion ih hCall
  | removeDynamicRegion baseVa size ret _ _ hCall ih => exact linked_removeDynamicRegion ih hCall
  | changeAttributes baseVa size attr ret _ hCall ih => exact linked_changeMemAttributes ih hCall

end

----
-- Changing Attributes
----

/-
  A page before and after its attributes were changed; behind
  the addresses that a walk tells apart there is none.
-/
def ChangedPage (cfg : Config) (tables : TableAddresses) (attr : Nat) (ctx ctx' : Ctx)
    (va : Nat) : Prop :=
  va < cfg.walkSize ∧ ∃ t i oldAttr,
    (findXlatTableEntry cfg ctx.tables va = .ok (some (t, i, xlatTableLevelMax)) ∧
      findXlatTableEntry cfg ctx'.tables va = .ok (some (t, i, xlatTableLevelMax))) ∧
    (getMemAttributes cfg tables ctx va = .ok (0, some oldAttr) ∧
      getMemAttributes cfg tables ctx' va = .ok (0, some (replaced cfg.xlatRegime oldAttr attr))) ∧
    (ctx'.tables.desc t i).word tables &&& tableAddrMask =
      (ctx.tables.desc t i).word tables &&& tableAddrMask ∧
    (replaced cfg.xlatRegime oldAttr attr &&& mtRw ≠ 0 →
      replaced cfg.xlatRegime oldAttr attr &&& mtExecuteNever ≠ 0)

/- An address that is mapped as before, and where it was. -/
def SamePage (cfg : Config) (ctx ctx' : Ctx)
    (va : Nat) : Prop :=
  findXlatTableEntry cfg ctx'.tables va = findXlatTableEntry cfg ctx.tables va ∧ ∀ t i level,
      findXlatTableEntry cfg ctx.tables va = .ok (some (t, i, level)) →
        ctx'.tables.desc t i = ctx.tables.desc t i

variable {tables : TableAddresses}

theorem getMemAttributes_eq {cfg : Config} {ctx : Ctx} {va i level attributes : Nat} {t : TableRef}
    (hInit : ctx.initialized = true)
    (hFind : findXlatTableEntry cfg ctx.tables va = .ok (some (t, i, level)))
    (hAttr : memAttributes cfg.xlatRegime ((ctx.tables.desc t i).word tables) = .ok attributes) :
    getMemAttributes cfg tables ctx va = .ok (0, some attributes) := by
  unfold getMemAttributes getMemAttributesInternal
  rw [if_neg (not_not.mpr hInit), hFind]
  dsimp only
  rw [hAttr]

theorem getMemAttributes_congr {cfg : Config} {ctx ctx' : Ctx} {va i level : Nat} {t : TableRef}
    (hInit : ctx'.initialized = ctx.initialized)
    (hFind : findXlatTableEntry cfg ctx.tables va = .ok (some (t, i, level)))
    (hFind' : findXlatTableEntry cfg ctx'.tables va = .ok (some (t, i, level)))
    (hSame : ctx'.tables.desc t i = ctx.tables.desc t i) :
    getMemAttributes cfg tables ctx' va = getMemAttributes cfg tables ctx va := by
  unfold getMemAttributes getMemAttributesInternal
  rw [hInit, hFind, hFind']
  dsimp only
  rw [hSame]

theorem rewritePages_initialized {cfg : Config} {attr count baseVa : Nat} {ctx ctx' : Ctx}
    (hRun : rewritePages cfg tables attr count baseVa ctx = .ok ctx') :
    ctx'.initialized = ctx.initialized := by
  induction count generalizing baseVa ctx with
  | zero =>
    cases hRun
    rfl
  | succ count ih =>
    unfold rewritePages at hRun
    split at hRun
    · cases hRun
    · cases hRun
    split at hRun
    · cases hRun
    have hRest := ih hRun
    exact hRest

/- The call is one that fails. -/
def Refused (cfg : Config) (tables : TableAddresses) (ctx : Ctx)
    (baseVa size attr : Nat) : Prop :=
  BadArguments baseVa size attr ∨
    ∃ i < (pagesCount size).toNat, ¬ Changeable cfg tables attr ctx.tables (pageAddr baseVa i)

/-
  The walk tells the addresses of the range apart, and those
  pages that the `int` does not count need no change.
-/
def Covered (cfg : Config) (tables : TableAddresses) (ctx : Ctx)
    (baseVa size attr : Nat) : Prop :=
  baseVa + size ≤ cfg.walkSize ∧
    ∀ va, baseVa + (pagesCount size).toNat * pageSize ≤ va → va < baseVa + size →
      ChangedPage cfg tables attr ctx ctx va

theorem pagesCount_le (size : Nat) :
    (pagesCount size).toNat ≤ size / pageSize := by
  have hMod := Nat.mod_le (size / pageSize) (2 ^ 32)
  unfold pagesCount
  dsimp only
  split
  · omega
  · omega

/- The number of pages, as long as it fits an `int`. -/
theorem pagesCount_eq {size : Nat} (hCount : size < 2 ^ 43) :
    (pagesCount size).toNat = size / pageSize := by
  have hLt : size / pageSize < 2 ^ 31 := by
    unfold pageSize
    omega
  have hMod : size / pageSize % 2 ^ 32 = size / pageSize := Nat.mod_eq_of_lt (by omega)
  unfold pagesCount
  rw [hMod, if_pos hLt]
  rfl

/- The range that an `int` can count. -/
theorem Covered.of_lt {cfg : Config} {ctx : Ctx} {baseVa size attr : Nat}
    (hCount : size < 2 ^ 43) (hPages : size % pageSize = 0)
    (hSpace : baseVa + size ≤ cfg.walkSize) :
    Covered cfg tables ctx baseVa size attr := by
  refine ⟨hSpace, fun va hLo hHi => ?_⟩
  rw [pagesCount_eq hCount, Nat.div_mul_cancel (Nat.dvd_of_mod_eq_zero hPages)] at hLo
  omega

/-
  A call that fails changes nothing, and one that succeeds
  has changed the pages of its range and no other, if and
  only if it is refused, or the range is covered.
-/
theorem changeMemAttributes_exact
    (cfg : Config) (tables : TableAddresses) (ctx ctx' : Ctx) (baseVa size attr : Nat) (ret : Int)
    (hReached : Reached cfg tables ctx) (hVa : baseVa < 2 ^ 64)
    (hCall : changeMemAttributes cfg tables ctx baseVa size attr = .ok (ctx', ret)) :
    ((ret ≠ 0 → ctx' = ctx) ∧ (ret = 0 →
        (∀ va, baseVa ≤ va → va < baseVa + size → ChangedPage cfg tables attr ctx ctx' va) ∧
        (∀ va < cfg.walkSize, va < baseVa ∨ baseVa + size ≤ va → SamePage cfg ctx ctx' va))) ↔
      Refused cfg tables ctx baseVa size attr ∨ Covered cfg tables ctx baseVa size attr := by
  rcases changeMemAttributes_cases hCall with
    ⟨hRet, rfl, hWhy⟩ | ⟨hRet, hInit, hGood, hCheck, hRun⟩
  · -- It failed: the arguments are bad, or a page of the first loop is.
    refine iff_of_true ⟨fun _ => rfl, fun hZero => absurd hZero hRet⟩ (Or.inl ?_)
    rcases hWhy with hBad | hCheck
    · exact Or.inl hBad
    · have hNot := (not_congr (checkPages_iff hVa hCheck)).mp hRet
      push Not at hNot
      exact Or.inr hNot
  have hAll := (checkPages_iff hVa hCheck).mp rfl
  have hNotRefused : ¬ Refused cfg tables ctx baseVa size attr := by
    rintro (hBad | ⟨i, hi, hNot⟩)
    · exact hGood hBad
    · exact hNot (hAll i hi)
  unfold BadArguments at hGood
  push Not at hGood
  rcases hGood with ⟨hBase, hNonzero, hSize, hAttr⟩
  have hCount : (pagesCount size).toNat * pageSize ≤ size := by
    have hMul := Nat.mul_le_mul_right pageSize (pagesCount_le size)
    rw [Nat.div_mul_cancel (Nat.dvd_of_mod_eq_zero hSize)] at hMul
    exact hMul
  have hInit' : ctx'.initialized = true := by
    rw [rewritePages_initialized hRun]
    exact hInit
  have hWalk := cfg.walkSize_le
  -- What the second loop has done, when it stays among its pages.
  have hDone : baseVa + size ≤ cfg.walkSize →
      PagesRewritten cfg tables attr baseVa (pagesCount size).toNat ctx.tables ctx'.tables :=
    fun hSpace => rewritePages_post hReached.linked hAttr hBase (by omega)
      (fun va hIn => changeable_of_pages hBase (by omega) hAll hIn) hRun
  constructor
  · rintro ⟨-, hSuccess⟩
    have hChanged := (hSuccess hRet).1
    have hSpace : baseVa + size ≤ cfg.walkSize := by
      have hLast := (hChanged (baseVa + size - 1) (by omega) (by omega)).1
      omega
    refine Or.inr ⟨hSpace, fun va hLo hHi => ?_⟩
    have hVa' : va < cfg.walkSize := by omega
    have hOut : ¬ InPages baseVa (pagesCount size).toNat va := fun hIn => Nat.not_lt.mpr hLo hIn.2
    rcases hChanged va (by omega) hHi with
      ⟨-, t, i, oldAttr, ⟨hFind, -⟩, ⟨hOld, hNew⟩, -, hNever⟩
    have hSame := (hDone hSpace).kept va hVa' hOut t i _ hFind
    have hFind' := ((hDone hSpace).walk va hVa').trans hFind
    rw [getMemAttributes_congr (hInit'.trans hInit.symm) hFind hFind' hSame] at hNew
    exact ⟨hVa', t, i, oldAttr, ⟨hFind, hFind⟩, ⟨hOld, hNew⟩, rfl, hNever⟩
  · intro hCond
    rcases hCond.resolve_left hNotRefused with ⟨hSpace, hRest⟩
    have hPages := hDone hSpace
    refine ⟨fun hError => absurd hRet hError, fun _ => ⟨fun va hLo hHi => ?_, fun va hVa' hOut => ?_⟩⟩
    · have hVa' : va < cfg.walkSize := by omega
      by_cases hIn : InPages baseVa (pagesCount size).toNat va
      · rcases hPages.pages va hIn with ⟨t, i, oldAttr, hFind, hOld, hNew, hPa, hNever⟩
        have hFind' := (hPages.walk va hVa').trans hFind
        exact ⟨hVa', t, i, oldAttr, ⟨hFind, hFind'⟩,
          ⟨getMemAttributes_eq hInit hFind hOld, getMemAttributes_eq hInit' hFind' hNew⟩, hPa,
          hNever⟩
      · have hBehind : baseVa + (pagesCount size).toNat * pageSize ≤ va :=
          Nat.not_lt.mp fun hLt => hIn ⟨hLo, hLt⟩
        rcases hRest va hBehind hHi with
          ⟨-, t, i, oldAttr, ⟨hFind, -⟩, ⟨hOld, hNew⟩, -, hNever⟩
        have hSame := hPages.kept va hVa' hIn t i _ hFind
        have hFind' := (hPages.walk va hVa').trans hFind
        rw [← getMemAttributes_congr (hInit'.trans hInit.symm) hFind hFind' hSame] at hNew
        exact ⟨hVa', t, i, oldAttr, ⟨hFind, hFind'⟩, ⟨hOld, hNew⟩, by rw [hSame], hNever⟩
    · refine ⟨hPages.walk va hVa', hPages.kept va hVa' fun hIn => ?_⟩
      have hLo := hIn.1
      have hHi := hIn.2
      omega

theorem zero_lt_word : 0 < 2 ^ 64 := Nat.two_pow_pos 64

/- The first page of memory. -/
def firstPage : MmapRegion where
  basePa := 0
  baseVa := 0
  size := 4096
  attr := mtMemory ||| mtRw ||| mtExecuteNever
  granularity := 4096
  basePa_lt := zero_lt_word
  baseVa_lt := zero_lt_word
  size_lt := by decide
  attr_lt := by decide
  granularity_lt := by decide

def firstPageCtx : Ctx :=
  Ctx.raiseMax { Ctx.fresh with mmap := [firstPage] } firstPage

/- Sub-tables one after the other. -/
def arrayOfTables : TableAddresses where
  addr i := 4096 * (i % 2 ^ 36)
  aligned i := Nat.dvd_mul_right 4096 _
  addr_lt i := by
    have hLt : i % 2 ^ 36 < 2 ^ 36 := Nat.mod_lt i (by decide)
    omega

theorem firstPageCtx_changes :
    ((firstPageCtx.initXlatTablesCtx smallConfig).toOption.bind
      fun ctx =>
        (changeMemAttributes smallConfig arrayOfTables ctx 0
          4096 mtExecuteNever).toOption.map (·.2)) =
      some 0 := by
  decide +kernel

/- The page is made read-only. -/
theorem changeMemAttributes_exact_firstPage :
    ∃ ctx ctx' : Ctx, Reached smallConfig arrayOfTables ctx ∧
        changeMemAttributes smallConfig arrayOfTables ctx 0 4096 mtExecuteNever = .ok (ctx', 0) ∧
        ∀ va < 4096, ChangedPage smallConfig arrayOfTables mtExecuteNever ctx ctx' va := by
  have hRun := firstPageCtx_changes
  cases hInit : firstPageCtx.initXlatTablesCtx smallConfig with
  | error fault =>
    rw [hInit] at hRun
    cases hRun
  | ok ctx =>
    rw [hInit] at hRun
    cases hCall : changeMemAttributes smallConfig arrayOfTables ctx 0 4096 mtExecuteNever with
    | error fault =>
      simp only [Except.toOption, Option.bind_some, hCall] at hRun
      cases hRun
    | ok answer =>
      rcases answer with ⟨ctx', ret⟩
      simp only [Except.toOption, Option.bind_some,
        hCall, Option.map_some, Option.some.injEq] at hRun
      subst hRun
      have hReached : Reached smallConfig arrayOfTables
          ctx :=
        .init (.addRegion firstPage .fresh rfl) hInit
      have hExact := (changeMemAttributes_exact smallConfig
        arrayOfTables ctx ctx' 0 4096 mtExecuteNever 0
        hReached (by decide) hCall).mpr
          (Or.inr (Covered.of_lt (by decide) rfl (by decide)))
      exact ⟨ctx, ctx', hReached, hCall, fun va hVa =>
        (hExact.2 rfl).1 va (Nat.zero_le va) (by omega)⟩

/-
  2^32 pages are none to an `int`: the call succeeds without
  having looked at one.
-/
theorem changeMemAttributes_no_pages :
    ∃ ctx : Ctx, Reached smallConfig arrayOfTables ctx ∧
        changeMemAttributes smallConfig arrayOfTables ctx 0 (2 ^ 44) mtExecuteNever = .ok (ctx, 0) ∧
        findXlatTableEntry smallConfig ctx.tables 0 = .ok none := by
  refine ⟨{ Ctx.fresh with initialized := true }, ?_, rfl, rfl⟩
  exact .init .fresh rfl

end Tfa.Xlat
