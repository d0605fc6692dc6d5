import BootFirmware.Tfa.Xlat.Mapping
import BootFirmware.Tfa.Xlat.Regions

/-
  Building the tables from the array of regions.

  Key definitions include:
    * `Ctx.addRegions`
    * `Listed`

  The main results are:
    * `mapAll_post`
    * `init_post`
    * `xlat_static_mapping`
-/

namespace Tfa.Xlat

open List

----
-- Contexts Before Initialisation
----

/- Successive calls of `mmap_add_region_ctx`. -/
def Ctx.addRegions (cfg : Config) :
    List MmapRegion → Ctx → Except Fault Ctx
  | [], ctx => .ok ctx
  | mm :: rest, ctx =>
    match ctx.mmapAddRegionCtx cfg mm with
    | .error fault => .error fault
    | .ok ctx => Ctx.addRegions cfg rest ctx

/- The array of a context and its largest addresses. -/
structure Listed (cfg : Config) (ctx : Ctx) : Prop where
  array : ArrayOk cfg ctx.mmap
  maxVa : IsMaxOver MmapRegion.endVa ctx.mmap ctx.maxVa
  maxPa : IsMaxOver MmapRegion.endPa ctx.mmap ctx.maxPa

/- Nothing was mapped yet. -/
structure Pending (cfg : Config) (ctx : Ctx) : Prop extends Listed cfg ctx where
  not_initialized : ctx.initialized = false
  nextTable : ctx.tables.nextTable = 0

theorem isMaxOver_nil (f : MmapRegion → Nat) :
    IsMaxOver f [] 0 :=
  ⟨fun _ hMem => absurd hMem not_mem_nil, Or.inl ⟨rfl, rfl⟩⟩

theorem pending_fresh (cfg : Config) :
    Pending cfg Ctx.fresh where
  array := arrayOk_nil cfg
  maxVa := isMaxOver_nil _
  maxPa := isMaxOver_nil _
  not_initialized := rfl
  nextTable := rfl

theorem raiseMax_mmap (ctx : Ctx) (mm : MmapRegion) :
    (ctx.raiseMax mm).mmap = ctx.mmap := by
  unfold Ctx.raiseMax
  with_reducible rfl

theorem raiseMax_maxVa (ctx : Ctx) (mm : MmapRegion) :
    (ctx.raiseMax mm).maxVa =
      if mm.endVa > ctx.maxVa then mm.endVa
      else ctx.maxVa := by
  unfold Ctx.raiseMax
  with_reducible rfl

theorem raiseMax_maxPa (ctx : Ctx) (mm : MmapRegion) :
    (ctx.raiseMax mm).maxPa =
      if mm.endPa > ctx.maxPa then mm.endPa
      else ctx.maxPa := by
  unfold Ctx.raiseMax
  with_reducible rfl

variable {cfg : Config} {ctx ctx' : Ctx}

theorem Listed.insert {mm : MmapRegion} (hListed : Listed cfg ctx) (hSize : mm.size ≠ 0)
    (hCheck : mmapAddRegionCheck cfg ctx.mmap mm = 0)
    (hMmap : ctx'.mmap = ctx.mmap.insertIdx (mmapCursor ctx.mmap mm) mm)
    (hMaxVa : ctx'.maxVa = ctx.maxVa) (hMaxPa : ctx'.maxPa = ctx.maxPa) :
    Listed cfg (ctx'.raiseMax mm) := by
  have hPerm := ArrayOk.insert_perm ctx.mmap mm
  refine ⟨?_, ?_, ?_⟩
  · rw [raiseMax_mmap, hMmap]
    exact hListed.array.insert hSize hCheck
  · rw [raiseMax_mmap, raiseMax_maxVa, hMmap, hMaxVa]
    exact isMaxOver_insert hPerm hListed.maxVa
  · rw [raiseMax_mmap, raiseMax_maxPa, hMmap, hMaxPa]
    exact isMaxOver_insert hPerm hListed.maxPa

theorem Pending.addRegion
    {mm : MmapRegion} (hPending : Pending cfg ctx) (hAdd : ctx.mmapAddRegionCtx cfg mm = .ok ctx') :
    Pending cfg ctx' ∧ (∀ q, q ∈ ctx'.mmap ↔ q ∈ ctx.mmap ∨ (q = mm ∧ mm.size ≠ 0)) := by
  unfold Ctx.mmapAddRegionCtx at hAdd
  split at hAdd
  · rename_i hSize
    cases hAdd
    refine ⟨hPending, fun q => ⟨Or.inl, ?_⟩⟩
    rintro (hMem | ⟨_, hNonzero⟩)
    · exact hMem
    · exact absurd hSize hNonzero
  rename_i hSize
  split at hAdd
  · cases hAdd
  split at hAdd
  · cases hAdd
  rename_i hCheck
  cases hAdd
  have hZero := not_not.mp hCheck
  constructor
  · exact {
      toListed := hPending.toListed.insert hSize hZero rfl rfl rfl
      not_initialized := hPending.not_initialized
      nextTable := hPending.nextTable }
  · intro q
    have hPerm := ArrayOk.insert_perm ctx.mmap mm
    have hMem : q ∈ ctx.mmap.insertIdx (mmapCursor ctx.mmap mm) mm ↔ q = mm ∨ q ∈ ctx.mmap := by
      rw [hPerm.mem_iff, mem_cons]
    constructor
    · intro hNew
      rcases hMem.mp hNew with hEq | hOld
      · exact Or.inr ⟨hEq, hSize⟩
      · exact Or.inl hOld
    · rintro (hOld | ⟨hEq, _⟩)
      · exact hMem.mpr (Or.inr hOld)
      · exact hMem.mpr (Or.inl hEq)

theorem Pending.addRegions {regions : List MmapRegion}
    (hPending : Pending cfg ctx) (hAdd : ctx.addRegions cfg regions = .ok ctx') :
    Pending cfg ctx' ∧ (∀ q, q ∈ ctx'.mmap ↔ q ∈ ctx.mmap ∨ (q ∈ regions ∧ q.size ≠ 0)) := by
  induction regions generalizing ctx with
  | nil =>
    cases hAdd
    refine ⟨hPending, fun q => ⟨Or.inl, ?_⟩⟩
    rintro (hMem | ⟨hMem, _⟩)
    · exact hMem
    · cases hMem
  | cons mm rest ih =>
    unfold Ctx.addRegions at hAdd
    split at hAdd
    · cases hAdd
    rename_i mid hMid
    rcases hPending.addRegion hMid with ⟨hNext, hMem⟩
    rcases ih hNext hAdd with ⟨hLast, hMem'⟩
    refine ⟨hLast, ?_⟩
    intro q
    rw [hMem', hMem, mem_cons]
    constructor
    · rintro ((hOld | ⟨rfl, hSize⟩) | ⟨hRest, hSize⟩)
      · exact Or.inl hOld
      · exact Or.inr ⟨Or.inl rfl, hSize⟩
      · exact Or.inr ⟨Or.inr hRest, hSize⟩
    · rintro (hOld | ⟨rfl | hRest, hSize⟩)
      · exact Or.inl (Or.inl hOld)
      · exact Or.inl (Or.inr ⟨rfl, hSize⟩)
      · exact Or.inr ⟨hRest, hSize⟩

----
-- Mapping The Array
----

/-
  Mapping the regions that are left, after those of `L`: the
  tables reflect all of them, or a table or a memory type is
  missing.
-/
theorem mapAll_post {rest L : List MmapRegion} {tb : Tables} (hR : Reflects cfg tb (fun _ _ => L))
    (hValidL : ∀ q ∈ L, q.Valid cfg) (hValid : ∀ q ∈ rest, q.Valid cfg)
    (hOrder : rest.Pairwise fun q q' => q.Within q' ∨ q.Apart q')
    (hBefore : ∀ q ∈ L, ∀ q' ∈ rest, q.Within q' ∨ q.Apart q') :
    (∀ tb', Ctx.mapAll cfg rest tb = .ok tb' → Reflects cfg tb' (fun _ _ => rest.reverse ++ L)) ∧
    (∀ fault, Ctx.mapAll cfg rest tb = .error fault →
      fault = .outOfTables ∨ (fault = .assertion ∧ ∃ q ∈ rest, ¬ q.AttrOk)) := by
  induction rest generalizing tb L with
  | nil =>
    constructor
    · intro tb' hMap
      cases hMap
      exact hR
    · intro fault hMap
      cases hMap
  | cons mm rest ih =>
    rcases pairwise_cons.mp hOrder with ⟨hHead, hTail⟩
    have hmm := hValid mm mem_cons_self
    have hPost := mapFromBase_post hmm hValidL (fun q hMem => hBefore q hMem mm mem_cons_self)
      hR
    unfold Ctx.mapAll
    cases hMap : mapFromBase cfg mm tb with
    | error fault =>
      rw [hMap] at hPost
      constructor
      · intro tb' hAbsurd
        cases hAbsurd
      · intro fault' hFault
        cases hFault
        cases hPost with
        | assertion hAttr => exact Or.inr ⟨rfl, mm, mem_cons_self, hAttr⟩
        | outOfTables hStatic => exact Or.inl rfl
    | ok res =>
      rcases res with ⟨tb₁, endVa⟩
      rw [hMap] at hPost
      dsimp only
      by_cases hEnd : endVa = mm.endVa
      · rw [if_neg (not_not.mpr hEnd)]
        rw [hEnd] at hPost
        have hMapped := hPost.mapped hmm
        have hNext := ih hMapped.2
          (fun q hMem => by
            rcases mem_cons.mp hMem with rfl | hOld
            · exact hmm
            · exact hValidL q hOld)
          (fun q hMem => hValid q (mem_cons_of_mem mm hMem))
          hTail
          (fun q hMem q' hMem' => by
            rcases mem_cons.mp hMem with rfl | hOld
            · exact hHead q' hMem'
            · exact hBefore q hOld q' (mem_cons_of_mem mm hMem'))
        constructor
        · intro tb' hRest
          rw [reverse_cons, append_assoc]
          exact hNext.1 tb' hRest
        · intro fault hRest
          rcases hNext.2 fault hRest with
            hOut | ⟨hAssert, q, hMem, hAttr⟩
          · exact Or.inl hOut
          · exact Or.inr ⟨hAssert, q, mem_cons_of_mem mm hMem, hAttr⟩
      · rw [if_pos hEnd]
        constructor
        · intro tb' hAbsurd
          cases hAbsurd
        · intro fault hFault
          cases hFault
          exact Or.inl rfl

/- The largest addresses stay inside the address spaces. -/
theorem Listed.max_le {ctx : Ctx} (hListed : Listed cfg ctx) :
    ctx.maxVa ≤ cfg.vaMaxAddress ∧ ctx.maxPa ≤ cfg.paMaxAddress := by
  constructor
  · rcases hListed.maxVa.2 with ⟨_, hZero⟩ | ⟨q, hMem, hEq⟩
    · omega
    · have hq := hListed.array.valid q hMem
      have hLe := hq.va_le
      rw [hq.endVa_eq] at hEq
      unfold Config.vaMaxAddress
      omega
  · rcases hListed.maxPa.2 with ⟨_, hZero⟩ | ⟨q, hMem, hEq⟩
    · omega
    · have hq := hListed.array.valid q hMem
      have hLe := hq.pa_le
      rw [hq.endPa_eq] at hEq
      unfold Config.paMaxAddress
      omega

theorem init_post {ctx : Ctx} (hPending : Pending cfg ctx) :
    (∀ ctx', ctx.initXlatTablesCtx cfg = .ok ctx' →
      ctx'.mmap = ctx.mmap ∧ Listed cfg ctx' ∧ ctx'.initialized = true ∧
        Reflects cfg ctx'.tables (fun _ _ => ctx.mmap)) ∧
    (∀ fault, ctx.initXlatTablesCtx cfg = .error fault →
      fault = .outOfTables ∨ fault = .unsupportedPa ∨
        (fault = .assertion ∧ ∃ q ∈ ctx.mmap, ¬ q.AttrOk)) := by
  have hEmpty : Reflects cfg
      { ctx.tables with
        desc := fun _ _ => .invalid
        mappedRegions := fun _ => 0 } (fun _ _ => []) :=
    reflects_nil cfg (fun _ _ => rfl) (fun _ => rfl) hPending.nextTable
  have hAll := mapAll_post hEmpty (fun _ hMem => absurd hMem not_mem_nil)
    hPending.array.valid hPending.array.inner_first
    (fun _ hMem => absurd hMem not_mem_nil)
  have hMax := hPending.toListed.max_le
  unfold Ctx.initXlatTablesCtx
  rw [if_neg (by rw [hPending.not_initialized]; decide)]
  cases hMap :
      Ctx.mapAll cfg ctx.mmap
        { ctx.tables with
          desc := fun _ _ => .invalid
          mappedRegions := fun _ => 0 } with
  | error fault =>
    constructor
    · intro ctx' hAbsurd
      cases hAbsurd
    · intro fault' hFault
      cases hFault
      rcases hAll.2 fault hMap with hOut | hAssert
      · exact Or.inl hOut
      · exact Or.inr (Or.inr hAssert)
  | ok tb =>
    dsimp only
    split
    · constructor
      · intro ctx' hAbsurd
        cases hAbsurd
      · intro fault hFault
        cases hFault
        exact Or.inr (Or.inl rfl)
    · rw [if_neg (by omega)]
      constructor
      · intro ctx' hOk
        cases hOk
        refine ⟨rfl, ?_, rfl, ?_⟩
        · exact ⟨hPending.array, hPending.maxVa, hPending.maxPa⟩
        · apply (hAll.1 tb hMap).congr
          intro k n x _
          apply meeting_perm
          rw [append_nil]
          exact reverse_perm ctx.mmap
      · intro fault hAbsurd
        cases hAbsurd

----
-- Static Mapping
----

theorem WalkAgrees.congr {tb : Tables} {L L' : List MmapRegion} {va : Nat}
    (hWalk : WalkAgrees cfg tb L va) (hSame : ∀ q : MmapRegion, q.Contains va → (q ∈ L ↔ q ∈ L')) :
    WalkAgrees cfg tb L' va := by
  refine ⟨hWalk.returns, ?_, ?_⟩
  · rw [hWalk.mapped_iff]
    constructor
    · rintro ⟨q, hMem, hContains⟩
      exact ⟨q, (hSame q hContains).mp hMem, hContains⟩
    · rintro ⟨q, hMem, hContains⟩
      exact ⟨q, (hSame q hContains).mpr hMem, hContains⟩
  · intro table idx level hFind
    rcases hWalk.maps table idx level hFind with ⟨word, q, hRead, ⟨hMem, hContains, hInner⟩, hRest⟩
    refine ⟨word, q, hRead, ⟨(hSame q hContains).mp hMem, hContains, ?_⟩, hRest⟩
    intro q' hMem' hContains'
    exact hInner q' ((hSame q' hContains').mpr hMem') hContains'

/-
  Static mapping.  Regions with known memory types that were
  accepted one after the other are mapped without a failed
  assertion, and the walk of every address agrees with them.
-/
theorem xlat_static_mapping
    (cfg : Config) (regions : List MmapRegion) (ctx : Ctx) (hAttr : ∀ mm ∈ regions, mm.AttrOk)
    (hAdded : Ctx.fresh.addRegions cfg regions = .ok ctx) :
    (∀ fault, ctx.initXlatTablesCtx cfg = .error fault →
      fault = .outOfTables ∨ fault = .unsupportedPa) ∧
    (∀ ctx', ctx.initXlatTablesCtx cfg = .ok ctx' →
      ∀ va ≤ cfg.vaMaxAddress, WalkAgrees cfg ctx'.tables regions va) := by
  rcases (pending_fresh cfg).addRegions hAdded with ⟨hPending, hMem⟩
  have hInit := init_post hPending
  constructor
  · intro fault hFault
    rcases hInit.2 fault hFault with
      hOut | hPa | ⟨_, q, hq, hBad⟩
    · exact Or.inl hOut
    · exact Or.inr hPa
    · rcases (hMem q).mp hq with hOld | ⟨hNew, _⟩
      · cases hOld
      · exact absurd (hAttr q hNew) hBad
  · intro ctx' hOk va hVa
    rcases hInit.1 ctx' hOk with ⟨_, _, _, hR⟩
    have hSpace : 0 < cfg.virtAddrSpaceSize := Nat.two_pow_pos _
    have hLt : va < cfg.virtAddrSpaceSize := by
      unfold Config.vaMaxAddress at hVa
      omega
    apply (hR.find hPending.array.valid hLt).congr
    intro q hContains
    rw [hMem]
    constructor
    · rintro (hOld | ⟨hNew, _⟩)
      · cases hOld
      · exact hNew
    · intro hNew
      refine Or.inr ⟨hNew, ?_⟩
      rcases hContains with ⟨hLo, hHi⟩
      omega

theorem least_bits_le : 25 ≤ 32 := by
  decide

/- An address space of 4 GB and a pool of two sub-tables. -/
def smallConfig : Config where
  virtAddrSpaceBits := 32
  phyAddrSpaceBits := 32
  mmapNum := 4
  tablesNum := 2
  xlatRegime := .el3
  platXlatTablesDynamic := false
  xlatArchGetMaxSupportedPa := 2 ^ 32 - 1
  virt_ge := least_bits_le
  virt_le := by decide
  phy_le := by decide

/- The second gigabyte, in a single block. -/
def secondGigabyte : MmapRegion where
  basePa := 2 ^ 30
  baseVa := 2 ^ 30
  size := 2 ^ 30
  attr := mtMemory
  granularity := 2 ^ 30
  basePa_lt := by decide
  baseVa_lt := by decide
  size_lt := by decide
  attr_lt := by decide
  granularity_lt := by decide

/- A block of two megabytes and four pages. -/
def blockAndPages : MmapRegion :=
  { secondGigabyte with
    size := 2 ^ 21 + 2 ^ 14
    granularity := 2 ^ 21
    size_lt := by decide
    granularity_lt := by decide }

/- The second of the four pages. -/
def innerPage : MmapRegion :=
  { secondGigabyte with
    basePa := 2 ^ 30 + 2 ^ 21 + 2 ^ 12
    baseVa := 2 ^ 30 + 2 ^ 21 + 2 ^ 12
    size := 2 ^ 12
    attr := mtMemory ||| mtRw
    granularity := 2 ^ 12
    basePa_lt := by decide
    baseVa_lt := by decide
    size_lt := by decide
    attr_lt := by decide
    granularity_lt := by decide }

theorem isOk_ok {ε α : Type} {r : Except ε α} (hOk : r.toOption.isSome = true) :
    ∃ a, r = .ok a := by
  cases r with
  | error e => cases hOk
  | ok a => exact ⟨a, rfl⟩

/- The page is mapped in the middle of a larger region. -/
theorem xlat_static_mapping_nested :
    ∃ ctx ctx', Ctx.fresh.addRegions smallConfig [blockAndPages, innerPage] = .ok ctx ∧
      ctx.initXlatTablesCtx smallConfig = .ok ctx' ∧ ∀ va ≤ smallConfig.vaMaxAddress,
        WalkAgrees smallConfig ctx'.tables [blockAndPages, innerPage] va := by
  rcases isOk_ok (r := Ctx.fresh.addRegions smallConfig [blockAndPages, innerPage]) (by
    decide +kernel) with ⟨ctx, hAdded⟩
  have hRun : ((Ctx.fresh.addRegions smallConfig [blockAndPages, innerPage]).bind
      (Ctx.initXlatTablesCtx smallConfig)).toOption.isSome = true := by
    decide +kernel
  rw [hAdded] at hRun
  rcases isOk_ok hRun with ⟨ctx', hInit⟩
  have hAttr : ∀ mm ∈ [blockAndPages, innerPage], mm.AttrOk := by
    intro mm hMem
    rcases mem_pair.mp hMem with rfl | rfl
    · exact Or.inr (Or.inr (by decide))
    · exact Or.inr (Or.inr (by decide))
  have hMapping := xlat_static_mapping smallConfig [blockAndPages, innerPage] ctx hAttr hAdded
  exact ⟨ctx, ctx', hAdded, hInit, hMapping.2 ctx' hInit⟩

/- A memory type that is reserved is not refused. -/
def reservedType : MmapRegion :=
  { secondGigabyte with
    attr := mtTypeMask
    attr_lt := by decide }

theorem xlat_reserved_type_asserts :
    ∃ ctx, Ctx.fresh.addRegions smallConfig [reservedType] = .ok ctx ∧
      ctx.initXlatTablesCtx smallConfig = .error .assertion := by
  refine ⟨Ctx.raiseMax { Ctx.fresh with mmap := [reservedType] } reservedType, rfl, rfl⟩

end Tfa.Xlat
