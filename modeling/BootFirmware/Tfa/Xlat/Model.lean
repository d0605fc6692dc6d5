import Mathlib.Algebra.Group.Nat.Defs
import BootFirmware.Lib.RadixTable
import Mathlib.Logic.Function.Basic

/-
  The translation tables library (version 2) for AArch64:
  the regions of a context, the base table and the
  sub-tables, and the functions that map, unmap and look up.

  Virtual addresses inside the tables stay below 2^48, so
  they are natural numbers; where the code computes with
  values it has not yet checked, the model reduces modulo
  2^64.  The walks over the tables carry the number of
  levels left.  Assertions are enabled.

  Key definitions include:
    * `Config`, `MmapRegion`, `Tables` and `Ctx`
    * `xlatDesc`
    * `xlatTablesMapRegion`
    * `xlatTablesUnmapRegion`
    * `findXlatTableEntry`
    * `Ctx.mmapAddRegionCtx`
    * `Ctx.mmapAddDynamicRegionCtx`
    * `Ctx.mmapRemoveDynamicRegionCtx`
    * `Ctx.initXlatTablesCtx`
-/

namespace Tfa.Xlat

----
-- Levels
----

def xlatTableEntries : Nat := 512

def xlatTableLevelMax : Nat := 3

def minLvlBlockDesc : Nat := 1

def pageSize : Nat := 4096

def xlatAddrShift (level : Nat) : Nat :=
  12 + (xlatTableLevelMax - level) * 9

def xlatBlockSize (level : Nat) : Nat :=
  1 <<< xlatAddrShift level

def xlatBlockMask (level : Nat) : Nat :=
  xlatBlockSize level - 1

def xlatTableIdx (virtualAddr level : Nat) : Nat :=
  (virtualAddr >>> xlatAddrShift level) &&& 0x1FF

def getXlatTableLevelBase (virtAddrSpaceSize : Nat) : Nat :=
  if virtAddrSpaceSize > 1 <<< 39 then 0
  else if virtAddrSpaceSize > 1 <<< 30 then 1
  else 2

----
-- Contexts
----

inductive XlatRegime where
  | el1El0
  | el3
  deriving DecidableEq

/-
  What `REGISTER_XLAT_CONTEXT` fixes.  It checks that the
  virtual address space has a size the architecture allows;
  a physical address has at most 48 bits.
-/
structure Config where
  virtAddrSpaceBits : Nat
  phyAddrSpaceBits : Nat
  mmapNum : Nat
  tablesNum : Nat
  xlatRegime : XlatRegime
  platXlatTablesDynamic : Bool
  xlatArchGetMaxSupportedPa : Nat
  virt_ge : 25 ≤ virtAddrSpaceBits
  virt_le : virtAddrSpaceBits ≤ 48
  phy_le : phyAddrSpaceBits ≤ 48

namespace Config

variable (cfg : Config)

def virtAddrSpaceSize : Nat :=
  2 ^ cfg.virtAddrSpaceBits

def vaMaxAddress : Nat :=
  cfg.virtAddrSpaceSize - 1

def paMaxAddress : Nat :=
  2 ^ cfg.phyAddrSpaceBits - 1

def baseLevel : Nat :=
  getXlatTableLevelBase cfg.virtAddrSpaceSize

/- `GET_NUM_BASE_LEVEL_ENTRIES`. -/
def baseTableEntries : Nat :=
  cfg.virtAddrSpaceSize >>> xlatAddrShift cfg.baseLevel

/- The levels of a walk that starts at the base table. -/
def levels : Nat :=
  xlatTableLevelMax + 1 - cfg.baseLevel

end Config

/- The fields of a region are machine words. -/
structure MmapRegion where
  basePa : Nat
  baseVa : Nat
  size : Nat
  attr : Nat
  granularity : Nat
  basePa_lt : basePa < 2 ^ 64
  baseVa_lt : baseVa < 2 ^ 64
  size_lt : size < 2 ^ 64
  attr_lt : attr < 2 ^ 32
  granularity_lt : granularity < 2 ^ 64
  deriving DecidableEq

namespace MmapRegion

variable (mm : MmapRegion)

/- The last byte, computed modulo the width of an address. -/
def endVa : Nat :=
  (mm.baseVa + mm.size + 2 ^ 64 - 1) % 2 ^ 64

def endPa : Nat :=
  (mm.basePa + mm.size + 2 ^ 64 - 1) % 2 ^ 64

end MmapRegion

/- The base table, or a sub-table by its index. -/
inductive TableRef where
  | base
  | sub (i : Nat)
  deriving DecidableEq

/-
  A descriptor: invalid, a reference to a sub-table, or the
  word of a block or page descriptor.
-/
inductive Desc where
  | invalid
  | table (subtable : Nat)
  | leaf (word : Nat)
  deriving DecidableEq

def invalidDesc : Nat := 0
def blockDesc : Nat := 1
def tableDesc : Nat := 3
def pageDesc : Nat := 3
def descMask : Nat := 3
def tableAddrMask : Nat := 0x0000FFFFFFFFF000

namespace Desc

/- `desc & DESC_MASK`. -/
def type : Desc → Nat
  | .invalid => invalidDesc
  | .table _ => tableDesc
  | .leaf word => word &&& descMask

/- The sub-table a table descriptor refers to. -/
def subtable? : Desc → Option TableRef
  | .table i => some (.sub i)
  | _ => none

end Desc

/-
  The tables and what the two builds keep to allocate them:
  the regions mapped in each table, or the next table.
-/
structure Tables where
  desc : TableRef → Nat → Desc
  mappedRegions : Nat → Int
  nextTable : Nat

namespace Tables

def write (tb : Tables) (table : TableRef) (tableIdx : Nat)
    (desc : Desc) : Tables :=
  { tb with
    desc := RadixTable.write tb.desc table tableIdx desc }

end Tables

structure Ctx where
  mmap : List MmapRegion
  tables : Tables
  maxPa : Nat
  maxVa : Nat
  initialized : Bool

/- Why a call does not return. -/
inductive Fault where
  | assertion
  | outOfTables
  | unsupportedPa
  deriving DecidableEq

----
-- Sub-tables
----

/-
  `xlat_table_get_index`.  The base table has no index, and
  asking for it fails an assertion.
-/
def xlatTableGetIndex : TableRef → Except Fault Nat
  | .base => .error .assertion
  | .sub i => .ok i

def xlatTableAddRegionsCount (change : Int) (table : TableRef)
    (tb : Tables) : Except Fault Tables :=
  match xlatTableGetIndex table with
  | .error fault => .error fault
  | .ok i =>
    .ok { tb with
      mappedRegions := Function.update tb.mappedRegions i (tb.mappedRegions i + change) }

def xlatTableIncRegionsCount : TableRef → Tables → Except Fault Tables :=
  xlatTableAddRegionsCount 1

def xlatTableDecRegionsCount : TableRef → Tables → Except Fault Tables :=
  xlatTableAddRegionsCount (-1)

/- The answer `none` is the null pointer. -/
def xlatTableGetEmpty (cfg : Config) (tb : Tables) :
    Except Fault (Option (Nat × Tables)) :=
  if cfg.platXlatTablesDynamic then
    .ok (((List.range cfg.tablesNum).find? fun i => tb.mappedRegions i = 0).map fun i => (i, tb))
  else if tb.nextTable < cfg.tablesNum then
    .ok (some (tb.nextTable, { tb with nextTable := tb.nextTable + 1 }))
  else
    .error .outOfTables

----
-- Descriptors
----

def mtTypeMask : Nat := 7
def mtDevice : Nat := 0
def mtNonCacheable : Nat := 1
def mtMemory : Nat := 2
def mtRw : Nat := 1 <<< 3
def mtNs : Nat := 1 <<< 4
def mtExecuteNever : Nat := 1 <<< 5
def mtUser : Nat := 1 <<< 6
def mtDynamic : Nat := 1 <<< 30

def lowerAttrs (x : Nat) : Nat := (x &&& 0xfff) <<< 2
def upperAttrs (x : Nat) : Nat := (x &&& 0x7) <<< 52

def xn : Nat := 1 <<< 2
def uxn : Nat := 1 <<< 2
def pxn : Nat := 1 <<< 1
def accessFlag : Nat := 1 <<< 8
def osh : Nat := 0x2 <<< 6
def ish : Nat := 0x3 <<< 6
def apRo : Nat := 1 <<< 5
def apRw : Nat := 0 <<< 5
def apAccessUnprivileged : Nat := 1 <<< 4
def apNoAccessUnprivileged : Nat := 0 <<< 4
def ns : Nat := 1 <<< 3
def attrNonCacheableIndex : Nat := 2
def attrDeviceIndex : Nat := 1
def attrIwbwaOwbwaNtrIndex : Nat := 0

def xlatArchRegimeGetXnDesc : XlatRegime → Nat
  | .el1El0 => upperAttrs uxn ||| upperAttrs pxn
  | .el3 => upperAttrs xn

/-
  The block or page descriptor for a level and attributes.
  Memory types other than the three fail an assertion.
-/
def xlatDesc (regime : XlatRegime)
    (attr addrPa level : Nat) : Except Fault Nat :=
  if addrPa &&& xlatBlockMask level ≠ 0 then
    .error .assertion
  else
    let desc := addrPa
    let desc := desc |||
      (if level = xlatTableLevelMax then pageDesc
        else blockDesc)
    let desc := desc ||| lowerAttrs accessFlag
    let desc := desc ||| (if attr &&& mtNs ≠ 0 then lowerAttrs ns else 0)
    let desc := desc |||
      (if attr &&& mtRw ≠ 0 then lowerAttrs apRw
        else lowerAttrs apRo)
    let desc := desc |||
      (if regime = .el1El0 ∧ attr &&& mtUser ≠ 0 then
        lowerAttrs apAccessUnprivileged
      else
        lowerAttrs apNoAccessUnprivileged)
    let memType := attr &&& mtTypeMask
    if memType = mtDevice then
      .ok (desc ||| lowerAttrs (attrDeviceIndex ||| osh) ||| xlatArchRegimeGetXnDesc regime)
    else
      let desc := desc |||
        (if attr &&& mtRw ≠ 0 ∨ attr &&& mtExecuteNever ≠ 0
          then xlatArchRegimeGetXnDesc regime else 0)
      if memType = mtMemory then
        .ok (desc ||| lowerAttrs (attrIwbwaOwbwaNtrIndex ||| ish))
      else if memType = mtNonCacheable then
        .ok (desc ||| lowerAttrs (attrNonCacheableIndex ||| osh))
      else
        .error .assertion

----
-- Mapping
----

inductive Action where
  | none
  | writeBlockEntry
  | createNewTable
  | recurseIntoTable
  deriving DecidableEq

/-
  The second comparison of the partial case is a disjunction
  in the source, so it also holds of an entry that the
  region does not reach.
-/
def xlatTablesMapRegionAction (mm : MmapRegion) (descType destPa tableEntryBaseVa level : Nat) :
    Except Fault Action :=
  let tableEntryEndVa := tableEntryBaseVa + xlatBlockSize level - 1
  if mm.baseVa ≤ tableEntryBaseVa ∧ mm.endVa ≥ tableEntryEndVa then
    if level = 3 then
      if descType = pageDesc then .ok .none
      else if descType = invalidDesc then
        .ok .writeBlockEntry
      else .error .assertion
    else if descType = tableDesc then .ok .recurseIntoTable
    else if descType = invalidDesc then
      if destPa &&& xlatBlockMask level ≠ 0 ∨ level < minLvlBlockDesc ∨
          mm.granularity < xlatBlockSize level then
        .ok .createNewTable
      else .ok .writeBlockEntry
    else if descType = blockDesc then .ok .none
    else .error .assertion
  else if mm.baseVa ≤ tableEntryEndVa ∨ mm.endVa ≥ tableEntryBaseVa then
    if ¬ level < 3 then .error .assertion
    else if descType = invalidDesc then .ok .createNewTable
    else if descType = tableDesc then .ok .recurseIntoTable
    else .error .assertion
  else .ok .none

/-
  What the recursive call answers for the loop around it:
  `none` to go on, or the address that the loop returns.
-/
def afterSubtable (level tableIdxVa : Nat) :
    Except Fault (Tables × Nat) → Except Fault (Tables × Option Nat)
  | .error fault => .error fault
  | .ok (tb, endVa) =>
    if endVa ≠ tableIdxVa + xlatBlockSize level - 1 then
      .ok (tb, some endVa)
    else
      .ok (tb, none)

/- `base_pa + table_idx_va - base_va`. -/
def MmapRegion.paOf (mm : MmapRegion)
    (tableIdxVa : Nat) : Nat :=
  (mm.basePa + tableIdxVa + 2 ^ 64 - mm.baseVa) % 2 ^ 64

/- One turn of the loop of `xlat_tables_map_region`. -/
def mapEntry (cfg : Config) (mm : MmapRegion) (level : Nat) (table : TableRef)
    (recurse : Nat → TableRef → Tables → Except Fault (Tables × Nat)) (tableIdx tableIdxVa : Nat)
    (tb : Tables) : Except Fault (Tables × Option Nat) :=
  let desc := tb.desc table tableIdx
  let tableIdxPa := mm.paOf tableIdxVa
  match xlatTablesMapRegionAction mm desc.type tableIdxPa tableIdxVa level with
  | .error fault => .error fault
  | .ok .none => .ok (tb, none)
  | .ok .writeBlockEntry =>
    match xlatDesc cfg.xlatRegime mm.attr tableIdxPa level with
    | .error fault => .error fault
    | .ok word => .ok (tb.write table tableIdx (.leaf word), none)
  | .ok .createNewTable =>
    match xlatTableGetEmpty cfg tb with
    | .error fault => .error fault
    | .ok none => .ok (tb, some tableIdxVa)
    | .ok (some (subtable, tb)) =>
      afterSubtable level tableIdxVa
        (recurse tableIdxVa (.sub subtable) (tb.write table tableIdx (.table subtable)))
  | .ok .recurseIntoTable =>
    match desc.subtable? with
    | none => .error .assertion
    | some subtable => afterSubtable level tableIdxVa (recurse tableIdxVa subtable tb)

/- The loop, over the entries that are left. -/
def mapLoop (cfg : Config) (mm : MmapRegion) (level : Nat) (table : TableRef)
    (recurse : Nat → TableRef → Tables → Except Fault (Tables × Nat)) :
    Nat → Nat → Nat → Tables → Except Fault (Tables × Nat)
  | 0, _, tableIdxVa, tb => .ok (tb, tableIdxVa - 1)
  | left + 1, tableIdx, tableIdxVa, tb =>
    match mapEntry cfg mm level table recurse tableIdx tableIdxVa tb with
    | .error fault => .error fault
    | .ok (tb, some endVa) => .ok (tb, endVa)
    | .ok (tb, none) =>
      let tableIdxVa := tableIdxVa + xlatBlockSize level
      if mm.endVa ≤ tableIdxVa then
        .ok (tb, tableIdxVa - 1)
      else
        mapLoop cfg mm level table recurse left (tableIdx + 1) tableIdxVa tb

/- The first entry of a table that a region affects. -/
def firstEntry (mm : MmapRegion) (tableBaseVa tableEntries level : Nat) :
    Except Fault (Nat × Nat) :=
  if mm.baseVa > tableBaseVa then
    let tableIdxVa := mm.baseVa - (mm.baseVa &&& xlatBlockMask level)
    let tableIdx := (tableIdxVa - tableBaseVa) >>> xlatAddrShift level
    if tableIdx < tableEntries then
      .ok (tableIdx, tableIdxVa)
    else
      .error .assertion
  else
    .ok (0, tableBaseVa)

/-
  Map a region.  On success the address of the last byte
  mapped, otherwise that of the entry no table was left for.
-/
def xlatTablesMapRegion (cfg : Config) (mm : MmapRegion) :
    Nat → Nat → TableRef → Nat → Nat → Tables → Except Fault (Tables × Nat)
  | 0, _, _, _, _, _ => .error .assertion
  | left + 1, tableBaseVa, table, tableEntries, level, tb =>
    if ¬ (level ≥ cfg.baseLevel ∧ level ≤ xlatTableLevelMax) then
      .error .assertion
    else
      match firstEntry mm tableBaseVa tableEntries level with
      | .error fault => .error fault
      | .ok (tableIdx, tableIdxVa) =>
        match
          (if cfg.platXlatTablesDynamic ∧ level > cfg.baseLevel then
            xlatTableIncRegionsCount table tb
          else
            .ok tb) with
        | .error fault => .error fault
        | .ok tb =>
          mapLoop cfg mm level table
            (fun va subtable tb =>
              xlatTablesMapRegion cfg mm left va subtable xlatTableEntries (level + 1) tb)
            (tableEntries - tableIdx) tableIdx
            tableIdxVa tb

/- The call that maps a region from the base table down. -/
def mapFromBase (cfg : Config) (mm : MmapRegion)
    (tb : Tables) : Except Fault (Tables × Nat) :=
  xlatTablesMapRegion cfg mm cfg.levels 0 .base cfg.baseTableEntries cfg.baseLevel tb

----
-- Unmapping
----

def xlatTablesUnmapRegionAction (mm : MmapRegion) (descType tableIdxVa level : Nat) :
    Except Fault Action :=
  let tableIdxEndVa := tableIdxVa + xlatBlockSize level - 1
  if mm.baseVa ≤ tableIdxVa ∧ mm.endVa ≥ tableIdxEndVa then
    if level = 3 then
      if descType = pageDesc then .ok .writeBlockEntry
      else .error .assertion
    else if descType = tableDesc then .ok .recurseIntoTable
    else if descType = blockDesc then .ok .writeBlockEntry
    else .error .assertion
  else if mm.baseVa ≤ tableIdxEndVa ∨ mm.endVa ≥ tableIdxVa then
    if ¬ level < 3 then .error .assertion
    else if descType = tableDesc then .ok .recurseIntoTable
    else .error .assertion
  else .ok .none

/- One turn of the loop of `xlat_tables_unmap_region`. -/
def unmapEntry (mm : MmapRegion) (level : Nat) (table : TableRef)
    (recurse : Nat → TableRef → Tables → Except Fault Tables) (tableIdx tableIdxVa : Nat)
    (tb : Tables) : Except Fault Tables :=
  let desc := tb.desc table tableIdx
  match xlatTablesUnmapRegionAction mm desc.type tableIdxVa level with
  | .error fault => .error fault
  | .ok .none => .ok tb
  | .ok .createNewTable => .error .assertion
  | .ok .writeBlockEntry => .ok (tb.write table tableIdx .invalid)
  | .ok .recurseIntoTable =>
    match desc.subtable? with
    | none => .error .assertion
    | some subtable =>
      match recurse tableIdxVa subtable tb with
      | .error fault => .error fault
      | .ok tb =>
        match xlatTableGetIndex subtable with
        | .error fault => .error fault
        | .ok i =>
          if tb.mappedRegions i = 0 then
            .ok (tb.write table tableIdx .invalid)
          else
            .ok tb

def unmapLoop (mm : MmapRegion) (level : Nat) (table : TableRef)
    (recurse : Nat → TableRef → Tables → Except Fault Tables) :
    Nat → Nat → Nat → Tables → Except Fault Tables
  | 0, _, _, tb => .ok tb
  | left + 1, tableIdx, tableIdxVa, tb =>
    match unmapEntry mm level table recurse tableIdx tableIdxVa tb with
    | .error fault => .error fault
    | .ok tb =>
      let tableIdxVa := tableIdxVa + xlatBlockSize level
      if mm.endVa ≤ tableIdxVa then
        .ok tb
      else
        unmapLoop mm level table recurse left (tableIdx + 1) tableIdxVa tb

def xlatTablesUnmapRegion (cfg : Config) (mm : MmapRegion) :
    Nat → Nat → TableRef → Nat → Nat → Tables → Except Fault Tables
  | 0, _, _, _, _, _ => .error .assertion
  | left + 1, tableBaseVa, table, tableEntries, level, tb =>
    if ¬ (level ≥ cfg.baseLevel ∧ level ≤ xlatTableLevelMax) then
      .error .assertion
    else
      match firstEntry mm tableBaseVa tableEntries level with
      | .error fault => .error fault
      | .ok (tableIdx, tableIdxVa) =>
        match
          unmapLoop mm level table
            (fun va subtable tb =>
              xlatTablesUnmapRegion cfg mm left va subtable xlatTableEntries (level + 1) tb)
            (tableEntries - tableIdx) tableIdx
            tableIdxVa tb with
        | .error fault => .error fault
        | .ok tb =>
          if level > cfg.baseLevel then
            xlatTableDecRegionsCount table tb
          else
            .ok tb

/- The call that unmaps a region from the base table down. -/
def unmapFromBase (cfg : Config) (mm : MmapRegion)
    (tb : Tables) : Except Fault Tables :=
  xlatTablesUnmapRegion cfg mm cfg.levels 0 .base cfg.baseTableEntries cfg.baseLevel tb

----
-- Looking Up
----

/-
  `find_xlat_table_entry`: the place of the block or page
  descriptor that maps an address, and its level.
-/
def findEntryLoop (tb : Tables) (virtualAddr : Nat) :
    Nat → TableRef → Nat → Nat → Except Fault (Option (TableRef × Nat × Nat))
  | 0, _, _, _ => .error .assertion
  | left + 1, table, entries, level =>
    let idx := xlatTableIdx virtualAddr level
    if idx ≥ entries then .ok none
    else
      let desc := tb.desc table idx
      if desc.type = invalidDesc then .ok none
      else if level = xlatTableLevelMax then
        if desc.type = pageDesc then
          .ok (some (table, idx, level))
        else .error .assertion
      else if desc.type = blockDesc then
        .ok (some (table, idx, level))
      else
        match desc.subtable? with
        | none => .error .assertion
        | some subtable => findEntryLoop tb virtualAddr left subtable xlatTableEntries (level + 1)

def findXlatTableEntry (cfg : Config) (tb : Tables) (virtualAddr : Nat) :
    Except Fault (Option (TableRef × Nat × Nat)) :=
  findEntryLoop tb virtualAddr cfg.levels .base cfg.baseTableEntries cfg.baseLevel

----
-- Regions
----

def eperm : Int := 1
def enomem : Int := 12
def einval : Int := 22
def erange : Int := 34

def isPageAligned (addr : Nat) : Prop :=
  addr &&& (pageSize - 1) = 0

instance (addr : Nat) : Decidable (isPageAligned addr) :=
  inferInstanceAs (Decidable (_ = _))

/- The difference of two words. -/
def wordSub (a b : Nat) : Nat :=
  (a + 2 ^ 64 - b) % 2 ^ 64

/- One turn of the loop that looks for overlaps. -/
def overlapAllowed (cfg : Config)
    (mm mmCursor : MmapRegion) : Bool :=
  let fullyOverlappedVa :=
    (mm.baseVa ≥ mmCursor.baseVa ∧ mm.endVa ≤ mmCursor.endVa) ∨
    (mmCursor.baseVa ≥ mm.baseVa ∧ mmCursor.endVa ≤ mm.endVa)
  if fullyOverlappedVa then
    if cfg.platXlatTablesDynamic ∧
        (mm.attr &&& mtDynamic ≠ 0 ∨ mmCursor.attr &&& mtDynamic ≠ 0) then
      false
    else if wordSub mmCursor.baseVa mmCursor.basePa ≠ wordSub mm.baseVa mm.basePa then
      false
    else if mm.baseVa = mmCursor.baseVa ∧ mm.size = mmCursor.size then
      false
    else
      true
  else
    let separatedPa := mm.endPa < mmCursor.basePa ∨ mm.basePa > mmCursor.endPa
    let separatedVa := mm.endVa < mmCursor.baseVa ∨ mm.baseVa > mmCursor.endVa
    decide (separatedVa ∧ separatedPa)

/- `mmap_add_region_check`. -/
def mmapAddRegionCheck (cfg : Config) (mmap : List MmapRegion)
    (mm : MmapRegion) : Int :=
  if ¬ isPageAligned mm.basePa ∨ ¬ isPageAligned mm.baseVa ∨ ¬ isPageAligned mm.size then
    -einval
  else if mm.granularity ≠ xlatBlockSize 1 ∧ mm.granularity ≠ xlatBlockSize 2 ∧
      mm.granularity ≠ xlatBlockSize 3 then
    -einval
  else if mm.basePa > mm.endPa ∨ mm.baseVa > mm.endVa then
    -erange
  else if mm.endVa > cfg.vaMaxAddress then
    -erange
  else if mm.endPa > cfg.paMaxAddress then
    -erange
  else if mmap.length ≥ cfg.mmapNum then
    -enomem
  else if ¬ mmap.all (overlapAllowed cfg mm) then
    -eperm
  else
    0

/- Regions that end before the new one come before it. -/
def skipLowerEnd (mm : MmapRegion) : List MmapRegion → Nat
  | [] => 0
  | mmCursor :: rest =>
    if mmCursor.endVa < mm.endVa then
      skipLowerEnd mm rest + 1
    else 0

/- So do smaller ones that end where it does. -/
def skipSmaller (mm : MmapRegion) : List MmapRegion → Nat
  | [] => 0
  | mmCursor :: rest =>
    if mmCursor.endVa = mm.endVa ∧ mmCursor.size < mm.size then
      skipSmaller mm rest + 1
    else 0

/- The place of a new region in the array. -/
def mmapCursor (mmap : List MmapRegion)
    (mm : MmapRegion) : Nat :=
  let lower := skipLowerEnd mm mmap
  lower + skipSmaller mm (mmap.drop lower)

namespace Ctx

/- `max_pa` and `max_va` after a region was added. -/
def raiseMax (ctx : Ctx)
    (mm : MmapRegion) : Ctx :=
  { ctx with
    maxPa :=
      if mm.endPa > ctx.maxPa then mm.endPa else ctx.maxPa
    maxVa :=
      if mm.endVa > ctx.maxVa then mm.endVa else ctx.maxVa }

/- The context that `REGISTER_XLAT_CONTEXT` defines. -/
def fresh : Ctx where
  mmap := []
  tables :=
    { desc := fun _ _ => .invalid
      mappedRegions := fun _ => 0
      nextTable := 0 }
  maxPa := 0
  maxVa := 0
  initialized := false

/- `mmap_add_region_ctx`. -/
def mmapAddRegionCtx (cfg : Config) (ctx : Ctx)
    (mm : MmapRegion) : Except Fault Ctx :=
  if mm.size = 0 then .ok ctx
  else if ctx.initialized then .error .assertion
  else if mmapAddRegionCheck cfg ctx.mmap mm ≠ 0 then
    .error .assertion
  else
    .ok (raiseMax
      { ctx with
        mmap := ctx.mmap.insertIdx (mmapCursor ctx.mmap mm) mm }
      mm)

end Ctx

/- `mm->attr |= MT_DYNAMIC`. -/
def MmapRegion.setDynamic (mm : MmapRegion) : MmapRegion :=
  { mm with
    attr := mm.attr ||| mtDynamic
    attr_lt := Nat.or_lt_two_pow mm.attr_lt (by decide) }

theorem zero_lt_uint : 0 < 2 ^ 32 := Nat.two_pow_pos 32

theorem zero_lt_uint64 : 0 < 2 ^ 64 := Nat.two_pow_pos 64

/- The region that undoes a mapping that stopped early. -/
def unmapMm (mm : MmapRegion)
    (endVa : Nat) : MmapRegion where
  basePa := 0
  baseVa := mm.baseVa
  size := wordSub endVa mm.baseVa
  attr := 0
  granularity := 0
  basePa_lt := zero_lt_uint64
  baseVa_lt := mm.baseVa_lt
  size_lt := Nat.mod_lt _ zero_lt_uint64
  attr_lt := zero_lt_uint
  granularity_lt := zero_lt_uint64

namespace Ctx

/- `mmap_add_dynamic_region_ctx`. -/
def mmapAddDynamicRegionCtx (cfg : Config) (ctx : Ctx)
    (mm : MmapRegion) : Except Fault (Ctx × Int) :=
  if mm.size = 0 then .ok (ctx, 0)
  else
    let mm := mm.setDynamic
    let ret := mmapAddRegionCheck cfg ctx.mmap mm
    if ret ≠ 0 then .ok (ctx, ret)
    else
      let cursor := mmapCursor ctx.mmap mm
      let mmap := ctx.mmap.insertIdx cursor mm
      if ctx.initialized then
        match mapFromBase cfg mm ctx.tables with
        | .error fault => .error fault
        | .ok (tb, endVa) =>
          if endVa ≠ mm.endVa then
            let mmap := mmap.eraseIdx cursor
            if mm.baseVa ≥ endVa then
              .ok ({ ctx with mmap := mmap, tables := tb }, -enomem)
            else
              match unmapFromBase cfg (unmapMm mm endVa) tb with
              | .error fault => .error fault
              | .ok tb =>
                .ok ({ ctx with
                  mmap := mmap, tables := tb }, -enomem)
          else
            .ok (raiseMax { ctx with mmap := mmap, tables := tb } mm, 0)
      else
        .ok (raiseMax { ctx with mmap := mmap } mm, 0)

/- The largest value over the array, 0 for an empty one. -/
def maxOver (f : MmapRegion → Nat)
    (mmap : List MmapRegion) : Nat :=
  mmap.foldl (fun acc mm => if f mm > acc then f mm else acc) 0

/- `mmap_remove_dynamic_region_ctx`. -/
def mmapRemoveDynamicRegionCtx (cfg : Config) (ctx : Ctx)
    (baseVa size : Nat) : Except Fault (Ctx × Int) :=
  match ctx.mmap.findIdx? fun mm => mm.baseVa = baseVa ∧ mm.size = size with
  | none => .ok (ctx, -einval)
  | some cursor =>
    match ctx.mmap[cursor]? with
    | none => .ok (ctx, -einval)
    | some mm =>
      if mm.attr &&& mtDynamic = 0 then .ok (ctx, -eperm)
      else
        match
          (if ctx.initialized then
            unmapFromBase cfg mm ctx.tables
          else
            .ok ctx.tables) with
        | .error fault => .error fault
        | .ok tb =>
          let mmap := ctx.mmap.eraseIdx cursor
          .ok ({ ctx with
            mmap := mmap
            tables := tb
            maxVa :=
              if mm.endVa = ctx.maxVa then
                maxOver MmapRegion.endVa mmap
              else ctx.maxVa
            maxPa :=
              if mm.endPa = ctx.maxPa then
                maxOver MmapRegion.endPa mmap
              else ctx.maxPa }, 0)

/- Map the regions of the array one after the other. -/
def mapAll (cfg : Config) :
    List MmapRegion → Tables → Except Fault Tables
  | [], tb => .ok tb
  | mm :: rest, tb =>
    match mapFromBase cfg mm tb with
    | .error fault => .error fault
    | .ok (tb, endVa) =>
      if endVa ≠ mm.endVa then .error .outOfTables
      else mapAll cfg rest tb

/-
  `init_xlat_tables_ctx`.  It panics when a region cannot be
  mapped for want of a table.
-/
def initXlatTablesCtx (cfg : Config)
    (ctx : Ctx) : Except Fault Ctx :=
  if ctx.initialized then .error .assertion
  else
    match
      mapAll cfg ctx.mmap
        { ctx.tables with
          desc := fun _ _ => .invalid
          mappedRegions := fun _ => 0 } with
    | .error fault => .error fault
    | .ok tb =>
      if cfg.paMaxAddress > cfg.xlatArchGetMaxSupportedPa then
        .error .unsupportedPa
      else if ctx.maxVa > cfg.vaMaxAddress ∨ ctx.maxPa > cfg.paMaxAddress then
        .error .assertion
      else
        .ok { ctx with tables := tb, initialized := true }

end Ctx

end Tfa.Xlat
