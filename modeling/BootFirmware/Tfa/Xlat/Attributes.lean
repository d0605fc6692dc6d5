import BootFirmware.Tfa.Xlat.Links
import Mathlib.Tactic.IntervalCases

/-
  Reading and changing the attributes of mapped pages.

  The address of a sub-table is a parameter: it shows where a
  table descriptor is read as that of a page.

  Key definitions include:
    * `TableAddresses` and `Desc.word`
    * `memAttributes`
    * `getMemAttributes`
    * `changeMemAttributes`

  The main result is `memAttributes_xlatDesc`: the attributes
  of a new page descriptor are those that it was made with.
-/

namespace Tfa.Xlat

----
-- Descriptors As Words
----

/- Where the sub-tables are, each aligned to its size. -/
structure TableAddresses where
  addr : Nat → Nat
  aligned : ∀ i, 4096 ∣ addr i
  addr_lt : ∀ i, addr i < 2 ^ 48

/- The 64 bits of a descriptor. -/
def Desc.word (tables : TableAddresses) : Desc → Nat
  | .invalid => invalidDesc
  | .table i => tableDesc ||| tables.addr i
  | .leaf word => word

def attrIndexShift : Nat := 2
def attrIndexMask : Nat := 3
def ap2Shift : Nat := 7
def ap1Shift : Nat := 6
def nsShift : Nat := 5
def ap2Rw : Nat := 0
def ap1AccessUnprivileged : Nat := 1

/- The memory type; the index 3 fails an assertion. -/
def memType (desc : Nat) : Except Fault Nat :=
  let attrIndex := (desc >>> attrIndexShift) &&& attrIndexMask
  if attrIndex = attrIwbwaOwbwaNtrIndex then .ok mtMemory
  else if attrIndex = attrNonCacheableIndex then
    .ok mtNonCacheable
  else if attrIndex = attrDeviceIndex then .ok mtDevice
  else .error .assertion

/-
  The attributes of a descriptor.  Only some of the bits that
  forbid execution are a failed assertion.
-/
def memAttributes (regime : XlatRegime)
    (desc : Nat) : Except Fault Nat :=
  match memType desc with
  | .error fault => .error fault
  | .ok type =>
    let attributes := type
    let attributes := attributes |||
      (if (desc >>> ap2Shift) &&& 1 = ap2Rw then mtRw
        else 0)
    let attributes := attributes |||
      (if regime = .el1El0 ∧ (desc >>> ap1Shift) &&& 1 = ap1AccessUnprivileged
        then mtUser else 0)
    let attributes := attributes ||| (if (desc >>> nsShift) &&& 1 = 1 then mtNs else 0)
    let xnMask := xlatArchRegimeGetXnDesc regime
    if desc &&& xnMask = xnMask then
      .ok (attributes ||| mtExecuteNever)
    else if desc &&& xnMask = 0 then .ok attributes
    else .error .assertion

/- What `get_mem_attributes_internal` writes for its caller. -/
structure Mapping where
  attributes : Nat
  table : TableRef
  tableIdx : Nat
  addrPa : Nat
  tableLevel : Nat
  deriving DecidableEq

/- `get_mem_attributes_internal`; `none` is `-EINVAL`. -/
def getMemAttributesInternal (cfg : Config) (tables : TableAddresses) (ctx : Ctx)
    (baseVa : Nat) : Except Fault (Option Mapping) :=
  if ¬ ctx.initialized then .error .assertion
  else
    match findXlatTableEntry cfg ctx.tables baseVa with
    | .error fault => .error fault
    | .ok none => .ok none
    | .ok (some (table, idx, level)) =>
      let desc := (ctx.tables.desc table idx).word tables
      match memAttributes cfg.xlatRegime desc with
      | .error fault => .error fault
      | .ok attributes =>
        .ok (some
          { attributes := attributes
            table := table
            tableIdx := idx
            addrPa := desc &&& tableAddrMask
            tableLevel := level })

/- `get_mem_attributes`: what it returns, and `*attributes`. -/
def getMemAttributes (cfg : Config) (tables : TableAddresses) (ctx : Ctx)
    (baseVa : Nat) : Except Fault (Int × Option Nat) :=
  match getMemAttributesInternal cfg tables ctx baseVa with
  | .error fault => .error fault
  | .ok none => .ok (-einval, none)
  | .ok (some mapping) => .ok (0, some mapping.attributes)

----
-- Changing Attributes
----

/- The loop that checks the pages. -/
def checkPages (cfg : Config) (tables : TableAddresses) (tb : Tables)
    (attr : Nat) : Nat → Nat → Except Fault Int
  | 0, _ => .ok 0
  | left + 1, baseVa =>
    match findXlatTableEntry cfg tb baseVa with
    | .error fault => .error fault
    | .ok none => .ok (-einval)
    | .ok (some (table, idx, level)) =>
      let desc := (tb.desc table idx).word tables
      if desc &&& descMask ≠ pageDesc ∨ level ≠ xlatTableLevelMax then
        .ok (-einval)
      else if (desc >>> attrIndexShift) &&& attrIndexMask = attrDeviceIndex ∧
          attr &&& mtExecuteNever = 0 then
        .ok (-einval)
      else
        checkPages cfg tables tb attr left ((baseVa + pageSize) % 2 ^ 64)

/- The attributes that a call can change. -/
def changeable : Nat := mtRw ||| mtExecuteNever ||| mtUser

/- `old & ~(...) | attr & (...)`, in 32 bits. -/
def newAttributes (oldAttr attr : Nat) : Nat :=
  (oldAttr &&& ((2 ^ 32 - 1) ^^^ changeable)) ||| (attr &&& changeable)

/-
  The loop that rewrites them.  It ignores what
  `get_mem_attributes_internal` returns, so that a page that
  is not mapped leaves it with values never written.
-/
def rewritePages (cfg : Config) (tables : TableAddresses)
    (attr : Nat) : Nat → Nat → Ctx → Except Fault Ctx
  | 0, _, ctx => .ok ctx
  | left + 1, baseVa, ctx =>
    match getMemAttributesInternal cfg tables ctx baseVa with
    | .error fault => .error fault
    | .ok none => .error .assertion
    | .ok (some old) =>
      match
        xlatDesc cfg.xlatRegime (newAttributes old.attributes attr) old.addrPa old.tableLevel with
      | .error fault => .error fault
      | .ok word =>
        rewritePages cfg tables attr left ((baseVa + pageSize) % 2 ^ 64)
          { ctx with
            tables := ctx.tables.write old.table old.tableIdx (.leaf word) }

/- `int pages_count = size / PAGE_SIZE`. -/
def pagesCount (size : Nat) : Int :=
  let count : Nat := size / pageSize % 2 ^ 32
  if count < 2 ^ 31 then (count : Int)
  else (count : Int) - 2 ^ 32

/- `change_mem_attributes`. -/
def changeMemAttributes (cfg : Config) (tables : TableAddresses) (ctx : Ctx)
    (baseVa size attr : Nat) : Except Fault (Ctx × Int) :=
  if ¬ ctx.initialized then .error .assertion
  else if ¬ isPageAligned baseVa then .ok (ctx, -einval)
  else if size = 0 then .ok (ctx, -einval)
  else if size % pageSize ≠ 0 then .ok (ctx, -einval)
  else if attr &&& mtExecuteNever = 0 ∧ attr &&& mtRw ≠ 0 then
    .ok (ctx, -einval)
  else
    let count := (pagesCount size).toNat
    match checkPages cfg tables ctx.tables attr count baseVa with
    | .error fault => .error fault
    | .ok ret =>
      if ret ≠ 0 then .ok (ctx, ret)
      else
        match rewritePages cfg tables attr count baseVa ctx with
        | .error fault => .error fault
        | .ok ctx => .ok (ctx, 0)

----
-- Reading Back
----

/- The bits of a page address are none that are read. -/
theorem page_shiftRight_and {pa shift mask bits : Nat}
    (hPage : 4096 ∣ pa) (hMask : mask = 2 ^ bits - 1) (hFits : shift + bits ≤ 12) (b : Nat) :
    ((pa ||| b) >>> shift) &&& mask = (b >>> shift) &&& mask := by
  rcases hPage with ⟨page, rfl⟩
  have hZero : ((4096 * page) >>> shift) &&& mask = 0 := by
    have hSplit : 4096 * page = 2 ^ shift * (2 ^ bits * (2 ^ (12 - shift - bits) * page)) := by
      rw [← Nat.mul_assoc, ← Nat.mul_assoc, ← Nat.pow_add, ← Nat.pow_add]
      have hSum : shift + bits + (12 - shift - bits) = 12 := by omega
      rw [hSum]
    rw [hMask, Nat.and_two_pow_sub_one_eq_mod, Nat.shiftRight_eq_div_pow, hSplit,
      Nat.mul_div_cancel_left _ (Nat.two_pow_pos shift), Nat.mul_mod_right]
  rw [Nat.shiftRight_or_distrib, Nat.and_or_distrib_right, hZero, Nat.zero_or]

/- Nor are they bits that forbid execution. -/
theorem page_and_xn {pa : Nat} (hLt : pa < 2 ^ 48) (regime : XlatRegime) (b : Nat) :
    (pa ||| b) &&& xlatArchRegimeGetXnDesc regime = b &&& xlatArchRegimeGetXnDesc regime := by
  have hMask : xlatArchRegimeGetXnDesc regime = (xlatArchRegimeGetXnDesc regime >>> 48) <<< 48 := by
    cases regime <;> decide
  have hZero : pa &&& xlatArchRegimeGetXnDesc regime = 0 := by
    rw [hMask]
    refine Nat.eq_of_testBit_eq fun i => ?_
    rw [Nat.testBit_and, Nat.testBit_shiftLeft, Nat.zero_testBit]
    by_cases hHigh : 48 ≤ i
    · have hBit : pa.testBit i = false :=
        Nat.testBit_lt_two_pow (Nat.lt_of_lt_of_le hLt (Nat.pow_le_pow_right (by decide) hHigh))
      rw [hBit, Bool.false_and]
    · rw [decide_eq_false hHigh, Bool.false_and, Bool.and_false]
  rw [Nat.and_or_distrib_right, hZero, Nat.zero_or]

/- A page's address does not count for its attributes. -/
theorem memAttributes_or
    {pa : Nat} (hPage : 4096 ∣ pa) (hLt : pa < 2 ^ 48) (regime : XlatRegime) (b : Nat) :
    memAttributes regime (pa ||| b) = memAttributes regime b := by
  have hType := page_shiftRight_and hPage (show attrIndexMask = 2 ^ 2 - 1 from rfl)
    (show attrIndexShift + 2 ≤ 12 by decide) b
  have hAp2 := page_shiftRight_and hPage (show 1 = 2 ^ 1 - 1 from rfl)
    (show ap2Shift + 1 ≤ 12 by decide) b
  have hAp1 := page_shiftRight_and hPage (show 1 = 2 ^ 1 - 1 from rfl)
    (show ap1Shift + 1 ≤ 12 by decide) b
  have hNs := page_shiftRight_and hPage (show 1 = 2 ^ 1 - 1 from rfl)
    (show nsShift + 1 ≤ 12 by decide) b
  unfold memAttributes memType
  simp only [hType, hAp2, hAp1, hNs, page_and_xn hLt]

variable {regime : XlatRegime}

/- The address of a page is the first thing in its word. -/
theorem xlatDesc_page
    {attr pa word : Nat} (hPage : 4096 ∣ pa) (hWord : xlatDesc regime attr pa 3 = .ok word) :
    ∃ bits, xlatDesc regime attr 0 3 = .ok bits ∧ word = pa ||| bits := by
  have hMask : pa &&& xlatBlockMask 3 = 0 := by
    rw [and_xlatBlockMask]
    exact Nat.mod_eq_zero_of_dvd hPage
  unfold xlatDesc at *
  rw [if_neg (not_not.mpr hMask)] at hWord
  rw [Nat.zero_and, if_neg (fun h => h rfl)]
  simp only [Nat.zero_or]
  simp only [Nat.or_assoc] at *
  split at hWord
  · rename_i hDevice
    cases hWord
    rw [if_pos hDevice]
    exact ⟨_, rfl, rfl⟩
  rename_i hDevice
  rw [if_neg hDevice]
  split at hWord
  · rename_i hMemory
    cases hWord
    rw [if_pos hMemory]
    exact ⟨_, rfl, rfl⟩
  rename_i hMemory
  rw [if_neg hMemory]
  split at hWord
  · rename_i hNc
    cases hWord
    rw [if_pos hNc]
    exact ⟨_, rfl, rfl⟩
  · cases hWord

/- What `get_mem_attributes` can report. -/
structure Reported (regime : XlatRegime) (attr : Nat) : Prop where
  lt : attr < 2 ^ 7
  type : attr &&& mtTypeMask ≤ mtMemory
  user : regime = .el3 → attr &&& mtUser = 0

instance (regime : XlatRegime) (attr : Nat) : Decidable (Reported regime attr) :=
  decidable_of_iff
    (attr < 2 ^ 7 ∧ attr &&& mtTypeMask ≤ mtMemory ∧ (regime = .el3 → attr &&& mtUser = 0))
    ⟨fun h => ⟨h.1, h.2.1, h.2.2⟩, fun h => ⟨h.lt, h.type, h.user⟩⟩

theorem reported_all (regime : XlatRegime) :
    ∀ type ∈ [mtDevice, mtNonCacheable, mtMemory], ∀ readWrite ∈ [mtRw, 0],
        ∀ user ∈ [if regime = .el1El0 then mtUser else 0, 0], ∀ nonSecure ∈ [mtNs, 0],
            ∀ never ∈ [mtExecuteNever, 0],
              Reported regime (type ||| readWrite ||| user ||| nonSecure ||| never) := by
  cases regime with
  | el1El0 => decide
  | el3 => decide

theorem ite_mem_pair {c : Prop} [Decidable c] (a b : Nat) :
    (if c then a else b) ∈ [a, b] := by
  split
  · exact List.mem_cons_self
  · exact List.mem_cons_of_mem a List.mem_cons_self

/- Attributes that are reported are a sum of these. -/
def Summed (regime : XlatRegime) (type attr : Nat) : Prop :=
  ∃ readWrite ∈ [mtRw, 0], ∃ user ∈ [if regime = .el1El0 then mtUser else 0, 0],
      ∃ nonSecure ∈ [mtNs, 0],
        ∃ never ∈ [mtExecuteNever, 0], attr = type ||| readWrite ||| user ||| nonSecure ||| never

theorem memType_mem {desc type : Nat} (hType : memType desc = .ok type) :
    type ∈ [mtDevice, mtNonCacheable, mtMemory] ∧
      (type = mtDevice → (desc >>> attrIndexShift) &&& attrIndexMask = attrDeviceIndex) := by
  unfold memType at hType
  dsimp only at hType
  split at hType
  · cases hType
    exact ⟨by decide, fun h => absurd h (by decide)⟩
  split at hType
  · cases hType
    exact ⟨by decide, fun h => absurd h (by decide)⟩
  split at hType
  · rename_i hDevice
    cases hType
    exact ⟨by decide, fun _ => hDevice⟩
  · cases hType

variable {desc attr : Nat}

theorem memAttributes_cases (hAttr : memAttributes regime desc = .ok attr) :
    ∃ type, memType desc = .ok type ∧ Summed regime type attr := by
  unfold memAttributes at hAttr
  split at hAttr
  · cases hAttr
  rename_i type hType
  have hUser : ∀ (c : Prop) (_ : Decidable c), (if regime = .el1El0 ∧ c then mtUser else 0) ∈
        [if regime = .el1El0 then mtUser else 0, 0] := by
    intro c _
    by_cases hBoth : regime = .el1El0 ∧ c
    · rw [if_pos hBoth, if_pos hBoth.1]
      exact List.mem_cons_self
    · rw [if_neg hBoth]
      exact List.mem_cons_of_mem _ List.mem_cons_self
  dsimp only at hAttr
  split at hAttr
  · cases hAttr
    exact ⟨type, hType, _, ite_mem_pair _ _, _, hUser _ _, _,
      ite_mem_pair _ _, _, List.mem_cons_self, rfl⟩
  split at hAttr
  · cases hAttr
    exact ⟨type, hType, _, ite_mem_pair _ _, _, hUser _ _, _, ite_mem_pair _ _, 0,
      List.mem_cons_of_mem _ List.mem_cons_self, (Nat.or_zero _).symm⟩
  · cases hAttr

theorem reported_of_memAttributes (hAttr : memAttributes regime desc = .ok attr) :
    Reported regime attr := by
  rcases memAttributes_cases hAttr with
    ⟨type, hType, readWrite, hRw, user, hUser, nonSecure, hNs, never, hNever, rfl⟩
  exact reported_all regime type (memType_mem hType).1
    readWrite hRw user hUser nonSecure hNs never hNever

theorem summed_type (regime : XlatRegime) :
    ∀ type ∈ [mtDevice, mtNonCacheable, mtMemory], ∀ readWrite ∈ [mtRw, 0],
        ∀ user ∈ [if regime = .el1El0 then mtUser else 0, 0], ∀ nonSecure ∈ [mtNs, 0],
            ∀ never ∈ [mtExecuteNever, 0],
              (type ||| readWrite ||| user ||| nonSecure ||| never) &&& mtTypeMask = type := by
  cases regime with
  | el1El0 => decide
  | el3 => decide

/- Memory reported as a device has the index of devices. -/
theorem device_of_memAttributes
    (hAttr : memAttributes regime desc = .ok attr) (hDevice : attr &&& mtTypeMask = mtDevice) :
    (desc >>> attrIndexShift) &&& attrIndexMask = attrDeviceIndex := by
  rcases memAttributes_cases hAttr with
    ⟨type, hType, readWrite, hRw, user, hUser, nonSecure, hNs, never, hNever, rfl⟩
  have hMem := memType_mem hType
  refine hMem.2 ?_
  rw [← hDevice]
  exact (summed_type regime type hMem.1 readWrite hRw user hUser nonSecure hNs never hNever).symm

/- Every combination, over a page at address 0. -/
theorem memAttributes_all (regime : XlatRegime) :
    ∀ attr < 2 ^ 7, attr &&& mtTypeMask ≤ mtMemory →
      (attr &&& mtRw ≠ 0 ∨ attr &&& mtTypeMask = mtDevice → attr &&& mtExecuteNever ≠ 0) →
      ((xlatDesc regime attr 0 3).toOption.bind fun bits =>
          (memAttributes regime bits).toOption) =
        some (if regime = .el3 then
          attr &&& ((2 ^ 32 - 1) ^^^ mtUser) else attr) := by
  cases regime with
  | el1El0 => decide +kernel
  | el3 => decide +kernel

/- The attributes that a call changes in a regime. -/
def changed : XlatRegime → Nat
  | .el1El0 => mtRw ||| mtExecuteNever ||| mtUser
  | .el3 => mtRw ||| mtExecuteNever

/- The old attributes with those of the call in their place. -/
def replaced (regime : XlatRegime)
    (oldAttr attr : Nat) : Nat :=
  (oldAttr &&& ((2 ^ 32 - 1) ^^^ changed regime)) ||| (attr &&& changed regime)

/- Attributes that a descriptor keeps, as the new ones are. -/
structure Kept (regime : XlatRegime) (oldAttr attr : Nat) : Prop where
  lt : newAttributes oldAttr attr < 2 ^ 7
  type : newAttributes oldAttr attr &&& mtTypeMask ≤ mtMemory
  never :
    newAttributes oldAttr attr &&& mtRw ≠ 0 ∨ newAttributes oldAttr attr &&& mtTypeMask = mtDevice →
        newAttributes oldAttr attr &&& mtExecuteNever ≠ 0
  eq :
    (if regime = .el3 then
      newAttributes oldAttr attr &&& ((2 ^ 32 - 1) ^^^ mtUser)
      else newAttributes oldAttr attr) = replaced regime oldAttr attr
  writable :
    replaced regime oldAttr attr &&& mtRw ≠ 0 → replaced regime oldAttr attr &&& mtExecuteNever ≠ 0

instance (regime : XlatRegime) (oldAttr attr : Nat) : Decidable (Kept regime oldAttr attr) :=
  decidable_of_iff
    (newAttributes oldAttr attr < 2 ^ 7 ∧ newAttributes oldAttr attr &&& mtTypeMask ≤ mtMemory ∧
      (newAttributes oldAttr attr &&& mtRw ≠ 0 ∨
        newAttributes oldAttr attr &&& mtTypeMask = mtDevice →
          newAttributes oldAttr attr &&& mtExecuteNever ≠ 0) ∧
      (if regime = .el3 then
        newAttributes oldAttr attr &&& ((2 ^ 32 - 1) ^^^ mtUser)
        else newAttributes oldAttr attr) = replaced regime oldAttr attr ∧
      (replaced regime oldAttr attr &&& mtRw ≠ 0 →
        replaced regime oldAttr attr &&& mtExecuteNever ≠ 0))
    ⟨fun h => ⟨h.1, h.2.1, h.2.2.1, h.2.2.2.1, h.2.2.2.2⟩,
      fun h => ⟨h.lt, h.type, h.never, h.eq, h.writable⟩⟩

theorem kept_all (regime : XlatRegime) :
    ∀ oldAttr < 2 ^ 7, Reported regime oldAttr → ∀ attr ∈ [0, 8, 32, 40, 64, 72, 96, 104],
        (attr &&& mtExecuteNever = 0 → attr &&& mtRw = 0 ∧ oldAttr &&& mtTypeMask ≠ mtDevice) →
        Kept regime oldAttr attr := by
  cases regime with
  | el1El0 => decide +kernel
  | el3 => decide +kernel

/- Of the attributes of a call three bits count. -/
theorem changeable_bits (attr : Nat) : attr &&& changeable ∈ [0, 8, 32, 40, 64, 72, 96, 104] := by
  have hAll : ∀ a < 128, a &&& changeable = a → a ∈ [0, 8, 32, 40, 64, 72, 96, 104] := by decide
  have hLe : attr &&& changeable ≤ changeable := Nat.and_le_right
  have hMask : changeable = 104 := by decide
  refine hAll _ (by omega) ?_
  rw [Nat.and_assoc, Nat.and_self]

/- The new descriptor of a page is read back as replaced. -/
theorem memAttributes_xlatDesc {oldAttr attr pa word : Nat}
    (hPage : 4096 ∣ pa) (hLt : pa < 2 ^ 48) (hOld : Reported regime oldAttr)
    (hAttr : attr &&& mtExecuteNever = 0 → attr &&& mtRw = 0 ∧ oldAttr &&& mtTypeMask ≠ mtDevice)
    (hWord : xlatDesc regime (newAttributes oldAttr attr) pa 3 = .ok word) :
    memAttributes regime word = .ok (replaced regime oldAttr attr) ∧
      (replaced regime oldAttr attr &&& mtRw ≠ 0 →
        replaced regime oldAttr attr &&& mtExecuteNever ≠ 0) := by
  have hBit : ∀ bit, changeable &&& bit = bit → (attr &&& changeable) &&& bit = attr &&& bit := by
    intro bit hSub
    rw [Nat.and_assoc, hSub]
  have hNew : newAttributes oldAttr (attr &&& changeable) = newAttributes oldAttr attr := by
    unfold newAttributes
    rw [Nat.and_assoc, Nat.and_self]
  have hSame : replaced regime oldAttr (attr &&& changeable) = replaced regime oldAttr attr := by
    unfold replaced
    rw [Nat.and_assoc]
    cases regime <;> rfl
  have hKept := kept_all regime oldAttr hOld.lt hOld
    (attr &&& changeable) (changeable_bits attr) (by
      rw [hBit _ (by decide), hBit _ (by decide)]
      exact hAttr)
  rcases xlatDesc_page hPage hWord with ⟨bits, hBits, rfl⟩
  rw [← hNew] at hBits
  have hAll := memAttributes_all regime _ hKept.lt hKept.type hKept.never
  rw [hBits, hKept.eq, hSame] at hAll
  refine ⟨?_, ?_⟩
  · rw [memAttributes_or hPage hLt]
    change (memAttributes regime bits).toOption = _ at hAll
    cases hRead : memAttributes regime bits with
    | error fault =>
      rw [hRead] at hAll
      cases hAll
    | ok read =>
      rw [hRead] at hAll
      cases hAll
      rfl
  · have hWritable := hKept.writable
    rw [hSame] at hWritable
    exact hWritable

end Tfa.Xlat
