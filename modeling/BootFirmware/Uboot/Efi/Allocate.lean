import BootFirmware.Uboot.Efi.Carving

/-
  Allocating pages from the memory map.

  The search goes down the list and takes the highest block of
  the first free entry that has room below the limit.  It does
  no rounding, so a limit inside of the entry decides how the
  block is aligned.

  Key definitions include:
    * `efiFindFreeMemory` and `efiAllocatePages`
    * `findEntry`
    * `Allocated`

  The main result is `efi_allocate_pages_sound`.
-/

----
-- Allocation
----

namespace Uboot.Efi

open List

/- The values of `efi_status_t` that are returned. -/
inductive EfiStatus where
  | success
  | invalidParameter
  | outOfResources
  | notFound
deriving DecidableEq, Repr

/- `efi_find_free_memory`. -/
def efiFindFreeMemory (len maxAddr : Nat) : List EfiMemDesc → Nat
  | [] => 0
  | desc :: rest =>
    let descEnd := endOf desc.physicalStart desc.numPages
    let curmax := min maxAddr descEnd
    let ret := u64 (curmax + (2 ^ 64 - len))
    if desc.type ≠ efiConventionalMemory then
      efiFindFreeMemory len maxAddr rest
    else if u64 (ret + len) > maxAddr then
      efiFindFreeMemory len maxAddr rest
    else if u64 (ret + len) > descEnd then
      efiFindFreeMemory len maxAddr rest
    else if ret < desc.physicalStart then
      efiFindFreeMemory len maxAddr rest
    else
      ret

/- The address asked for: the `switch` on the type. -/
def addrFor (mem : List EfiMemDesc) (startAddrSp : Nat) (type : Int)
    (pages memory : Nat) : Except EfiStatus Nat :=
  let len := u64 (pages * efiPageSize)
  if type = 0 then
    -- any page
    let addr := efiFindFreeMemory len startAddrSp mem
    if addr = 0 then .error .notFound else .ok addr
  else if type = 1 then
    -- max address
    let addr := efiFindFreeMemory len memory mem
    if addr = 0 then .error .notFound else .ok addr
  else if type = 2 then
    -- exact address
    .ok memory
  else
    .error .invalidParameter

/- How a request for pages ends: the status, `*memory`, and
  the list. -/
inductive Allocation where
  | useAfterFree
  | returned (status : EfiStatus) (memory : Nat) (mem : List EfiMemDesc)
deriving DecidableEq, Repr

/- What `efi_add_memory_map` returned, against the address. -/
def allocationOf (addr memory : Nat) : Outcome → Allocation
  | .useAfterFree => .useAfterFree
  | .added mem => .returned .success addr mem
  | .failed mem =>
    -- 0 is returned, which may be the address
    if addr = 0 then .returned .success addr mem
    else .returned .outOfResources memory mem

/-
  `efi_allocate_pages`.  Without a result the bound on the
  walks was too low.
-/
def efiAllocatePages
    (walks : Nat) (mem : List EfiMemDesc) (startAddrSp : Nat) (type memoryType : Int)
    (pages memory : Nat) : Option Allocation :=
  match addrFor mem startAddrSp type pages memory with
  | .error status => some (.returned status memory mem)
  | .ok addr =>
    (efiAddMemoryMap walks mem addr pages memoryType true).map (allocationOf addr memory)

----
-- The Entry Found
----

/- The end of the block that is looked for in an entry. -/
def curmax (limit : Nat) (d : EfiMemDesc) : Nat :=
  min limit d.stop

/- Its start, which may wrap. -/
def candidate (len limit : Nat) (d : EfiMemDesc) : Nat :=
  u64 (curmax limit d + (2 ^ 64 - len))

/- The tests that an entry passes in the search. -/
def HasRoom (len limit : Nat) (d : EfiMemDesc) : Prop :=
  d.type = efiConventionalMemory ∧ u64 (candidate len limit d + len) ≤ limit ∧
    u64 (candidate len limit d + len) ≤ d.stop ∧ d.physicalStart ≤ candidate len limit d

instance (len limit : Nat) (d : EfiMemDesc) : Decidable (HasRoom len limit d) :=
  inferInstanceAs (Decidable (_ ∧ _))

/- Free memory with room for the pages below the limit. -/
def Roomy (pages limit : Nat) (d : EfiMemDesc) : Prop :=
  d.type = efiConventionalMemory ∧ d.physicalStart + pages * efiPageSize ≤ min limit d.toRange.hi

instance (pages limit : Nat) (d : EfiMemDesc) : Decidable (Roomy pages limit d) :=
  inferInstanceAs (Decidable (_ ∧ _))

section Search

variable {mem : List EfiMemDesc} {d : EfiMemDesc} {len limit pages : Nat}

/- The search, one entry at a time. -/
theorem efiFindFreeMemory_cons :
    efiFindFreeMemory len limit (d :: mem) =
      if HasRoom len limit d then candidate len limit d
      else efiFindFreeMemory len limit mem := by
  rw [efiFindFreeMemory]
  change (if d.type ≠ efiConventionalMemory then _
    else if u64 (candidate len limit d + len) > limit then _
    else if u64 (candidate len limit d + len) > d.stop then _
    else if candidate len limit d < d.physicalStart then _
    else candidate len limit d) = _
  by_cases hRoom : HasRoom len limit d
  · rcases hRoom with ⟨hType, hLimit, hStop, hStart⟩
    rw [if_neg (not_not.mpr hType), if_neg (Nat.not_lt.mpr hLimit), if_neg (Nat.not_lt.mpr hStop),
      if_neg (Nat.not_lt.mpr hStart),
      if_pos ⟨hType, hLimit, hStop, hStart⟩]
  · rw [if_neg hRoom]
    unfold HasRoom at hRoom
    split_ifs
    all_goals first | rfl | omega

/- The search returns the block of the first such entry. -/
theorem efiFindFreeMemory_eq :
    efiFindFreeMemory len limit mem =
      ((mem.find? fun d => decide (HasRoom len limit d)).map (candidate len limit)).getD 0 := by
  induction mem with
  | nil => rfl
  | cons d rest ih =>
    rw [efiFindFreeMemory_cons]
    by_cases hRoom : HasRoom len limit d
    · rw [if_pos hRoom, find?_cons_of_pos (by simpa using hRoom)]
      rfl
    · rw [if_neg hRoom, ih, find?_cons_of_neg (by simpa using hRoom)]

theorem curmax_lt (hLimit : limit < 2 ^ 64) :
    curmax limit d < 2 ^ 64 :=
  Nat.lt_of_le_of_lt (Nat.min_le_left _ _) hLimit

/- The end of the block, whether or not its start wraps. -/
theorem u64_candidate_add (hLen : len < 2 ^ 64) (hLimit : limit < 2 ^ 64) :
    u64 (candidate len limit d + len) = curmax limit d := by
  have hLt := curmax_lt (d := d) hLimit
  unfold candidate u64
  omega

/- An entry with room is found with a block that fits in. -/
theorem Roomy.hasRoom (hRoomy : Roomy pages limit d) (hFits : d.Fits) (hLimit : limit < 2 ^ 64) :
    HasRoom (u64 (pages * efiPageSize)) limit d := by
  rcases hRoomy with ⟨hType, hLe⟩
  have hStop := stop_eq hFits.no_wrap
  have hMax : curmax limit d = min limit d.toRange.hi := by rw [curmax, hStop]
  have hLen : u64 (pages * efiPageSize) = pages * efiPageSize := Nat.mod_eq_of_lt (by omega)
  have hEnd :
      u64 (candidate (u64 (pages * efiPageSize)) limit d +
        u64 (pages * efiPageSize)) = curmax limit d :=
    u64_candidate_add (Nat.mod_lt _ (by decide)) hLimit
  refine ⟨hType, ?_, ?_, ?_⟩
  · exact hEnd.trans_le (Nat.min_le_left _ _)
  · exact hEnd.trans_le (Nat.min_le_right _ _)
  · rw [hLen]
    unfold candidate u64
    omega

/- The first entry that passes the tests is the first one
  with room, if it has any. -/
theorem find_roomy (hSound : Sound mem) (hLimit : limit < 2 ^ 64)
    (hFind : (mem.find? fun d => decide (HasRoom (u64 (pages * efiPageSize)) limit d)) = some d)
    (hRoomy : Roomy pages limit d) :
    (mem.find? fun d => decide (Roomy pages limit d)) = some d := by
  rcases find?_eq_some_iff_append.mp hFind with ⟨-, pre, rest, hMem, hPre⟩
  refine find?_eq_some_iff_append.mpr ⟨decide_eq_true hRoomy, pre, rest, hMem, ?_⟩
  intro e he
  have hNot := hPre e he
  have hFits : e.Fits := hSound.fits e (hMem ▸ mem_append_left _ he)
  simp only [Bool.not_eq_eq_eq_not, Bool.not_true, decide_eq_false_iff_not] at hNot ⊢
  exact fun h => hNot (h.hasRoom hFits hLimit)

end Search

----
-- What Is Allocated
----

/- A block of pages as the caller wants to have it. -/
structure Allocated
    (mem mem' : List EfiMemDesc) (limit pages addr : Nat)
    (memoryType : Int) : Prop where
  aligned : addr % efiPageSize = 0
  free :
    ∀ page, addr ≤ page * efiPageSize → page * efiPageSize < addr + pages * efiPageSize →
        pageType mem page = some efiConventionalMemory
  typed :
    ∀ page, addr ≤ page * efiPageSize → page * efiPageSize < addr + pages * efiPageSize →
        pageType mem' page = some (memoryType % 2 ^ 32).toNat
  below : addr + pages * efiPageSize ≤ limit
  sound : Sound mem'

/- A range that wraps is not counted anywhere. -/
theorem credit_of_wrapped {carve d : EfiMemDesc} (hWrap : carve.stop ≤ carve.physicalStart) :
    credit carve d = 0 := by
  by_cases hMeets : Meets carve d
  · have hStart : d.physicalStart < carve.physicalStart := Nat.lt_of_lt_of_le hMeets.1 hWrap
    have hUpper : ¬ Meets carve (splitOff carve d) := by
      intro h
      have hOrder := h.1
      change carve.physicalStart < carve.stop at hOrder
      omega
    have hTaken : taken carve d = splitOff carve d := if_neg (Nat.not_le.mpr hStart)
    unfold credit
    rw [hTaken, reported_splitOff hUpper]
    split <;> rfl
  · exact if_pos (Or.inl hMeets)

theorem credits_of_wrapped
    {carve : EfiMemDesc} (hWrap : carve.stop ≤ carve.physicalStart) (mem : List EfiMemDesc) :
    credits carve mem = 0 := by
  induction mem with
  | nil => rfl
  | cons d rest ih => rw [credits, credit_of_wrapped hWrap, ih, zero_add]

variable {mem mem' : List EfiMemDesc}

/- What is added is counted in full, so it does not wrap. -/
theorem efiAddMemoryMap_added
    {walks start pages : Nat} {memoryType : Int} (hSound : Sound mem) (hPages : pages ≠ 0)
    (hAdd : efiAddMemoryMap walks mem start pages memoryType true = some (.added mem')) :
    start < endOf start pages := by
  unfold efiAddMemoryMap at hAdd
  rw [if_neg hPages] at hAdd
  rcases Option.map_eq_some_iff.mp hAdd with ⟨⟨outcome, carved⟩, hRun, hEq⟩
  rcases @carveLoop_settles (newDesc start pages memoryType) [] mem 0
      (fun d hd => (hSound.fits d hd).no_wrap)
      (fun e he => absurd he not_mem_nil)
      (by decide) with
    ⟨r, hEnds, hSettled⟩
  have hSame := LoopEnds.unique ⟨walks, hRun⟩ hEnds
  subst hSame
  cases outcome with
  | useAfterFree => cases hEq
  | failed _ => cases hEq
  | added mem'' =>
    by_contra hWrap
    have hSum : credits (newDesc start pages memoryType) mem = 0 :=
      credits_of_wrapped (Nat.not_lt.mp hWrap) mem
    have hNone : carved = 0 := by
      rw [hSettled.2.1, hSum]
      rfl
    have hShort : carved ≠ pages := by
      rw [hNone]
      exact hPages.symm
    dsimp only at hEq
    rw [if_pos ⟨rfl, hShort⟩] at hEq
    cases hEq

variable {mem : List EfiMemDesc}

/- A request without an address does not succeed. -/
theorem addrFor_error {startAddrSp pages memory : Nat} {type : Int} {status : EfiStatus}
    (hAddr : addrFor mem startAddrSp type pages memory = .error status) :
    status ≠ .success := by
  unfold addrFor at hAddr
  dsimp only at hAddr
  split_ifs at hAddr
  all_goals
    cases hAddr
    decide

variable {startAddrSp pages memory limit addr : Nat}

/- The address of a request below a limit. -/
theorem addrFor_limit
    {type : Int} (hLimit : (type = 0 ∧ limit = startAddrSp) ∨ (type = 1 ∧ limit = memory))
    (hAddr : addrFor mem startAddrSp type pages memory = .ok addr) :
    addr ≠ 0 ∧ addr = efiFindFreeMemory (u64 (pages * efiPageSize)) limit
          mem := by
  unfold addrFor at hAddr
  dsimp only at hAddr
  rcases hLimit with ⟨rfl, rfl⟩ | ⟨rfl, rfl⟩
  · rw [if_pos rfl] at hAddr
    split at hAddr
    · cases hAddr
    · rename_i hSome
      cases hAddr
      exact ⟨hSome, rfl⟩
  · rw [if_neg (by decide), if_pos rfl] at hAddr
    split at hAddr
    · cases hAddr
    · rename_i hSome
      cases hAddr
      exact ⟨hSome, rfl⟩

/- A request below a limit that succeeds, step by step. -/
theorem efiAllocatePages_success {walks : Nat} {type memoryType : Int}
    (hLimit : (type = 0 ∧ limit = startAddrSp) ∨ (type = 1 ∧ limit = memory))
    (hAlloc :
      efiAllocatePages walks mem startAddrSp type memoryType pages memory =
        some (.returned .success addr mem')) :
    (∃ d, (mem.find? fun d => decide (HasRoom (u64 (pages * efiPageSize)) limit d)) = some d ∧
      addr = candidate (u64 (pages * efiPageSize)) limit d) ∧
    efiAddMemoryMap walks mem addr pages memoryType true = some (.added mem') := by
  unfold efiAllocatePages at hAlloc
  cases hAddr : addrFor mem startAddrSp type pages memory with
  | error status =>
    rw [hAddr] at hAlloc
    cases hAlloc
    exact absurd rfl (addrFor_error hAddr)
  | ok addr' =>
    rw [hAddr] at hAlloc
    rcases addrFor_limit hLimit hAddr with ⟨hSome, hFree⟩
    rcases Option.map_eq_some_iff.mp hAlloc with ⟨outcome, hAdd, hEq⟩
    cases outcome with
    | useAfterFree => cases hEq
    | failed _ =>
      unfold allocationOf at hEq
      dsimp only at hEq
      rw [if_neg hSome] at hEq
      cases hEq
    | added _ =>
      cases hEq
      refine ⟨?_, hAdd⟩
      rw [efiFindFreeMemory_eq] at hFree
      cases hFind : mem.find? fun d => decide (HasRoom (u64 (pages * efiPageSize)) limit d) with
      | none =>
        rw [hFind] at hFree
        exact absurd hFree hSome
      | some d =>
        rw [hFind] at hFree
        exact ⟨d, rfl, hFree⟩

----
-- Soundness
----

section Sound

variable {mem mem' : List EfiMemDesc} {d : EfiMemDesc} {limit pages addr walks : Nat}
  {memoryType : Int}

/- The pages of a free block do not wrap. -/
theorem Allocated.pages_lt (hAllocated : Allocated mem mem' limit pages addr memoryType)
    (hSound : Sound mem) (hPages : 1 ≤ pages) :
    pages * efiPageSize < 2 ^ 64 := by
  have hAligned := hAllocated.aligned
  have hLast :
      (addr / efiPageSize + (pages - 1)) * efiPageSize + efiPageSize =
        addr + pages * efiPageSize := by
    simp only [efiPageSize] at hAligned ⊢
    omega
  have hFree :=
    hAllocated.free (addr / efiPageSize + (pages - 1))
      (by
        simp only [efiPageSize] at hAligned ⊢
        omega)
      (by
        rw [← hLast]
        exact Nat.lt_add_of_pos_right (by decide))
  have hCovers : Covers mem ((addr / efiPageSize + (pages - 1)) * efiPageSize) := by
    by_contra hNone
    rw [pageType_eq_none_iff.mpr hNone] at hFree
    cases hFree
  rcases hCovers with ⟨e, he, -, hHi⟩
  have hFits := hSound.fits e he
  have hTop := hFits.no_wrap
  have hEnd := hFits.hi_aligned
  have hWhole : addr + pages * efiPageSize ≤ e.toRange.hi := by
    rw [← hLast]
    simp only [efiPageSize] at hHi hEnd ⊢
    omega
  exact Nat.lt_of_le_of_lt (Nat.le_add_left _ _) (Nat.lt_of_le_of_lt hWhole hTop)

theorem pageType_of_has
    (hSound : Sound mem) (hd : d ∈ mem) {page : Nat} (hHas : d.toRange.Has (page * efiPageSize)) :
    pageType mem page = some d.type :=
  hSound.descending.apart.value_eq_some_iff.mpr ⟨d.toRange, mem_map_of_mem hd, hHas, rfl⟩

/- A block of free pages that is added as a whole. -/
theorem allocated_of_added
    (hSound : Sound mem) (hd : d ∈ mem) (hType : d.type = efiConventionalMemory)
    (hAligned : addr % efiPageSize = 0) (hLow : d.physicalStart ≤ addr)
    (hHigh : addr + pages * efiPageSize ≤ d.toRange.hi)
    (hLimit : addr + pages * efiPageSize ≤ limit)
    (hAdd : efiAddMemoryMap walks mem addr pages memoryType true = some (.added mem')) :
    Allocated mem mem' limit pages addr memoryType := by
  have hTop := (hSound.fits d hd).no_wrap
  let call : Call := ⟨addr, pages, memoryType, true⟩
  have hIn : call.InRange := ⟨hAligned, Nat.lt_of_le_of_lt hHigh hTop⟩
  have hKept : Kept ⟨mem, pageType mem⟩ := ⟨hSound, fun page => rfl⟩
  have hCall : Tracked.add walks ⟨mem, pageType mem⟩ call = some (.added mem') := hAdd
  have hEnds := hKept.ends hIn hCall
  rcases hEnds with ⟨-, hAfter⟩
  refine ⟨hAligned, ?_, ?_, hLimit, hAfter.sound⟩
  · intro page hFrom hTo
    rw [← hType]
    exact pageType_of_has hSound hd ⟨hLow.trans hFrom, Nat.lt_of_lt_of_le hTo hHigh⟩
  · intro page hFrom hTo
    exact (hAfter.types page).trans (if_pos ⟨hFrom, hTo⟩)

/-
  A request for pages below a limit that succeeds gives what
  the caller wants exactly if some free entry has room for
  the pages below the limit and, where the first such entry
  goes beyond the limit, the limit is a multiple of the page
  size.
-/
theorem efi_allocate_pages_sound
    (mem mem' : List EfiMemDesc) (startAddrSp memory limit pages walks addr : Nat)
    (type memoryType : Int) (hSound : Sound mem)
    (hKind : (type = 0 ∧ limit = startAddrSp) ∨ (type = 1 ∧ limit = memory))
    (hLimit : limit < 2 ^ 64) (hPages : 1 ≤ pages)
    (hAlloc :
      efiAllocatePages walks mem startAddrSp type memoryType pages memory =
        some (.returned .success addr mem')) :
    Allocated mem mem' limit pages addr memoryType ↔
      ∃ d, (mem.find? fun d => decide (Roomy pages limit d)) = some d ∧
        (limit % efiPageSize = 0 ∨ d.toRange.hi ≤ limit) := by
  rcases efiAllocatePages_success hKind hAlloc with ⟨⟨d, hFind, hAddr⟩, hAdd⟩
  have hd : d ∈ mem := mem_of_find?_eq_some hFind
  have hRoom : HasRoom (u64 (pages * efiPageSize)) limit d := by simpa using find?_some hFind
  have hFits := hSound.fits d hd
  have hStop := stop_eq hFits.no_wrap
  have hMax : curmax limit d = min limit d.toRange.hi := by rw [curmax, hStop]
  -- the block does not wrap, since it has been added
  have hLenLt : u64 (pages * efiPageSize) < 2 ^ 64 := Nat.mod_lt _ (by decide)
  have hEnd : endOf addr pages = curmax limit d := by
    rw [hAddr]
    exact u64_candidate_add hLenLt hLimit
  have hOrder := efiAddMemoryMap_added hSound (by omega) hAdd
  rw [hEnd] at hOrder
  have hBlock : addr + u64 (pages * efiPageSize) = curmax limit d := by
    have hLt := curmax_lt (d := d) hLimit
    unfold candidate u64 at hAddr
    unfold u64 at hLenLt ⊢
    omega
  have hLow : d.physicalStart ≤ addr := hAddr ▸ hRoom.2.2.2
  have hRoomy : pages * efiPageSize < 2 ^ 64 → Roomy pages limit d := by
    intro hLt
    rw [show u64 (pages * efiPageSize) = pages * efiPageSize
      from Nat.mod_eq_of_lt hLt, hMax] at hBlock
    exact ⟨hRoom.1, by omega⟩
  constructor
  · intro hAllocated
    have hLt := hAllocated.pages_lt hSound hPages
    refine ⟨d, find_roomy hSound hLimit hFind (hRoomy hLt), ?_⟩
    have hAligned := hAllocated.aligned
    rw [show u64 (pages * efiPageSize) = pages * efiPageSize
      from Nat.mod_eq_of_lt hLt, hMax] at hBlock
    simp only [efiPageSize] at hAligned hBlock ⊢
    omega
  · rintro ⟨e, hFirst, hEdge⟩
    have he : e ∈ mem := mem_of_find?_eq_some hFirst
    have hFirstRoomy : Roomy pages limit e := by simpa using find?_some hFirst
    have hLt : pages * efiPageSize < 2 ^ 64 := by
      have hTop := (hSound.fits e he).no_wrap
      have hLe := hFirstRoomy.2
      omega
    have hSame := find_roomy hSound hLimit hFind (hRoomy hLt)
    rw [hFirst] at hSame
    cases hSame
    rw [show u64 (pages * efiPageSize) = pages * efiPageSize
      from Nat.mod_eq_of_lt hLt, hMax] at hBlock
    have hHi := hFits.hi_aligned
    refine allocated_of_added hSound hd hRoom.1 ?_ hLow ?_ ?_ hAdd
    · simp only [efiPageSize] at hBlock hEdge hHi ⊢
      omega
    · omega
    · omega

/- Eight free pages. -/
def eightPages : List EfiMemDesc :=
  [⟨7, 0x1000, 0x1000, 8, 8⟩]

theorem eightPages_sound : Sound eightPages where
  fits d hd := by
    rw [mem_singleton.mp hd]
    exact ⟨by decide, by decide, by decide⟩
  descending := ⟨by decide, pairwise_singleton _ _⟩

/- Two of them, below a limit between two pages. -/
theorem efi_allocate_pages_sound_two :
    Allocated eightPages
      [⟨7, 0x5000, 0x1000, 4, 8⟩, ⟨4, 0x3000, 0x3000, 2, 8⟩, ⟨7, 0x1000, 0x1000, 2, 8⟩]
      0x5000 2 0x3000 4 :=
  (efi_allocate_pages_sound eightPages _ 0 0x5000 0x5000 2 3
    0x3000 1 4 eightPages_sound (Or.inr ⟨rfl, rfl⟩)
    (by decide) (by decide) (by decide +kernel)).mpr
    ⟨⟨7, 0x1000, 0x1000, 8, 8⟩, by decide, by decide⟩

/-
  A limit in the middle of a page is taken as it is: the pages
  that are returned start in the middle of one.
-/
theorem efi_allocate_pages_unaligned :
    ∃ mem' addr, Sound eightPages ∧
        efiAllocatePages 3 eightPages 0 1 4 2 0x5800 = some (.returned .success addr mem') ∧
        ¬ addr % efiPageSize = 0 ∧ ¬ Sound mem' :=
  ⟨[⟨7, 0x5800, 0x1000, 3, 8⟩, ⟨4, 0x3800, 0x3800, 2, 8⟩, ⟨7, 0x1000, 0x1000, 2, 8⟩],
    0x3800, eightPages_sound, by decide +kernel, by decide, fun hSound =>
      absurd (hSound.fits ⟨7, 0x5800, 0x1000, 3, 8⟩ mem_cons_self).aligned (by decide)⟩

end Sound

end Uboot.Efi
