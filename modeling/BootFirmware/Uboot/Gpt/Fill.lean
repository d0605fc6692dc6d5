import BootFirmware.Uboot.CTypes
import Mathlib.Data.List.Pairwise

/-
  `gpt_fill_header` and `gpt_fill_pte`: the header of a
  partition table, and its entries for a list of partitions.

  Numbers of blocks are of 64 bits, and sums of them wrap.
  The header is read as it stands, as on a machine that is
  little-endian.

  Key definitions include:
    * `BlkDesc`, `GptHeader` and `GptEntry`
    * `gptFillHeader` and `gptFillPte`
    * `requests` and `Separate`
    * `Legal`

  The main results are:
    * `fillEntries_written`
    * `Written.legal_iff`
    * `gpt_fill_pte_legal`
    * `gpt_fill_pte_overlapping`
-/

----
-- Headers
----

namespace Uboot.Gpt

open List

/- The blocks of `struct blk_desc`. -/
structure BlkDesc where
  lba : Nat
  blksz : Nat
  lba_lt : lba < 2 ^ 64
  blksz_pos : 0 < blksz

/-
  What the configuration says: the number of entries, where
  they are to be (as an option and in the device tree), and
  which identifiers a partition has.  The binary form of the
  string of an identifier is `uuid_str_to_bin`'s.
-/
structure GptConfig where
  entryNumbers : Nat
  entriesOff : Option Int
  configOffset : Option Int
  partitionUuids : Bool
  partitionTypeGuid : Bool
  uuidStrToBin : List UInt8 → Option (List UInt8)
  basicDataGuid : List UInt8

/- The fields of `gpt_header` that are filled. -/
structure GptHeader where
  signature : Nat
  revision : Nat
  headerSize : Nat
  myLba : Nat
  alternateLba : Nat
  firstUsableLba : Nat
  lastUsableLba : Nat
  diskGuid : List UInt8
  partitionEntryLba : Nat
  numPartitionEntries : Nat
  sizeofPartitionEntry : Nat
  headerCrc32 : Nat
  partitionEntryArrayCrc32 : Nat
deriving DecidableEq, Repr

/- The value of a 64-bit number of blocks. -/
def u64 (n : Nat) : Nat :=
  n % 2 ^ 64

/- `PAD_TO_BLOCKSIZE`, as a `uint32_t`. -/
def padToBlocksize (dev : BlkDesc) (size : Int) : Nat :=
  u32 (u64 ((((size - 1) % 2 ^ 64).toNat / dev.blksz + 1) * dev.blksz))

/- `partition_entries_offset`, in blocks. -/
def partitionEntriesOffset (dev : BlkDesc)
    (cfg : GptConfig) : Nat :=
  let blocksOf := fun size : Int => u32 (padToBlocksize dev size / dev.blksz)
  let offset := (cfg.entriesOff.map blocksOf).getD 2
  let offset := (cfg.configOffset.map blocksOf).getD offset
  if offset < 2 then 2 else offset

/- `gpt_fill_header`; none where it returns an error. -/
def gptFillHeader (dev : BlkDesc) (cfg : GptConfig)
    (strGuid : List UInt8) : Option GptHeader :=
  let partitionEntryLba := partitionEntriesOffset dev cfg
  (cfg.uuidStrToBin strGuid).map fun diskGuid =>
    { signature := 0x5452415020494645
      revision := 0x00010000
      headerSize := 92
      myLba := 1
      alternateLba := u64 (dev.lba + 2 ^ 64 - 1)
      firstUsableLba := u64 (partitionEntryLba + 32)
      lastUsableLba := u64 (dev.lba + 2 ^ 64 - 34)
      diskGuid
      partitionEntryLba
      numPartitionEntries := u32 cfg.entryNumbers
      sizeofPartitionEntry := 128
      headerCrc32 := 0
      partitionEntryArrayCrc32 := 0 }

----
-- Entries
----

/- `disk_partition_t`; a start of zero is found for it. -/
structure DiskPartition where
  start : Nat
  size : Nat
  name : List UInt8
  bootable : Bool
  uuid : List UInt8
  typeGuid : List UInt8
  start_lt : start < 2 ^ 64
  size_lt : size < 2 ^ 64

structure GptEntry where
  partitionTypeGuid : List UInt8
  uniquePartitionGuid : List UInt8
  startingLba : Nat
  endingLba : Nat
  legacyBiosBootable : Bool
  partitionName : List Nat
deriving DecidableEq, Repr

def PART_NAME_LEN : Nat := 32
def PARTNAME_SZ : Nat := 36

/- The block after the array of entries, as it is checked. -/
def pteEnd (dev : BlkDesc) (h : GptHeader) : Nat :=
  u64 (h.partitionEntryLba + u32 (h.numPartitionEntries * h.sizeofPartitionEntry) / dev.blksz)

/- The checks of a partition's blocks. -/
def refused (dev : BlkDesc) (h : GptHeader)
    (start size offset : Nat) : Bool :=
  let hdrStart := h.myLba
  let hdrEnd := u64 (hdrStart + 1)
  let pteStart := h.partitionEntryLba
  let stop := u64 (start + size)
  (decide (start < hdrEnd) && decide (hdrStart < stop)) ||
    (decide (start < pteEnd dev h) && decide (pteStart < stop)) ||
    decide (u64 (h.lastUsableLba + 1) < offset)

/- The name in characters of 16 bits, with zeros after it. -/
def efiName (name : List UInt8) : List Nat :=
  let chars := (name.take (min PART_NAME_LEN PARTNAME_SZ)).map UInt8.toNat
  chars ++ List.replicate (PARTNAME_SZ - chars.length) 0

/-
  One turn of the loop of `gpt_fill_pte`: the entry, and the
  offset for the next; none where the partition is refused or
  has no valid identifier.
-/
def fillEntry (dev : BlkDesc) (cfg : GptConfig) (h : GptHeader) (last : Bool) (p : DiskPartition)
    (offset : Nat) : Option (GptEntry × Nat) :=
  let start := if p.start ≠ 0 then p.start else offset
  let offset := u64 (start + p.size)
  if refused dev h start p.size offset then none
  else
    let typeGuid :=
      if cfg.partitionTypeGuid && !p.typeGuid.isEmpty then
        cfg.uuidStrToBin p.typeGuid
      else some cfg.basicDataGuid
    let uniqueGuid :=
      if cfg.partitionUuids then cfg.uuidStrToBin p.uuid
      else some []
    match typeGuid, uniqueGuid with
    | some typeGuid, some uniqueGuid =>
      some
        ({ partitionTypeGuid := typeGuid
           uniquePartitionGuid := uniqueGuid
           startingLba := start
           endingLba :=
             if last && decide (p.size = 0) then h.lastUsableLba
             else u64 (offset + 2 ^ 64 - 1)
           legacyBiosBootable := p.bootable
           partitionName := efiName p.name }, offset)
    | _, _ => none

def fillEntries (dev : BlkDesc) (cfg : GptConfig) (h : GptHeader) :
    List DiskPartition → Nat → Option (List GptEntry)
  | [], _ => some []
  | p :: rest, offset =>
    match fillEntry dev cfg h rest.isEmpty p offset with
    | none => none
    | some (entry, offset) => (fillEntries dev cfg h rest offset).map (entry :: ·)

/- `gpt_fill_pte`; none where it returns an error. -/
def gptFillPte (dev : BlkDesc) (cfg : GptConfig) (h : GptHeader)
    (partitions : List DiskPartition) : Option (List GptEntry) :=
  fillEntries dev cfg h partitions h.firstUsableLba

----
-- Legal Layouts
----

/- The number of blocks, as `part_get_info_efi` has it. -/
def GptEntry.length (e : GptEntry) : Nat :=
  u64 (e.endingLba + 1 + 2 ^ 64 - e.startingLba)

def GptEntry.Contains (e : GptEntry) (block : Nat) : Prop :=
  e.startingLba ≤ block ∧ block ≤ e.endingLba

/- The block after the whole of the array of entries. -/
def arrayEnd (dev : BlkDesc) (h : GptHeader) : Nat :=
  h.partitionEntryLba + (h.numPartitionEntries * h.sizeofPartitionEntry + dev.blksz - 1) / dev.blksz

/- The blocks of the MBR, the header and the entries. -/
def Reserved (dev : BlkDesc) (h : GptHeader) (block : Nat) :
    Prop :=
  block = 0 ∨ block = h.myLba ∨ (h.partitionEntryLba ≤ block ∧ block < arrayEnd dev h)

/- What a table is to be, for the entries that have blocks. -/
structure Legal
    (dev : BlkDesc) (h : GptHeader)
    (entries : List GptEntry) : Prop where
  within :
    ∀ e ∈ entries, e.length ≠ 0 →
      h.firstUsableLba ≤ e.startingLba ∧ e.startingLba ≤ e.endingLba ∧ e.endingLba ≤ h.lastUsableLba
  clear : ∀ e ∈ entries, e.length ≠ 0 → ∀ block, e.Contains block → ¬ Reserved dev h block
  apart :
    entries.Pairwise fun e e' =>
      e.length ≠ 0 → e'.length ≠ 0 → ¬ ∃ block, e.Contains block ∧ e'.Contains block

/-
  The blocks that are requested, from an offset on: their
  start, and how many.  A last partition of no size takes the
  blocks up to the last usable one.
-/
def requestsFrom (h : GptHeader) : List DiskPartition → Nat → List (Nat × Nat)
  | [], _ => []
  | p :: rest, offset =>
    let start := if p.start ≠ 0 then p.start else offset
    let size :=
      if rest.isEmpty && decide (p.size = 0) then
        u64 (h.lastUsableLba + 1 + 2 ^ 64 - start)
      else p.size
    (start, size) :: requestsFrom h rest (u64 (start + p.size))

def requests (h : GptHeader)
    (partitions : List DiskPartition) : List (Nat × Nat) :=
  requestsFrom h partitions h.firstUsableLba

/- A request does not wrap, and starts where blocks are free. -/
structure Sound
    (dev : BlkDesc) (h : GptHeader)
    (r : Nat × Nat) : Prop where
  fits : r.1 + r.2 < 2 ^ 64 ∨ (r.1 + r.2 = 2 ^ 64 ∧ h.lastUsableLba + 1 = 2 ^ 64)
  usable : h.firstUsableLba ≤ r.1
  array : arrayEnd dev h ≤ r.1

instance (dev : BlkDesc) (h : GptHeader) (r : Nat × Nat) : Decidable (Sound dev h r) :=
  decidable_of_iff
    ((r.1 + r.2 < 2 ^ 64 ∨ (r.1 + r.2 = 2 ^ 64 ∧ h.lastUsableLba + 1 = 2 ^ 64)) ∧
      h.firstUsableLba ≤ r.1 ∧ arrayEnd dev h ≤ r.1)
    ⟨fun ⟨hFits, hUsable, hArray⟩ => ⟨hFits, hUsable, hArray⟩,
      fun hSound => ⟨hSound.fits, hSound.usable, hSound.array⟩⟩

/-
  What the code does not check: that requests of blocks are
  sound and do not overlap.
-/
structure Separate
    (dev : BlkDesc) (h : GptHeader)
    (rs : List (Nat × Nat)) : Prop where
  sound : ∀ r ∈ rs, r.2 ≠ 0 → Sound dev h r
  apart : rs.Pairwise fun r r' => r.2 ≠ 0 → r'.2 ≠ 0 → r.1 + r.2 ≤ r'.1 ∨ r'.1 + r'.2 ≤ r.1

----
-- Entries are Requests
----

section

variable {dev : BlkDesc} {cfg : GptConfig} {h : GptHeader}

/- What `gpt_fill_header` says of the blocks. -/
structure IsFilled (h : GptHeader) : Prop where
  myLba : h.myLba = 1
  entries : 2 ≤ h.partitionEntryLba
  first : h.firstUsableLba = h.partitionEntryLba + 32
  first_lt : h.firstUsableLba < 2 ^ 64
  last_lt : h.lastUsableLba < 2 ^ 64

theorem getD_map_lt {α : Type} {f : α → Nat} {value : Option α} {default bound : Nat}
    (hValue : ∀ x, f x < bound) (hDefault : default < bound) :
    (value.map f).getD default < bound := by
  cases value with
  | none => exact hDefault
  | some x => exact hValue x

theorem partitionEntriesOffset_bounds (dev : BlkDesc) (cfg : GptConfig) :
    2 ≤ partitionEntriesOffset dev cfg ∧ partitionEntriesOffset dev cfg < 2 ^ 32 := by
  have hBlocks : ∀ size : Int, u32 (padToBlocksize dev size / dev.blksz) < 2 ^ 32 :=
    fun size => Nat.mod_lt _ (by decide)
  have hLt := @getD_map_lt _ _ cfg.configOffset _ _ hBlocks
    (@getD_map_lt _ _ cfg.entriesOff 2 _ hBlocks (by decide))
  unfold partitionEntriesOffset
  dsimp only
  split_ifs
  · decide
  · exact ⟨by omega, hLt⟩

theorem gptFillHeader_filled
    {strGuid : List UInt8} (hHeader : gptFillHeader dev cfg strGuid = some h) :
    IsFilled h := by
  unfold gptFillHeader at hHeader
  rw [Option.map_eq_some_iff] at hHeader
  rcases hHeader with ⟨diskGuid, -, rfl⟩
  have hOffset := partitionEntriesOffset_bounds dev cfg
  have hFirst : u64 (partitionEntriesOffset dev cfg + 32) = partitionEntriesOffset dev cfg + 32 :=
    Nat.mod_eq_of_lt (by omega)
  refine ⟨rfl, hOffset.1, hFirst, ?_, Nat.mod_lt _ (by decide)⟩
  dsimp only
  omega

/- An entry has the blocks of a request that passed. -/
structure Written
    (h : GptHeader) (e : GptEntry)
    (r : Nat × Nat) : Prop where
  start : e.startingLba = r.1
  stop : e.endingLba = u64 (r.1 + r.2 + 2 ^ 64 - 1)
  start_lt : r.1 < 2 ^ 64
  size_lt : r.2 < 2 ^ 64
  upper : u64 (r.1 + r.2) ≤ u64 (h.lastUsableLba + 1)

variable {e : GptEntry}

theorem fillEntry_written {last : Bool} {p : DiskPartition} {offset offset' : Nat}
    (hLast : h.lastUsableLba < 2 ^ 64) (hOffset : offset < 2 ^ 64)
    (hEntry : fillEntry dev cfg h last p offset = some (e, offset')) :
    let start := if p.start ≠ 0 then p.start else offset
    offset' = u64 (start + p.size) ∧ Written h e (start,
        if last && decide (p.size = 0) then
          u64 (h.lastUsableLba + 1 + 2 ^ 64 - start)
        else p.size) := by
  have hStartLt := p.start_lt
  have hSizeLt := p.size_lt
  have hStart : (if p.start ≠ 0 then p.start else offset) < 2 ^ 64 := by split_ifs <;> omega
  unfold fillEntry at hEntry
  dsimp only at hEntry ⊢
  generalize (if p.start ≠ 0 then p.start else offset) = start at *
  by_cases hRefused : refused dev h start p.size (u64 (start + p.size)) = true
  · rw [if_pos hRefused] at hEntry
    cases hEntry
  rw [if_neg hRefused] at hEntry
  have hUpper : u64 (start + p.size) ≤ u64 (h.lastUsableLba + 1) := by
    by_contra hNot
    refine hRefused ?_
    unfold refused
    rw [decide_eq_true (Nat.not_le.mp hNot), Bool.or_true]
  split at hEntry
  · cases hEntry
    refine ⟨rfl, rfl, ?_, hStart, ?_, ?_⟩
    · dsimp only
      split_ifs
      · unfold u64
        omega
      · unfold u64
        omega
    · split_ifs
      · exact Nat.mod_lt _ (by decide)
      · exact hSizeLt
    · split_ifs
      · unfold u64
        omega
      · exact hUpper
  · cases hEntry

theorem fillEntries_written
    {partitions : List DiskPartition} {offset : Nat} {entries : List GptEntry}
    (hLast : h.lastUsableLba < 2 ^ 64) (hOffset : offset < 2 ^ 64)
    (hRun : fillEntries dev cfg h partitions offset = some entries) :
    ∃ ws : List (GptEntry × Nat × Nat),
      ws.map Prod.fst = entries ∧ ws.map Prod.snd = requestsFrom h partitions offset ∧
        ∀ w ∈ ws, Written h w.1 w.2 := by
  induction partitions generalizing offset entries with
  | nil =>
    cases hRun
    exact ⟨[], rfl, rfl, nofun⟩
  | cons p rest ih =>
    unfold fillEntries at hRun
    split at hRun
    · cases hRun
    · rename_i e offset' hEntry
      rw [Option.map_eq_some_iff] at hRun
      rcases hRun with ⟨es, hRest, rfl⟩
      rcases fillEntry_written hLast hOffset hEntry with ⟨rfl, hWritten⟩
      rcases ih (Nat.mod_lt _ (by decide)) hRest with ⟨ws, hEntries, hRequests, hAll⟩
      refine ⟨(e, if p.start ≠ 0 then p.start else offset,
        if rest.isEmpty && decide (p.size = 0) then
          u64 (h.lastUsableLba + 1 + 2 ^ 64 -
            if p.start ≠ 0 then p.start else offset)
        else p.size) :: ws, ?_, ?_, ?_⟩
      · rw [map_cons, hEntries]
      · rw [map_cons, hRequests]
        rfl
      · intro w hw
        rcases mem_cons.mp hw with rfl | hTail
        · exact hWritten
        · exact hAll w hTail

----
-- Legal Tables are Separate Requests
----

variable {r : Nat × Nat}

theorem Written.length (hWritten : Written h e r) :
    e.length = r.2 := by
  have hStart := hWritten.start_lt
  have hSize := hWritten.size_lt
  unfold GptEntry.length
  rw [hWritten.stop, hWritten.start]
  unfold u64
  omega

/- The blocks of an entry whose request does not wrap. -/
theorem Written.contains_iff
    {block : Nat} (hWritten : Written h e r) (hSize : r.2 ≠ 0) (hFits : r.1 + r.2 ≤ 2 ^ 64) :
    e.Contains block ↔ r.1 ≤ block ∧ block < r.1 + r.2 := by
  unfold GptEntry.Contains
  rw [hWritten.stop, hWritten.start]
  unfold u64
  omega

theorem Sound.fits_le (hSound : Sound dev h r) :
    r.1 + r.2 ≤ 2 ^ 64 := by
  rcases hSound.fits with hLt | ⟨hEq, -⟩ <;> omega

theorem Written.legal_iff (hFilled : IsFilled h) (hWritten : Written h e r) (hSize : r.2 ≠ 0) :
    ((h.firstUsableLba ≤ e.startingLba ∧ e.startingLba ≤ e.endingLba ∧
        e.endingLba ≤ h.lastUsableLba) ∧
      ∀ block, e.Contains block → ¬ Reserved dev h block) ↔ Sound dev h r := by
  have hSizeLt := hWritten.size_lt
  have hUpper := hWritten.upper
  have hMy := hFilled.myLba
  have hFirst := hFilled.first
  have hLast := hFilled.last_lt
  unfold u64 at hUpper
  constructor
  · rintro ⟨⟨hUsable, hOrder, hTop⟩, hClear⟩
    have hHere : e.Contains e.startingLba := ⟨Nat.le_refl _, hOrder⟩
    have hArray := hClear e.startingLba hHere
    rw [hWritten.stop, hWritten.start] at hOrder
    rw [hWritten.stop] at hTop
    rw [hWritten.start] at hUsable hArray
    unfold u64 at hOrder hTop
    refine ⟨by omega, hUsable, ?_⟩
    by_contra hBelow
    exact hArray (Or.inr (Or.inr (by omega)))
  · intro hSound
    have hFits := hSound.fits_le
    have hUsable := hSound.usable
    have hArray := hSound.array
    refine ⟨?_, fun block hBlock hReserved => ?_⟩
    · rw [hWritten.stop, hWritten.start]
      unfold u64
      rcases hSound.fits with hLt | ⟨hEq, hAll⟩ <;> omega
    · rw [hWritten.contains_iff hSize hFits] at hBlock
      unfold Reserved at hReserved
      omega

/- Two entries share no block where their requests do not. -/
theorem apart_iff {e e' : GptEntry} {r r' : Nat × Nat}
    (hWritten : Written h e r) (hWritten' : Written h e' r') (hSound : r.2 ≠ 0 → Sound dev h r)
    (hSound' : r'.2 ≠ 0 → Sound dev h r') :
    (e.length ≠ 0 → e'.length ≠ 0 → ¬ ∃ block, e.Contains block ∧ e'.Contains block) ↔
      (r.2 ≠ 0 → r'.2 ≠ 0 → r.1 + r.2 ≤ r'.1 ∨ r'.1 + r'.2 ≤ r.1) := by
  rw [hWritten.length, hWritten'.length]
  refine imp_congr_right fun hSize => imp_congr_right fun hSize' => ?_
  have hContains := fun block => @Written.contains_iff h e r block
    hWritten hSize (hSound hSize).fits_le
  have hContains' := fun block => @Written.contains_iff h e' r'
    block hWritten' hSize' (hSound' hSize').fits_le
  simp only [hContains, hContains']
  constructor
  · intro hNone
    by_contra hMeet
    exact hNone ⟨max r.1 r'.1, by omega⟩
  · rintro hApart ⟨block, hIn, hIn'⟩
    omega

end

/-
  Where the function returns no error, its table is legal
  exactly where the requests are separate: the code leaves
  only the upper end, the header and the array to its checks.
-/
theorem gpt_fill_pte_legal {dev : BlkDesc} {cfg : GptConfig} {strGuid : List UInt8} {h : GptHeader}
    {partitions : List DiskPartition} {entries : List GptEntry}
    (hHeader : gptFillHeader dev cfg strGuid = some h)
    (hRun : gptFillPte dev cfg h partitions = some entries) :
    Legal dev h entries ↔ Separate dev h (requests h partitions) := by
  have hFilled := gptFillHeader_filled hHeader
  rcases fillEntries_written hFilled.last_lt hFilled.first_lt hRun with ⟨ws, rfl, hRequests, hAll⟩
  rw [requests, ← hRequests]
  constructor
  · intro hLegal
    have hSound : ∀ w ∈ ws, w.2.2 ≠ 0 → Sound dev h w.2 := by
      intro w hw hSize
      have hMem := mem_map_of_mem (f := Prod.fst) hw
      have hLength : w.1.length ≠ 0 := by
        rw [(hAll w hw).length]
        exact hSize
      exact ((hAll w hw).legal_iff hFilled hSize).mp
        ⟨hLegal.within _ hMem hLength, hLegal.clear _ hMem hLength⟩
    refine ⟨fun r hr => ?_, ?_⟩
    · rcases mem_map.mp hr with ⟨w, hw, rfl⟩
      exact hSound w hw
    · have hApart := pairwise_map.mp hLegal.apart
      refine pairwise_map.mpr (hApart.imp_of_mem fun {w w'} hw hw' hNone => ?_)
      exact (apart_iff (hAll w hw) (hAll w' hw') (hSound w hw) (hSound w' hw')).mp hNone
  · intro hSeparate
    have hSound : ∀ w ∈ ws, w.2.2 ≠ 0 → Sound dev h w.2 :=
      fun w hw => hSeparate.sound _ (mem_map_of_mem (f := Prod.snd) hw)
    have hLegal : ∀ w ∈ ws, w.1.length ≠ 0 → _ :=
      fun w hw hLength =>
        ((hAll w hw).legal_iff hFilled ((hAll w hw).length ▸ hLength)).mpr
          (hSound w hw ((hAll w hw).length ▸ hLength))
    refine ⟨fun e he hLength => ?_, fun e he hLength => ?_, ?_⟩
    · rcases mem_map.mp he with ⟨w, hw, rfl⟩
      exact (hLegal w hw hLength).1
    · rcases mem_map.mp he with ⟨w, hw, rfl⟩
      exact (hLegal w hw hLength).2
    · have hApart := pairwise_map.mp hSeparate.apart
      refine pairwise_map.mpr (hApart.imp_of_mem fun {w w'} hw hw' hNone => ?_)
      exact (apart_iff (hAll w hw) (hAll w' hw') (hSound w hw) (hSound w' hw')).mpr hNone

/- A disk of a thousand blocks. -/
def smallDisk : BlkDesc where
  lba := 1000
  blksz := 512
  lba_lt := by decide
  blksz_pos := by decide

def plainConfig : GptConfig where
  entryNumbers := 128
  entriesOff := none
  configOffset := none
  partitionUuids := false
  partitionTypeGuid := false
  uuidStrToBin := some
  basicDataGuid := []

/- The header of the small disk. -/
def smallHeader : GptHeader where
  signature := 0x5452415020494645
  revision := 0x00010000
  headerSize := 92
  myLba := 1
  alternateLba := 999
  firstUsableLba := 34
  lastUsableLba := 966
  diskGuid := []
  partitionEntryLba := 2
  numPartitionEntries := 128
  sizeofPartitionEntry := 128
  headerCrc32 := 0
  partitionEntryArrayCrc32 := 0

/- A partition of these blocks, without a name. -/
def unnamed (start size : Nat) (hStart : start < 2 ^ 64)
    (hSize : size < 2 ^ 64) : DiskPartition where
  start
  size
  name := []
  bootable := false
  uuid := []
  typeGuid := []
  start_lt := hStart
  size_lt := hSize

/- An entry of these blocks, without a name. -/
def unnamedEntry (startingLba endingLba : Nat) : GptEntry where
  partitionTypeGuid := []
  uniquePartitionGuid := []
  startingLba
  endingLba
  legacyBiosBootable := false
  partitionName := List.replicate 36 0

theorem gpt_fill_pte_legal_two :
    Legal smallDisk smallHeader [unnamedEntry 34 133, unnamedEntry 134 966] :=
  (@gpt_fill_pte_legal smallDisk plainConfig [] smallHeader
    [unnamed 0 100 (by decide) (by decide), unnamed 0 0 (by decide) (by decide)]
    [unnamedEntry 34 133, unnamedEntry 134 966]
    (by decide) (by decide)).mpr ⟨by decide, by decide⟩

/- Explicit partitions that overlap are not refused. -/
theorem gpt_fill_pte_overlapping :
    gptFillHeader smallDisk plainConfig [] = some smallHeader ∧
      gptFillPte smallDisk plainConfig smallHeader
          [unnamed 100 50 (by decide) (by decide), unnamed 120 50 (by decide) (by decide)] =
        some [unnamedEntry 100 149, unnamedEntry 120 169] ∧
      ¬ Legal smallDisk smallHeader [unnamedEntry 100 149, unnamedEntry 120 169] := by
  refine ⟨by decide, by decide, fun hLegal => ?_⟩
  have hApart := rel_of_pairwise_cons hLegal.apart (mem_singleton.mpr rfl)
  exact hApart (by decide) (by decide) ⟨130, ⟨by decide, by decide⟩, ⟨by decide, by decide⟩⟩

end Uboot.Gpt
