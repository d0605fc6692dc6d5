import BootFirmware.Lib.Faults
import BootFirmware.Uboot.Crc32
import BootFirmware.Uboot.CTypes

/-
  Reading a partition table from a disk that may hold
  anything.

  The sizes that the header gives are used as they are: its
  own as the number of bytes that are summed up, and those of
  the entries for the memory of the array, whose entries are
  128 bytes long all the same.

  Key definitions include:
    * `GptDisk`, `Buffer` and `RawHeader`
    * `isGptValid`, `partGetInfoEfi` and `partPrintEfi`
    * `Accepted` and `InUse`
    * `HeaderFits`, `HeadersFit` and `EntryFits`

  The main results are:
    * `isGptValid_cases`
    * `gpt_reader_runs_iff`
-/

----
-- The Disk
----

namespace Uboot.Gpt

open Faults

/-
  A disk of `lba` blocks, of at least 512 bytes each, that
  may fail to read some blocks.  There may be no memory for
  the entries.
-/
structure GptDisk where
  lba : Nat
  blksz : Nat
  read : Nat → Nat → Option (Nat → UInt8)
  memory : Nat → Bool
  blksz_ge : 512 ≤ blksz

/- What was read into a buffer of `len` bytes. -/
structure Buffer where
  byte : Nat → UInt8
  len : Nat

def Buffer.bytes (b : Buffer) (n : Nat) : List UInt8 :=
  (List.range n).map b.byte

/- `le32_to_cpu` and the like, for `n` bytes. -/
def Buffer.le (b : Buffer) (offset n : Nat) : Nat :=
  (List.range n).foldr (fun i v => (b.byte (offset + i)).toNat + 256 * v) 0

structure RawHeader where
  signature : Nat
  headerSize : Nat
  headerCrc32 : Nat
  myLba : Nat
  firstUsableLba : Nat
  lastUsableLba : Nat
  partitionEntryLba : Nat
  numPartitionEntries : Nat
  sizeofPartitionEntry : Nat
  partitionEntryArrayCrc32 : Nat

def Buffer.header (b : Buffer) : RawHeader where
  signature := b.le 0 8
  headerSize := b.le 12 4
  headerCrc32 := b.le 16 4
  myLba := b.le 24 8
  firstUsableLba := b.le 40 8
  lastUsableLba := b.le 48 8
  partitionEntryLba := b.le 72 8
  numPartitionEntries := b.le 80 4
  sizeofPartitionEntry := b.le 84 4
  partitionEntryArrayCrc32 := b.le 88 4

/- The header while its sum is computed. -/
def Buffer.cleared (b : Buffer) : Buffer :=
  { b with
    byte := fun i =>
      if 16 ≤ i ∧ i < 20 then 0 else b.byte i }

def GPT_HEADER_SIGNATURE : Nat := 0x5452415020494645

def sizeofGptHeader : Nat := 92

def sizeofGptEntry : Nat := 128

/- `PAD_TO_BLOCKSIZE` and `BLOCK_CNT` -/
def blockCnt (disk : GptDisk) (size : Nat) : Nat :=
  (size - 1) / disk.blksz + 1

def padded (disk : GptDisk) (size : Nat) : Nat :=
  blockCnt disk size * disk.blksz

/- The bytes of all entries, as a 32-bit number. -/
def RawHeader.count (h : RawHeader) : Nat :=
  u32 (h.numPartitionEntries * h.sizeofPartitionEntry)

----
-- Reading
----

/- An access to the first `n` bytes of a buffer. -/
def Buffer.access (b : Buffer) (n : Nat) : Except Unit Unit :=
  if n ≤ b.len then .ok () else .error ()

def efiCrc32 (b : Buffer) (len : Nat) : Except Unit Nat := do
  b.access len
  return (crc32 0 (b.bytes len)).toNat

def validateGptHeader (disk : GptDisk) (lba : Nat)
    (b : Buffer) : Except Unit Bool := do
  b.access sizeofGptHeader
  let h := b.header
  if h.signature ≠ GPT_HEADER_SIGNATURE then return false
  else
    let crc ← efiCrc32 b.cleared h.headerSize
    return decide
      (crc = h.headerCrc32 ∧ h.myLba = lba ∧ h.firstUsableLba ≤ disk.lba ∧
        h.lastUsableLba ≤ disk.lba)

def allocReadGptEntries (disk : GptDisk)
    (h : RawHeader) : Option Buffer :=
  if h.count = 0 ∨ ¬ disk.memory (padded disk h.count) then
    none
  else
    (disk.read h.partitionEntryLba (blockCnt disk h.count)).map
      fun byte => ⟨byte, padded disk h.count⟩

def validateGptEntries (h : RawHeader)
    (e : Buffer) : Except Unit Bool := do
  let crc ← efiCrc32 e h.count
  return decide (crc = h.partitionEntryArrayCrc32)

/- The header and the entries, if they are valid. -/
def isGptValid (disk : GptDisk)
    (lba : Nat) : Except Unit (Option (RawHeader × Buffer)) :=
  match disk.read 0 1, disk.read lba 1 with
  | some _, some byte => do
      let b : Buffer := ⟨byte, disk.blksz⟩
      if ← validateGptHeader disk lba b then
        match allocReadGptEntries disk b.header with
        | none => return none
        | some e =>
          if ← validateGptEntries b.header e then
            return some (b.header, e)
          else return none
      else return none
  | _, _ => return none

/- `lba - 1` -/
def backupLba (disk : GptDisk) : Nat :=
  (disk.lba + 2 ^ 64 - 1) % 2 ^ 64

/- The primary table, or else the backup. -/
def findTable (disk : GptDisk) : Except Unit (Option (RawHeader × Buffer)) := do
  match ← isGptValid disk 1 with
  | some t => return some t
  | none => isGptValid disk (backupLba disk)

/- `gpt_pte[i]`, the whole entry. -/
def entryAt (e : Buffer) (i : Nat) : Except Unit Buffer := do
  e.access ((i + 1) * sizeofGptEntry)
  return ⟨fun k => e.byte (i * sizeofGptEntry + k), sizeofGptEntry⟩

/- `is_pte_valid`: the type is not all zeros. -/
def Buffer.used (pte : Buffer) : Bool :=
  pte.bytes 16 != List.replicate 16 0

/-
  The place of a partition, in blocks; its name, its type and
  its identifier are other bytes of the entry.
-/
structure PartInfo where
  start : Nat
  size : Nat
  blksz : Nat

def partGetInfoEfi (disk : GptDisk)
    (part : Int) : Except Unit (Option PartInfo) := do
  if part < 1 then return none
  else
    match ← findTable disk with
    | none => return none
    | some (h, e) =>
      if (h.numPartitionEntries : Int) < part then return none
      else
        let pte ← entryAt e (part - 1).toNat
        if pte.used then
          return some
            { start := pte.le 32 8
              size := (pte.le 40 8 + 1 + 2 ^ 64 - pte.le 32 8) % 2 ^ 64
              blksz := disk.blksz }
        else return none

/- The entries that are printed, from entry `i` on. -/
def printFrom (e : Buffer) : Nat → Nat → Except Unit (List Buffer)
  | 0, _ => return []
  | left + 1, i => do
      let pte ← entryAt e i
      if pte.used then
        let rest ← printFrom e left (i + 1)
        return pte :: rest
      else return []

def partPrintEfi (disk : GptDisk) : Except Unit (List Buffer) := do
  match ← findTable disk with
  | none => return []
  | some (h, e) => printFrom e h.numPartitionEntries 0

----
-- Accepted Tables
----

/- What makes the block of a header valid. -/
structure HeaderOk
    (disk : GptDisk) (lba : Nat)
    (b : Buffer) : Prop where
  signature : b.header.signature = GPT_HEADER_SIGNATURE
  sum : (crc32 0 (b.cleared.bytes b.header.headerSize)).toNat = b.header.headerCrc32
  place :
    b.header.myLba = lba ∧ b.header.firstUsableLba ≤ disk.lba ∧ b.header.lastUsableLba ≤ disk.lba

/- The header and the entries of a table that is valid. -/
structure Accepted
    (disk : GptDisk) (lba : Nat) (h : RawHeader)
    (e : Buffer) : Prop where
  mbr : (disk.read 0 1).isSome
  header :
    ∃ byte, disk.read lba 1 = some byte ∧ h = (⟨byte, disk.blksz⟩ : Buffer).header ∧
      HeaderOk disk lba ⟨byte, disk.blksz⟩
  entries : allocReadGptEntries disk h = some e
  sum : (crc32 0 (e.bytes h.count)).toNat = h.partitionEntryArrayCrc32

/- The table that the functions use. -/
def InUse (disk : GptDisk) (h : RawHeader)
    (e : Buffer) : Prop :=
  Accepted disk 1 h e ∨ (∀ h e, ¬ Accepted disk 1 h e) ∧ Accepted disk (backupLba disk) h e

/- A header with the signature is in its block. -/
def HeaderFits (disk : GptDisk) (lba : Nat) : Prop :=
  (disk.read 0 1).isSome → ∀ byte, disk.read lba 1 = some byte →
      (⟨byte, disk.blksz⟩ : Buffer).header.signature = GPT_HEADER_SIGNATURE →
        (⟨byte, disk.blksz⟩ : Buffer).header.headerSize ≤ disk.blksz

/- Of the backup only where the primary table is not valid. -/
def HeadersFit (disk : GptDisk) : Prop :=
  HeaderFits disk 1 ∧ ((∀ h e, ¬ Accepted disk 1 h e) → HeaderFits disk (backupLba disk))

/- The entry is in the blocks that the sizes give. -/
def EntryFits (disk : GptDisk) (h : RawHeader)
    (i : Nat) : Prop :=
  (i + 1) * sizeofGptEntry ≤ padded disk h.count

section Reading

variable {disk : GptDisk} {b : Buffer}

theorem access_of_le {n : Nat} (hLe : n ≤ b.len) :
    b.access n = .ok () :=
  if_pos hLe

variable {α : Type}

theorem not_runs_access_bind {n : Nat} (hNot : ¬ n ≤ b.len) (f : Unit → Except Unit α) :
    ¬ Runs (b.access n >>= f) := by
  rw [runs_bind_iff]
  rintro ⟨u, hOk, -⟩
  rw [Buffer.access, if_neg hNot] at hOk
  cases hOk

theorem le_padded {size : Nat} :
    size ≤ padded disk size := by
  have hBlksz := disk.blksz_ge
  have hDiv := Nat.div_add_mod (size - 1) disk.blksz
  have hMod := Nat.mod_lt (size - 1)
    (by omega : 0 < disk.blksz)
  unfold padded blockCnt
  rw [Nat.add_mul, Nat.one_mul, Nat.mul_comm]
  omega

variable {h : RawHeader} {e : Buffer}

theorem len_of_entries (hEntries : allocReadGptEntries disk h = some e) :
    e.len = padded disk h.count := by
  unfold allocReadGptEntries at hEntries
  split_ifs at hEntries
  rcases Option.map_eq_some_iff.mp hEntries with ⟨byte, -, rfl⟩
  rfl

/- The sum over the entries is always inside of them. -/
theorem validateGptEntries_ok (hEntries : allocReadGptEntries disk h = some e) :
    validateGptEntries h e =
      .ok (decide ((crc32 0 (e.bytes h.count)).toNat = h.partitionEntryArrayCrc32)) := by
  have hAccess : e.access h.count = .ok () := by
    refine access_of_le ?_
    rw [len_of_entries hEntries]
    exact le_padded
  unfold validateGptEntries efiCrc32
  rw [hAccess]
  rfl

/- A header with the signature is summed up. -/
theorem validateGptHeader_cases (hLen : b.len = disk.blksz) (lba : Nat) :
    ((b.header.signature = GPT_HEADER_SIGNATURE → b.header.headerSize ≤ disk.blksz) →
      ∃ r, validateGptHeader disk lba b = .ok r ∧ (r = true ↔ HeaderOk disk lba b)) ∧
      (¬ (b.header.signature = GPT_HEADER_SIGNATURE → b.header.headerSize ≤ disk.blksz) →
        ¬ Runs (validateGptHeader disk lba b)) := by
  have hBlksz := disk.blksz_ge
  have hFixed : b.access sizeofGptHeader = .ok () := by
    refine access_of_le ?_
    rw [hLen]
    unfold sizeofGptHeader
    omega
  unfold validateGptHeader
  rw [hFixed, ok_bind]
  by_cases hSignature : b.header.signature ≠ GPT_HEADER_SIGNATURE
  · rw [if_pos hSignature]
    refine ⟨fun _ => ⟨false, rfl, ?_⟩, fun hNot => ?_⟩
    · exact iff_of_false nofun fun hOk => hSignature hOk.signature
    · exact absurd (fun hEq => absurd hEq hSignature) hNot
  rw [if_neg hSignature]
  constructor
  · intro hFits
    have hAccess : b.cleared.access b.header.headerSize = .ok () := by
      refine access_of_le ?_
      change _ ≤ b.len
      rw [hLen]
      exact hFits (not_not.mp hSignature)
    unfold efiCrc32
    rw [hAccess]
    refine ⟨_, rfl, ?_⟩
    rw [decide_eq_true_iff]
    exact ⟨fun h => ⟨not_not.mp hSignature, h.1, h.2⟩, fun h => ⟨h.sum, h.place⟩⟩
  · intro hNot
    unfold efiCrc32
    rw [bind_assoc]
    refine not_runs_access_bind (fun hLe => hNot fun _ => ?_) _
    rw [← hLen]
    exact hLe

/- What is found in a block of which the header is. -/
theorem isGptValid_cases (disk : GptDisk) (lba : Nat) :
    (HeaderFits disk lba →
      ∃ r, isGptValid disk lba = .ok r ∧ ∀ h e, r = some (h, e) ↔ Accepted disk lba h e) ∧
      (¬ HeaderFits disk lba → ¬ Runs (isGptValid disk lba)) := by
  unfold isGptValid HeaderFits
  cases hMbr : disk.read 0 1 with
  | none =>
    refine ⟨fun _ => ⟨none, rfl, fun h e => ?_⟩, fun hNot => absurd nofun hNot⟩
    refine iff_of_false nofun fun hAccepted => ?_
    have hSome := hAccepted.mbr
    rw [hMbr] at hSome
    cases hSome
  | some mbr =>
  cases hRead : disk.read lba 1 with
  | none =>
    refine ⟨fun _ => ⟨none, rfl, fun h e => ?_⟩, fun hNot => absurd (fun _ => nofun) hNot⟩
    refine iff_of_false nofun fun hAccepted => ?_
    rcases hAccepted.header with ⟨byte, hByte, -⟩
    rw [hRead] at hByte
    cases hByte
  | some byte =>
  have hHeader := @validateGptHeader_cases disk ⟨byte, disk.blksz⟩ rfl lba
  have hIff :
      ((some mbr).isSome → ∀ byte', some byte = some byte' →
          (⟨byte', disk.blksz⟩ : Buffer).header.signature = GPT_HEADER_SIGNATURE →
            (⟨byte', disk.blksz⟩ : Buffer).header.headerSize ≤ disk.blksz) ↔
        ((⟨byte, disk.blksz⟩ : Buffer).header.signature = GPT_HEADER_SIGNATURE →
          (⟨byte, disk.blksz⟩ : Buffer).header.headerSize ≤ disk.blksz) := by
    constructor
    · exact fun h => h rfl byte rfl
    · rintro h - byte' hEq
      cases hEq
      exact h
  rw [hIff]
  constructor
  · intro hFits
    rcases hHeader.1 hFits with ⟨r, hValid, hOk⟩
    dsimp only
    rw [hValid, ok_bind]
    have hUnique :
        ∀ {h e}, Accepted disk lba h e → h = (⟨byte, disk.blksz⟩ : Buffer).header ∧ r = true := by
      intro h e hAccepted
      rcases hAccepted.header with ⟨byte', hByte, hEq, hIn⟩
      rw [hRead] at hByte
      cases hByte
      exact ⟨hEq, hOk.mpr hIn⟩
    cases r with
    | false =>
      refine ⟨none, rfl, fun h e => iff_of_false nofun ?_⟩
      intro hAccepted
      cases (hUnique hAccepted).2
    | true =>
    rw [if_pos rfl]
    cases hEntries : allocReadGptEntries disk (⟨byte, disk.blksz⟩ : Buffer).header with
    | none =>
      refine ⟨none, rfl, fun h e => iff_of_false nofun ?_⟩
      intro hAccepted
      have hSome := hAccepted.entries
      rw [(hUnique hAccepted).1, hEntries] at hSome
      cases hSome
    | some e =>
    dsimp only
    rw [validateGptEntries_ok hEntries, ok_bind]
    by_cases hSum :
        (crc32 0 (e.bytes (⟨byte, disk.blksz⟩ : Buffer).header.count)).toNat =
          (⟨byte, disk.blksz⟩ : Buffer).header.partitionEntryArrayCrc32
    · rw [if_pos (decide_eq_true hSum)]
      refine ⟨_, rfl, fun h e' => ?_⟩
      constructor
      · intro hEq
        rcases Prod.mk.inj (Option.some.inj hEq) with ⟨rfl, rfl⟩
        exact ⟨by rw [hMbr]; rfl, ⟨byte, hRead, rfl, hOk.mp rfl⟩, hEntries, hSum⟩
      · intro hAccepted
        have hSome := hAccepted.entries
        rw [(hUnique hAccepted).1, hEntries] at hSome
        cases hSome
        rw [(hUnique hAccepted).1]
    · rw [if_neg (by simpa using hSum)]
      refine ⟨none, rfl, fun h e' => iff_of_false nofun ?_⟩
      intro hAccepted
      have hSome := hAccepted.entries
      have hBad := hAccepted.sum
      rw [(hUnique hAccepted).1] at hSome hBad
      rw [hEntries] at hSome
      cases hSome
      exact hSum hBad
  · intro hNot hRuns
    rcases (runs_bind_iff _ _).mp hRuns with ⟨r, hEq, -⟩
    exact hHeader.2 hNot ⟨r, hEq⟩

theorem findTable_cases (disk : GptDisk) :
    (HeadersFit disk → ∃ r, findTable disk = .ok r ∧ ∀ h e, r = some (h, e) ↔ InUse disk h e) ∧
      (¬ HeadersFit disk → ¬ Runs (findTable disk)) := by
  have hPrimary := isGptValid_cases disk 1
  have hBackup := isGptValid_cases disk (backupLba disk)
  unfold findTable HeadersFit InUse
  by_cases hFits : HeaderFits disk 1
  swap
  · refine ⟨fun h => absurd h.1 hFits, fun _ hRuns => ?_⟩
    rcases (runs_bind_iff _ _).mp hRuns with ⟨r, hEq, -⟩
    exact hPrimary.2 hFits ⟨r, hEq⟩
  rcases hPrimary.1 hFits with ⟨r, hRun, hFound⟩
  rw [hRun, ok_bind]
  cases r with
  | some t =>
    have hAccepted := (hFound t.1 t.2).mp rfl
    refine ⟨fun _ => ⟨some t, rfl, fun h e => ?_⟩, ?_⟩
    · rw [hFound h e]
      exact ⟨Or.inl, fun hUse => hUse.elim id fun hNone => absurd hAccepted (hNone.1 _ _)⟩
    · exact fun hNot => absurd ⟨hFits, fun hNone => absurd hAccepted (hNone _ _)⟩ hNot
  | none =>
    have hNone : ∀ h e, ¬ Accepted disk 1 h e := by
      intro h e hAccepted
      cases (hFound h e).mpr hAccepted
    constructor
    · rintro ⟨-, hSecond⟩
      rcases hBackup.1 (hSecond hNone) with ⟨r, hRun', hFound'⟩
      refine ⟨r, hRun', fun h e => ?_⟩
      rw [hFound' h e]
      exact ⟨fun hAccepted => Or.inr ⟨hNone, hAccepted⟩,
        fun hUse => hUse.elim (fun h' => absurd h' (hNone _ _)) And.right⟩
    · exact fun hNot => hBackup.2 fun hSecond => hNot ⟨hFits, fun _ => hSecond⟩

theorem InUse.length (hUse : InUse disk h e) :
    e.len = padded disk h.count := by
  rcases hUse with hAccepted | ⟨-, hAccepted⟩
  · exact len_of_entries hAccepted.entries
  · exact len_of_entries hAccepted.entries

theorem runs_entryAt_bind_iff {i : Nat} {f : Buffer → Except Unit α} :
    Runs (entryAt e i >>= f) ↔ (i + 1) * sizeofGptEntry ≤ e.len ∧
        Runs (f ⟨fun k => e.byte (i * sizeofGptEntry + k), sizeofGptEntry⟩) := by
  unfold entryAt
  by_cases hLe : (i + 1) * sizeofGptEntry ≤ e.len
  · rw [access_of_le hLe]
    exact (and_iff_right hLe).symm
  · refine iff_of_false ?_ fun h => hLe h.1
    rw [bind_assoc]
    exact not_runs_access_bind hLe _

/- The entries that are in use before the one that ends. -/
def UsedBelow (e : Buffer) (i : Nat) : Prop :=
  ∀ j < i, (⟨fun k => e.byte (j * sizeofGptEntry + k), sizeofGptEntry⟩ : Buffer).used

theorem runs_printFrom_iff (left i : Nat) (hUsed : UsedBelow e i) :
    Runs (printFrom e left i) ↔
      ∀ j, i ≤ j → j < i + left → UsedBelow e j → (j + 1) * sizeofGptEntry ≤ e.len := by
  induction left generalizing i with
  | zero =>
    refine iff_of_true (runs_ok _) fun j hLe hLt => ?_
    omega
  | succ left ih =>
    have hRest :
        ∀ pte, Runs
              (do
                let rest ← printFrom e left (i + 1)
                return pte :: rest) ↔
            Runs (printFrom e left (i + 1)) :=
      fun pte => runs_bind_of_forall (fun _ => runs_ok _) _
    rw [printFrom, runs_entryAt_bind_iff]
    constructor
    · rintro ⟨hHere, hMore⟩ j hLe hLt hBelow
      rcases Nat.eq_or_lt_of_le hLe with rfl | hGt
      · exact hHere
      rw [if_pos (hBelow i hGt), hRest] at hMore
      have hNext : UsedBelow e (i + 1) := fun k hk => hBelow k (by omega)
      exact (ih (i + 1) hNext).mp hMore j hGt (by omega) hBelow
    · intro hAll
      refine ⟨hAll i (Nat.le_refl i) (by omega) hUsed, ?_⟩
      split
      · rename_i hHere
        rw [hRest]
        have hNext : UsedBelow e (i + 1) := by
          intro k hk
          rcases Nat.lt_succ_iff_lt_or_eq.mp hk with hLt | rfl
          · exact hUsed k hLt
          · exact hHere
        refine (ih (i + 1) hNext).mpr fun j hLe hLt => ?_
        exact hAll j (by omega) (by omega)
      · exact runs_ok _

/- What is done with the table that is found, if one is. -/
theorem runs_findTable_bind_iff
    {f : Option (RawHeader × Buffer) → Except Unit α} {P : RawHeader → Buffer → Prop}
    (hNone : Runs (f none)) (hSome : ∀ h e, InUse disk h e → (Runs (f (some (h, e))) ↔ P h e)) :
    Runs (findTable disk >>= f) ↔ HeadersFit disk ∧ ∀ h e, InUse disk h e → P h e := by
  by_cases hFits : HeadersFit disk
  swap
  · refine iff_of_false (fun hRuns => ?_) fun h => hFits h.1
    rcases (runs_bind_iff _ _).mp hRuns with ⟨r, hEq, -⟩
    exact (findTable_cases disk).2 hFits ⟨r, hEq⟩
  rw [and_iff_right hFits]
  rcases (findTable_cases disk).1 hFits with ⟨r, hEq, hFound⟩
  rw [hEq, ok_bind]
  rcases r with - | ⟨h, e⟩
  · refine iff_of_true hNone fun h e hUse => ?_
    cases (hFound h e).mpr hUse
  have hUse := (hFound h e).mp rfl
  refine (hSome h e hUse).trans ⟨fun hThis h' e' hUse' => ?_, fun hAll => hAll h e hUse⟩
  cases (hFound h' e').mpr hUse'
  exact hThis

/-
  The functions stay in their buffers exactly where each
  header that they look at, and each entry that they access,
  is inside of what was read.
-/
theorem gpt_reader_runs_iff (disk : GptDisk) :
    (∀ lba, Runs (isGptValid disk lba) ↔ HeaderFits disk lba) ∧ (∀ part : Int,
      Runs (partGetInfoEfi disk part) ↔ (1 ≤ part → HeadersFit disk ∧ ∀ h e, InUse disk h e →
              part ≤ h.numPartitionEntries → EntryFits disk h (part - 1).toNat)) ∧
    (Runs (partPrintEfi disk) ↔ HeadersFit disk ∧ ∀ h e, InUse disk h e →
          ∀ i < h.numPartitionEntries, UsedBelow e i → EntryFits disk h i) := by
  refine ⟨fun lba => ?_, fun part => ?_, ?_⟩
  · refine ⟨fun hRuns => ?_, fun hFits => ?_⟩
    · by_contra hNot
      exact (isGptValid_cases disk lba).2 hNot hRuns
    · rcases (isGptValid_cases disk lba).1 hFits with ⟨r, hEq, -⟩
      exact ⟨r, hEq⟩
  · unfold partGetInfoEfi
    by_cases hPart : part < 1
    · rw [if_pos hPart]
      exact iff_of_true (runs_ok _) fun h => by omega
    rw [if_neg hPart, imp_iff_right (Int.not_lt.mp hPart)]
    refine runs_findTable_bind_iff (runs_ok _) fun h e hUse => ?_
    dsimp only
    by_cases hBig : (h.numPartitionEntries : Int) < part
    · rw [if_pos hBig]
      exact iff_of_true (runs_ok _) fun h => by omega
    rw [if_neg hBig, imp_iff_right (Int.not_lt.mp hBig),
      runs_entryAt_bind_iff, hUse.length, EntryFits]
    refine and_iff_left ?_
    split <;> exact runs_ok _
  · unfold partPrintEfi
    refine runs_findTable_bind_iff (runs_ok _) fun h e hUse => ?_
    have hLength := hUse.length
    dsimp only
    rw [runs_printFrom_iff _ _ fun j hj => absurd hj (Nat.not_lt_zero j)]
    constructor
    · intro hAll i hi hUsed
      have hLe := hAll i (Nat.zero_le i) (by omega) hUsed
      rwa [hLength] at hLe
    · intro hAll i _ hi hUsed
      rw [hLength]
      exact hAll i (by omega) hUsed

/-
  A disk whose header has the signature and says that it is
  longer than its block.
-/
def longHeaderDisk : GptDisk where
  lba := 100
  blksz := 512
  read _ _ := some fun i =>
    [0x45, 0x46, 0x49, 0x20, 0x50, 0x41, 0x52, 0x54, 0, 0, 1, 0, 1, 2].getD i 0
  memory _ := true
  blksz_ge := Nat.le_refl 512

/- The sum over the header then leaves the block. -/
theorem gpt_reader_leaves_block :
    ¬ Runs (isGptValid longHeaderDisk 1) ∧ ¬ Runs (partGetInfoEfi longHeaderDisk 1) ∧
      ¬ Runs (partPrintEfi longHeaderDisk) := by
  have hNot : ¬ HeaderFits longHeaderDisk 1 := by
    intro hFits
    exact absurd (hFits rfl _ rfl rfl) (by decide)
  have hValid := (isGptValid_cases longHeaderDisk 1).2 hNot
  have hTable := (findTable_cases longHeaderDisk).2 fun h => hNot h.1
  refine ⟨hValid, fun hRuns => ?_, fun hRuns => ?_⟩
  · rcases (runs_bind_iff _ _).mp hRuns with ⟨r, hEq, -⟩
    exact hTable ⟨r, hEq⟩
  · rcases (runs_bind_iff _ _).mp hRuns with ⟨r, hEq, -⟩
    exact hTable ⟨r, hEq⟩

end Reading

end Uboot.Gpt
