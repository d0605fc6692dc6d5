import Mathlib.Data.List.Sort
import BootFirmware.Uboot.CTypes

/-
  The memory map of the EFI loader: a list of descriptors,
  and the function that adds a range to it.

  Addresses and page counts are 64-bit words.  The number of
  pages carved out of a descriptor goes through an `int`, in
  which it can be taken for one of the three codes.

  Key definitions include:
    * `EfiMemDesc`
    * `efiMemCarveOut`
    * `carvePass` and `carveLoop`
    * `efiAddMemoryMap`
-/

----
-- Descriptors
----

namespace Uboot.Efi

/- `struct efi_mem_desc`. -/
structure EfiMemDesc where
  type : Nat
  physicalStart : Nat
  virtualStart : Nat
  numPages : Nat
  memAttribute : Nat
deriving DecidableEq, Repr

def efiRuntimeServicesCode : Nat := 5
def efiRuntimeServicesData : Nat := 6
def efiConventionalMemory : Nat := 7
def efiMmapIo : Nat := 11

def efiMemoryWbShift : Nat := 3
def efiMemoryRuntimeShift : Nat := 63

/- `EFI_PAGE_SIZE`. -/
def efiPageSize : Nat := 4096

/- The value of a 64-bit word. -/
def u64 (n : Nat) : Nat := n % 2 ^ 64

/- The address after the last page. -/
def endOf (start pages : Nat) : Nat :=
  u64 (start + u64 (pages * efiPageSize))

----
-- Carving
----

def efiCarveNoOverlap : Int := -1
def efiCarveLoopAgain : Int := -2
def efiCarveOverlapsNonram : Int := -3

/-
  `efi_mem_carve_out`: what stands in the list in the place
  of `map`, which is nothing if it has been freed, and the
  value returned.
-/
def efiMemCarveOut (map carve : EfiMemDesc)
    (overlapOnlyRam : Bool) : List EfiMemDesc × Int :=
  let mapStart := map.physicalStart
  let mapEnd := endOf mapStart map.numPages
  let carveStart := carve.physicalStart
  let carveEnd := endOf carveStart carve.numPages
  if carveEnd ≤ mapStart ∨ carveStart ≥ mapEnd then
    ([map], efiCarveNoOverlap)
  else if overlapOnlyRam ∧ map.type ≠ efiConventionalMemory then
    ([map], efiCarveOverlapsNonram)
  else
    let carveStart := max carveStart mapStart
    let carveEnd := min carveEnd mapEnd
    if carveStart = mapStart then
      (if mapEnd = carveEnd then []
        else
          [{ map with
            physicalStart := carveEnd
            numPages := (mapEnd - carveEnd) / efiPageSize }],
        toInt ((carveEnd - carveStart) / efiPageSize))
    else
      ([{ map with
          physicalStart := carveStart
          numPages := (mapEnd - carveStart) / efiPageSize },
        { map with
          numPages := (carveStart - mapStart) / efiPageSize }],
        efiCarveLoopAgain)

/- How one walk over the list ends. -/
inductive Pass where
  | useAfterFree
  | overlapsNonram (mem : List EfiMemDesc)
  | again (mem : List EfiMemDesc) (carved : Int)
  | done (mem : List EfiMemDesc)
deriving DecidableEq, Repr

/- Entries before the ones a walk has changed. -/
def Pass.under (before : List EfiMemDesc) : Pass → Pass
  | .useAfterFree => .useAfterFree
  | .overlapsNonram mem => .overlapsNonram (before ++ mem)
  | .again mem carved => .again (before ++ mem) carved
  | .done mem => .done (before ++ mem)

/-
  The `list_for_each` in `efi_add_memory_map`.  It goes on
  from the entry that was looked at, which may be freed.
-/
def carvePass (carve : EfiMemDesc)
    (overlapOnlyRam : Bool) : List EfiMemDesc → Pass
  | [] => .done []
  | map :: rest =>
    let (now, r) := efiMemCarveOut map carve overlapOnlyRam
    if r = efiCarveOverlapsNonram then
      .overlapsNonram (now ++ rest)
    else if r = efiCarveNoOverlap then
      if now = [] then
        .useAfterFree
      else
        (carvePass carve overlapOnlyRam rest).under now
    else if r = efiCarveLoopAgain then
      .again (now ++ rest) 0
    else
      .again (now ++ rest) r

/- How the loop, or the whole call, ends. -/
inductive Outcome where
  | useAfterFree
  | failed (mem : List EfiMemDesc)
  | added (mem : List EfiMemDesc)
deriving DecidableEq, Repr

/-
  The loop that walks again after each change, with a bound
  on the walks; the list and the pages carved at its end.
-/
def carveLoop (carve : EfiMemDesc) (overlapOnlyRam : Bool) :
    Nat → List EfiMemDesc → Nat → Option (Outcome × Nat)
  | 0, _, _ => none
  | walks + 1, mem, carvedPages =>
    match carvePass carve overlapOnlyRam mem with
    | .useAfterFree => some (.useAfterFree, carvedPages)
    | .overlapsNonram mem => some (.failed mem, carvedPages)
    | .again mem carved =>
      carveLoop carve overlapOnlyRam walks mem ((carvedPages + carved) % 2 ^ 64).toNat
    | .done mem => some (.added mem, carvedPages)

/- The attributes that go with a memory type. -/
def attributeOf (memoryType : Int) : Nat :=
  if memoryType = efiRuntimeServicesCode ∨ memoryType = efiRuntimeServicesData then
    2 ^ efiMemoryWbShift + 2 ^ efiMemoryRuntimeShift
  else if memoryType = efiMmapIo then
    2 ^ efiMemoryRuntimeShift
  else
    2 ^ efiMemoryWbShift

/- The descriptor of a range to add. -/
def newDesc (start pages : Nat)
    (memoryType : Int) : EfiMemDesc where
  type := (memoryType % 2 ^ 32).toNat
  physicalStart := start
  virtualStart := start
  numPages := pages
  memAttribute := attributeOf memoryType

/-
  `efi_mem_sort`, with the highest start first.  `list_sort`
  is stable.
-/
def efiMemSort (mem : List EfiMemDesc) : List EfiMemDesc :=
  mem.insertionSort fun a b => b.physicalStart ≤ a.physicalStart

/-
  `efi_add_memory_map`.  It returns `start` when the range
  has been added and 0 when it failed; without a result the
  bound on the walks was too low.
-/
def efiAddMemoryMap (walks : Nat) (mem : List EfiMemDesc) (start pages : Nat) (memoryType : Int)
    (overlapOnlyRam : Bool) : Option Outcome :=
  if pages = 0 then
    some (.added mem)
  else
    let new := newDesc start pages memoryType
    (carveLoop new overlapOnlyRam walks mem 0).map
      fun (outcome, carvedPages) =>
        match outcome with
        | .added mem =>
          if overlapOnlyRam ∧ carvedPages ≠ pages then
            .failed mem
          else
            .added (efiMemSort (mem ++ [new]))
        | outcome => outcome

end Uboot.Efi
