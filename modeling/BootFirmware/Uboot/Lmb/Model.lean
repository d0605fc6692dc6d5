import Mathlib.Algebra.Group.Nat.Defs
import BootFirmware.Lib.Memory

/-
  Logical memory blocks: the table of reserved ranges that
  the boot loader keeps.

  Addresses and sizes are unsigned and wrap at the width of
  `phys_addr_t`, and the count is an `unsigned long`.  A
  table has room for one region more than its count may
  reach; a loop that runs out of that room has no result.

  Key definitions include:
    * `LmbProperty`, `LmbRegion` and `Lmb`
    * `lmbAddRegion` and `lmbRemoveRegion`
    * `lmbReserve`, `lmbFree` and `lmbIsReserved`
-/

----
-- Tables
----

namespace Uboot

/- The widths of `phys_addr_t` and of `unsigned long`. -/
structure Widths where
  phys : Nat
  long : Nat
  long_ge : 4 ≤ long

namespace Widths

variable (w : Widths)

/- Addition of addresses. -/
def add (a b : Nat) : Nat :=
  (a + b) % 2 ^ w.phys

/- Subtraction of addresses. -/
def sub (a b : Nat) : Nat :=
  (a + (2 ^ w.phys - b % 2 ^ w.phys)) % 2 ^ w.phys

/- `n - 1` in an `unsigned long`. -/
def pred (n : Nat) : Nat :=
  (n + (2 ^ w.long - 1)) % 2 ^ w.long

end Widths

/- `struct lmb_property`. -/
@[ext] structure LmbProperty where
  base : Nat
  size : Nat
deriving DecidableEq, Repr

/- `MAX_LMB_REGIONS`. -/
def maxLmbRegions : Nat := 8

/- `struct lmb_region`; the first `cnt` regions count. -/
structure LmbRegion where
  cnt : Nat
  size : Nat
  region : Memory LmbProperty

/- `struct lmb`. -/
structure Lmb where
  memory : LmbRegion
  reserved : LmbRegion

namespace LmbRegion

/- Store a region at an index. -/
def set (rgn : LmbRegion) (i : Nat)
    (r : LmbProperty) : LmbRegion :=
  { rgn with region := Function.update rgn.region i r }

/-
  The index at which a loop over the regions breaks, which
  is `cnt` when it runs to its end.
-/
def scan (rgn : LmbRegion)
    (stop : LmbProperty → Bool) : Nat :=
  ((List.range rgn.cnt).find? fun i => stop (rgn.region i)).getD rgn.cnt

end LmbRegion

/- `lmb_addrs_adjacent`. -/
def lmbAddrsAdjacent (w : Widths)
    (base1 size1 base2 size2 : Nat) : Int :=
  if base2 = w.add base1 size1 then 1
  else if base1 = w.add base2 size2 then -1
  else 0

/- `lmb_regions_adjacent`. -/
def lmbRegionsAdjacent (w : Widths) (rgn : LmbRegion)
    (r1 r2 : Nat) : Int :=
  lmbAddrsAdjacent w (rgn.region r1).base (rgn.region r1).size (rgn.region r2).base
    (rgn.region r2).size

----
-- Changing A Table
----

/-
  `lmb_remove_region`.  The loop reads the regions up to
  index `cnt - 1`, which must be in the array.
-/
def lmbRemoveRegion (w : Widths) (rgn : LmbRegion)
    (r : Nat) : Option LmbRegion :=
  let last := w.pred rgn.cnt
  if r < last ∧ maxLmbRegions < last then
    none
  else
    some
      { rgn with
        cnt := last
        region := rgn.region.copyForward r (r + 1) (last - r) }

/- `lmb_coalesce_regions`. -/
def lmbCoalesceRegions (w : Widths) (rgn : LmbRegion)
    (r1 r2 : Nat) : Option LmbRegion :=
  let r := rgn.region r1
  let size := w.add r.size (rgn.region r2).size
  lmbRemoveRegion w (rgn.set r1 ⟨r.base, size⟩) r2

/-
  The first loop of `lmb_add_region` where it breaks: the
  region at `i` takes in the range next to it.
-/
def extendRegion (w : Widths) (rgn : LmbRegion)
    (i base size : Nat) : LmbRegion :=
  let r := rgn.region i
  if 0 < lmbAddrsAdjacent w base size r.base r.size then
    rgn.set i ⟨w.sub r.base size, w.add r.size size⟩
  else
    rgn.set i ⟨r.base, w.add r.size size⟩

/-
  The loop that moves regions up, with the number of regions
  left below; the new region goes above the first one that
  does not lie above it.
-/
def moveUp (new : LmbProperty) :
    Nat → Memory LmbProperty → Memory LmbProperty
  | 0, region => region
  | i + 1, region =>
    if new.base < (region i).base then
      moveUp new i (Function.update region (i + 1) (region i))
    else
      Function.update region (i + 1) new

/- The sorted insertion that ends `lmb_add_region`. -/
def insertRegion (w : Widths) (rgn : LmbRegion)
    (base size : Nat) : LmbRegion :=
  let region := moveUp ⟨base, size⟩ rgn.cnt rgn.region
  { rgn with
    cnt := (rgn.cnt + 1) % 2 ^ w.long
    region :=
      if base < (region 0).base then
        Function.update region 0 ⟨base, size⟩
      else
        region }

/- Where the first loop of `lmb_add_region` breaks. -/
def meets (w : Widths) (base size : Nat)
    (r : LmbProperty) : Bool :=
  r = ⟨base, size⟩ ∨ lmbAddrsAdjacent w base size r.base r.size ≠ 0

/- `lmb_add_region`: the table and the value returned. -/
def lmbAddRegion (w : Widths) (rgn : LmbRegion)
    (base size : Nat) : Option (LmbRegion × Int) :=
  if rgn.cnt = 1 ∧ (rgn.region 0).size = 0 then
    some (rgn.set 0 ⟨base, size⟩, 0)
  else
    let i := rgn.scan (meets w base size)
    if i < rgn.cnt ∧ rgn.region i = ⟨base, size⟩ then
      some (rgn, 0)
    else
      let coalesced : Int := if i < rgn.cnt then 1 else 0
      let rgn :=
        if i < rgn.cnt then extendRegion w rgn i base size
        else rgn
      -- `cnt - 1` is the largest number when `cnt` is zero
      if i < w.pred rgn.cnt ∧ lmbRegionsAdjacent w rgn i (i + 1) ≠ 0 then
        (lmbCoalesceRegions w rgn i (i + 1)).map fun rgn => (rgn, coalesced + 1)
      else if coalesced ≠ 0 then
        some (rgn, coalesced)
      else if maxLmbRegions ≤ rgn.cnt then
        some (rgn, -1)
      else
        some (insertRegion w rgn base size, 0)

----
-- The Interface
----

/- `lmb_init`: in each table one region without a size. -/
def lmbInit (lmb : Lmb) : Lmb :=
  let clear (rgn : LmbRegion) : LmbRegion := { rgn.set 0 ⟨0, 0⟩ with cnt := 1, size := 0 }
  ⟨clear lmb.memory, clear lmb.reserved⟩

/- `lmb_reserve`. -/
def lmbReserve (w : Widths) (lmb : Lmb)
    (base size : Nat) : Option (Lmb × Int) :=
  (lmbAddRegion w lmb.reserved base size).map fun (rgn, ret) => ({ lmb with reserved := rgn }, ret)

/- The region that `lmb_free` finds. -/
def encloses (w : Widths) (base stop : Nat)
    (r : LmbProperty) : Bool :=
  r.base ≤ base ∧ stop ≤ w.add r.base r.size

/- `lmb_free`. -/
def lmbFree (w : Widths) (lmb : Lmb)
    (base size : Nat) : Option (Lmb × Int) :=
  let rgn := lmb.reserved
  let stop := w.add base size
  let i := rgn.scan (encloses w base stop)
  let r := rgn.region i
  let rgnend := w.add r.base r.size
  let result : Option (LmbRegion × Int) :=
    if i = rgn.cnt then
      some (rgn, -1)
    else if r.base = base ∧ rgnend = stop then
      (lmbRemoveRegion w rgn i).map fun rgn => (rgn, 0)
    else if r.base = base then
      some (rgn.set i ⟨stop, w.sub r.size size⟩, 0)
    else if rgnend = stop then
      some (rgn.set i ⟨r.base, w.sub r.size size⟩, 0)
    else
      lmbAddRegion w (rgn.set i ⟨r.base, w.sub base r.base⟩)
        stop (w.sub rgnend stop)
  result.map fun (rgn, ret) => ({ lmb with reserved := rgn }, ret)

/- `lmb_is_reserved`. -/
def lmbIsReserved (w : Widths) (lmb : Lmb)
    (addr : Nat) : Bool :=
  let rgn := lmb.reserved
  rgn.scan (fun r => r.base ≤ addr ∧ addr ≤ w.sub (w.add r.base r.size) 1) < rgn.cnt

end Uboot
