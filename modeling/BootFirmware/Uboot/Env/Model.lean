import BootFirmware.Uboot.CTypes
import Mathlib.Logic.Function.Basic

/-
  The hash table of the environment variables.

  A call that reads outside the table, copies a NULL string
  or divides by zero has no result.  Copies of strings and
  the table itself can always be allocated.

  Key definitions include:
    * `Slot` and `HsearchData`
    * `isprime` and `hcreateR`
    * `hsearchR`
    * `hdeleteR`
-/

----
-- The Table
----

namespace Uboot.Env

/- An `ENTRY` of the table. -/
structure Entry where
  key : CString
  data : CString
deriving DecidableEq, Repr

/-
  An `_ENTRY`, by its field `used`: 0, -1 or the hash value
  of the key in it, which is neither.
-/
inductive Slot where
  | free
  | deleted
  | live (used : Nat) (entry : Entry)
deriving DecidableEq, Repr

/- The table has `size + 1` slots, and slot 0 is not used. -/
structure HsearchData where
  table : Nat → Slot
  size : Nat
  filled : Nat

/- The argument of a search, whose `data` may be NULL. -/
structure Item where
  key : CString
  data : Option CString
deriving DecidableEq, Repr

inductive Action where
  | find
  | enter
deriving DecidableEq, Repr

inductive EnvOp where
  | create
  | delete
  | overwrite
deriving DecidableEq, Repr

/-
  The function `change_ok` of the table and the callbacks of
  the variables, and whether they refuse a change.
-/
structure Hooks where
  changeOk : Entry → Option CString → EnvOp → Nat → Bool
  callback : CString → Option CString → EnvOp → Nat → Bool

/- Hooks that refuse no change. -/
def Hooks.Accepting (hooks : Hooks) : Prop :=
  (∀ entry newval op flag, hooks.changeOk entry newval op flag = false) ∧
  ∀ key newval op flag, hooks.callback key newval op flag = false

/- The entry at an index. -/
def HsearchData.entryAt (htab : HsearchData) (idx : Nat) :
    Option Entry :=
  match htab.table idx with
  | .live _ entry => some entry
  | _ => none

def HsearchData.set (htab : HsearchData) (idx : Nat) (slot : Slot) :
    HsearchData :=
  { htab with table := Function.update htab.table idx slot }

section

variable (htab : HsearchData)

@[simp]
theorem set_size (idx : Nat) (slot : Slot) :
    (htab.set idx slot).size = htab.size :=
  rfl

@[simp]
theorem set_self (idx : Nat) (slot : Slot) :
    (htab.set idx slot).table idx = slot := by
  exact Function.update_self ..

theorem set_of_ne (slot : Slot) {i idx : Nat} (hNe : i ≠ idx) :
    (htab.set idx slot).table i = htab.table i := by
  exact Function.update_of_ne hNe ..

end

----
-- hcreate_r
----

def isprimeLoop (number : Nat) : Nat → Nat → Option Nat
  | 0, _ => none
  | fuel + 1, div =>
    if u32 (div * div) < number ∧ number % div ≠ 0 then
      isprimeLoop number fuel (u32 (div + 2))
    else
      some div

/- No even number will be passed. -/
def isprime (number : Nat) : Option Bool :=
  (isprimeLoop number (number + 1) 3).map fun div => decide (number % div ≠ 0)

/-
  A `size_t` is at least as wide as an `unsigned int`, and
  only these bits of `nel` are read.
-/
def hcreateLoop : Nat → Nat → Option Nat
  | 0, _ => none
  | fuel + 1, nel =>
    match isprime (u32 nel) with
    | none => none
    | some true => some nel
    | some false => hcreateLoop fuel (nel + 2)

def hcreateR (nel : Nat) : Option HsearchData :=
  (hcreateLoop (2 ^ 32) (nel ||| 1)).map fun nel =>
    { table := fun _ => .free
      size := u32 nel
      filled := 0 }

----
-- hsearch_r
----

/- The loop over the first `count` bytes, from the last one. -/
def hashLoop (signed : Bool) (key : CString) :
    Nat → Nat → Nat
  | 0, hval => hval
  | count + 1, hval =>
    let c := charValue signed (key.bytes.getD count 0)
    hashLoop signed key count ((((hval * 16 : Nat) : Int) + c) % 2 ^ 32).toNat

/- The first index to try. -/
def firstIdx (signed : Bool) (key : CString) (size : Nat) :
    Nat :=
  let len := u32 key.bytes.length
  let hval := hashLoop signed key len len % size
  if hval = 0 then 1 else hval

def secondHash (hval size : Nat) : Nat :=
  u32 (1 + hval % u32 (size + 2 ^ 32 - 2))

def nextIdx (size hval2 idx : Nat) : Nat :=
  if idx ≤ hval2 then u32 (size + idx + 2 ^ 32 - hval2)
  else idx - hval2

/- The test of `_compare_and_overwrite_entry`. -/
def Slot.hasKey (slot : Slot) (hval : Nat) (key : CString) :
    Bool :=
  match slot with
  | .live used entry => used == hval && key == entry.key
  | _ => false

inductive Probe where
  | found (idx : Nat)
  | empty (idx : Nat)
deriving DecidableEq, Repr

def probeLoop (htab : HsearchData) (key : CString) (hval hval2 : Nat) :
    Nat → Nat → Option Probe
  | 0, _ => none
  | fuel + 1, idx =>
    let idx := nextIdx htab.size hval2 idx
    if idx = hval then
      some (.empty idx)
    else if htab.size < idx then
      none
    else if (htab.table idx).hasKey hval key then
      some (.found idx)
    else if htab.table idx = .free then
      some (.empty idx)
    else
      probeLoop htab key hval hval2 fuel idx

/- The part of `hsearch_r` that looks for the key. -/
def probe (signed : Bool) (key : CString) (htab : HsearchData) :
    Option Probe :=
  let hval := firstIdx signed key htab.size
  if htab.size = 0 then
    none
  else if htab.table hval = .free then
    some (.empty hval)
  else if (htab.table hval).hasKey hval key then
    some (.found hval)
  else if htab.size = 2 then
    none
  else
    probeLoop htab key hval (secondHash hval htab.size) (htab.size + 1) hval

/- A return value, with the index of the entry `*retval`. -/
structure Searched where
  ret : Int
  retval : Option Nat
  htab : HsearchData

/- The body of `_compare_and_overwrite_entry`. -/
def overwriteEntry
    (hooks : Hooks) (item : Item) (action : Action) (htab : HsearchData) (flag idx : Nat) :
    Searched :=
  match htab.table idx, action, item.data with
  | .live used entry, .enter, some data =>
    if hooks.changeOk entry (some data) .overwrite flag then
      ⟨0, none, htab⟩
    else if hooks.callback item.key (some data) .overwrite flag then
      ⟨0, none, htab⟩
    else
      ⟨toInt idx, some idx, htab.set idx (.live used { entry with data })⟩
  | _, _, _ => ⟨toInt idx, some idx, htab⟩

/- The function `_hdelete`. -/
def HsearchData.hdelete (htab : HsearchData) (idx : Nat) :
    HsearchData :=
  { htab.set idx .deleted with
    filled := u32 (htab.filled + 2 ^ 32 - 1) }

def createEntry (hooks : Hooks) (item : Item) (htab : HsearchData) (flag hval idx : Nat) :
    Option Searched :=
  match item.data with
  | none => none
  | some data =>
    let entry : Entry := ⟨item.key, data⟩
    let htab' :=
      { htab.set idx (.live hval entry) with
        filled := u32 (htab.filled + 1) }
    if hooks.changeOk entry (some data) .create flag then
      some ⟨0, none, htab'.hdelete idx⟩
    else if hooks.callback item.key (some data) .create flag then
      some ⟨0, none, htab'.hdelete idx⟩
    else
      some ⟨1, some idx, htab'⟩

def hsearchR (signed : Bool) (hooks : Hooks) (item : Item) (action : Action)
    (htab : HsearchData) (flag : Nat) :
    Option Searched :=
  match probe signed item.key htab with
  | none => none
  | some (.found idx) => some (overwriteEntry hooks item action htab flag idx)
  | some (.empty idx) =>
    match action with
    | .find => some ⟨0, none, htab⟩
    | .enter =>
      if htab.filled = htab.size then
        some ⟨0, none, htab⟩
      else
        -- Only the first slot tried is remembered as the
        -- first deleted one.
        let hval := firstIdx signed item.key htab.size
        createEntry hooks item htab flag hval
          (if htab.table hval = .deleted then hval
            else idx)

----
-- hdelete_r
----

def hdeleteR (signed : Bool) (hooks : Hooks) (key : CString) (htab : HsearchData) (flag : Nat) :
    Option (Int × HsearchData) :=
  match hsearchR signed hooks ⟨key, none⟩ .find htab 0 with
  | none => none
  | some ⟨idx, retval, htab⟩ =>
    if idx = 0 then
      some (0, htab)
    else
      match retval.map htab.table with
      | some (.live _ entry) =>
        if hooks.changeOk entry none .delete flag then
          some (0, htab)
        else if idx < 0 then
          none
        else if hooks.callback key none .delete flag then
          some (0, htab)
        else
          some (1, htab.hdelete idx.toNat)
      | _ => none

end Uboot.Env
