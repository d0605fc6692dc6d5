import BootFirmware.Uboot.Env.Model

/-
  The hash table where copies of strings may not be
  allocated.

  An entry whose copy failed stays in the table with NULL in
  its place.  A search that compares its key with NULL has no
  result.

  Key definitions include:
    * `Cell` and `Table`
    * `Outcome`
    * `hsearchR` and `hdeleteR`

  The main result is `hsearchR_ofData`.
-/

----
-- The Table
----

namespace Uboot.Env.Alloc

open Function

/- An `ENTRY` of the table, whose strings may be NULL. -/
structure Copied where
  key : Option CString
  data : Option CString
deriving DecidableEq, Repr

/- An `_ENTRY`, by its field `used` as in `Slot`. -/
inductive Cell where
  | free
  | deleted
  | live (used : Nat) (entry : Copied)
deriving DecidableEq, Repr

structure Table where
  table : Nat → Cell
  size : Nat
  filled : Nat

/-
  What a call meets: whether the copies of the key and of the
  data are allocated, and whether `change_ok` and the entry's
  callback refuse the change.
-/
structure Outcome where
  strdupKey : Bool
  strdupData : Bool
  changeOk : Bool
  callback : Bool
deriving DecidableEq, Repr

def strdup (allocated : Bool) (s : CString) : Option CString :=
  if allocated then some s else none

def Table.set (t : Table) (idx : Nat) (cell : Cell) :
    Table :=
  { t with table := update t.table idx cell }

section

variable (t : Table)

@[simp]
theorem set_size (idx : Nat) (cell : Cell) :
    (t.set idx cell).size = t.size :=
  rfl

@[simp]
theorem set_self (idx : Nat) (cell : Cell) :
    (t.set idx cell).table idx = cell := by
  exact update_self ..

theorem set_of_ne (cell : Cell) {i idx : Nat} (hNe : i ≠ idx) :
    (t.set idx cell).table i = t.table i := by
  exact update_of_ne hNe ..

end

----
-- hsearch_r
----

/-
  The test of `_compare_and_overwrite_entry`, which passes a
  NULL key to `strcmp` if the hash values are equal.
-/
def Cell.hasKey (cell : Cell) (hval : Nat) (key : CString) :
    Option Bool :=
  match cell with
  | .live used entry =>
    if used = hval then entry.key.map fun k => key == k
    else some false
  | _ => some false

def probeLoop (t : Table) (key : CString) (hval hval2 : Nat) :
    Nat → Nat → Option Probe
  | 0, _ => none
  | fuel + 1, idx =>
    let idx := nextIdx t.size hval2 idx
    if idx = hval then
      some (.empty idx)
    else if t.size < idx then
      none
    else
      match (t.table idx).hasKey hval key with
      | none => none
      | some true => some (.found idx)
      | some false =>
        if t.table idx = .free then
          some (.empty idx)
        else
          probeLoop t key hval hval2 fuel idx

/- The part of `hsearch_r` that looks for the key. -/
def probe (signed : Bool) (key : CString) (t : Table) :
    Option Probe :=
  let hval := firstIdx signed key t.size
  if t.size = 0 then
    none
  else if t.table hval = .free then
    some (.empty hval)
  else
    match (t.table hval).hasKey hval key with
    | none => none
    | some true => some (.found hval)
    | some false =>
      if t.size = 2 then
        none
      else
        probeLoop t key hval (secondHash hval t.size) (t.size + 1) hval

/- A return value, with the index of the entry `*retval`. -/
structure Searched where
  ret : Int
  retval : Option Nat
  htab : Table

/- The body of `_compare_and_overwrite_entry`. -/
def overwriteEntry (item : Item) (action : Action) (t : Table) (outcome : Outcome) (idx : Nat) :
    Searched :=
  match t.table idx, action, item.data with
  | .live used entry, .enter, some data =>
    if outcome.changeOk then
      ⟨0, none, t⟩
    else if outcome.callback then
      ⟨0, none, t⟩
    else
      let copy := strdup outcome.strdupData data
      let t := t.set idx (.live used { entry with data := copy })
      if copy = none then
        ⟨0, none, t⟩
      else
        ⟨toInt idx, some idx, t⟩
  | _, _, _ => ⟨toInt idx, some idx, t⟩

/- The function `_hdelete`. -/
def Table.hdelete (t : Table) (idx : Nat) : Table :=
  { t.set idx .deleted with
    filled := u32 (t.filled + 2 ^ 32 - 1) }

def createEntry (item : Item) (t : Table) (outcome : Outcome) (hval idx : Nat) :
    Option Searched :=
  match item.data with
  | none => none
  | some data =>
    let entry : Copied := ⟨strdup outcome.strdupKey item.key, strdup outcome.strdupData data⟩
    let t := t.set idx (.live hval entry)
    if entry.key = none ∨ entry.data = none then
      some ⟨0, none, t⟩
    else
      let t := { t with filled := u32 (t.filled + 1) }
      if outcome.changeOk then
        some ⟨0, none, t.hdelete idx⟩
      else if outcome.callback then
        some ⟨0, none, t.hdelete idx⟩
      else
        some ⟨1, some idx, t⟩

/- The slot that a new entry takes. -/
def Table.takes (t : Table) (hval idx : Nat) :
    Nat :=
  if t.table hval = .deleted then hval else idx

def hsearchR (signed : Bool) (item : Item) (action : Action) (t : Table) (outcome : Outcome) :
    Option Searched :=
  match probe signed item.key t with
  | none => none
  | some (.found idx) => some (overwriteEntry item action t outcome idx)
  | some (.empty idx) =>
    match action with
    | .find => some ⟨0, none, t⟩
    | .enter =>
      if t.filled = t.size then
        some ⟨0, none, t⟩
      else
        let hval := firstIdx signed item.key t.size
        createEntry item t outcome hval (t.takes hval idx)

----
-- hdelete_r
----

def hdeleteR (signed : Bool) (key : CString) (t : Table) (outcome : Outcome) :
    Option (Int × Table) :=
  match hsearchR signed ⟨key, none⟩ .find t outcome with
  | none => none
  | some ⟨idx, retval, t⟩ =>
    if idx = 0 then
      some (0, t)
    else
      match retval.map t.table with
      | some (.live _ _) =>
        if outcome.changeOk then
          some (0, t)
        else if idx < 0 then
          none
        else if outcome.callback then
          some (0, t)
        else
          some (1, t.hdelete idx.toNat)
      | _ => none

----
-- Tables Without NULL
----

def Cell.ofSlot : Slot → Cell
  | .free => .free
  | .deleted => .deleted
  | .live used entry => .live used ⟨some entry.key, some entry.data⟩

/- The table in which all copies were allocated. -/
def Table.ofData (htab : HsearchData) : Table where
  table i := .ofSlot (htab.table i)
  size := htab.size
  filled := htab.filled

theorem ofSlot_eq_free_iff {slot : Slot} :
    Cell.ofSlot slot = .free ↔ slot = .free := by
  cases slot with
  | free => exact Iff.intro (fun _ => rfl) (fun _ => rfl)
  | deleted => exact Iff.intro nofun nofun
  | live used entry => exact Iff.intro nofun nofun

theorem ofSlot_eq_deleted_iff {slot : Slot} :
    Cell.ofSlot slot = .deleted ↔ slot = .deleted := by
  cases slot with
  | free => exact Iff.intro nofun nofun
  | deleted => exact Iff.intro (fun _ => rfl) (fun _ => rfl)
  | live used entry => exact Iff.intro nofun nofun

theorem hasKey_ofSlot (slot : Slot) (hval : Nat) (key : CString) :
    (Cell.ofSlot slot).hasKey hval key = some (slot.hasKey hval key) := by
  cases slot with
  | free => rfl
  | deleted => rfl
  | live used entry =>
    unfold Cell.ofSlot Cell.hasKey Slot.hasKey
    by_cases hUsed : used = hval
    · simp [hUsed]
    · simp [hUsed]

section

variable (htab : HsearchData)

theorem ofData_set (idx : Nat) (slot : Slot) :
    Table.ofData (htab.set idx slot) = (Table.ofData htab).set idx (.ofSlot slot) := by
  unfold Table.ofData HsearchData.set Table.set
  congr 1
  funext i
  dsimp only
  by_cases hi : i = idx
  · rw [hi, update_self, update_self]
  · rw [update_of_ne hi, update_of_ne hi]

theorem ofData_hdelete (idx : Nat) :
    Table.ofData (htab.hdelete idx) = (Table.ofData htab).hdelete idx := by
  have hSet := ofData_set htab idx .deleted
  unfold HsearchData.hdelete Table.hdelete
  rw [← show Cell.ofSlot .deleted = .deleted from rfl, ← hSet]
  rfl

theorem probeLoop_ofData (key : CString) (hval hval2 fuel idx : Nat) :
    probeLoop (.ofData htab) key hval hval2 fuel idx =
      Env.probeLoop htab key hval hval2 fuel idx := by
  induction fuel generalizing idx with
  | zero => rfl
  | succ fuel ih =>
    unfold probeLoop Env.probeLoop
    dsimp only [Table.ofData]
    rw [hasKey_ofSlot]
    simp only [ofSlot_eq_free_iff]
    cases Slot.hasKey (htab.table (nextIdx htab.size hval2 idx)) hval key with
    | true => rfl
    | false =>
      rw [if_neg Bool.false_ne_true, ← ih (nextIdx htab.size hval2 idx)]
      rfl

end

theorem probe_ofData (signed : Bool) (key : CString) (htab : HsearchData) :
    probe signed key (.ofData htab) = Env.probe signed key htab := by
  unfold probe Env.probe
  simp only [probeLoop_ofData]
  dsimp only [Table.ofData]
  rw [hasKey_ofSlot]
  simp only [ofSlot_eq_free_iff]
  cases Slot.hasKey (htab.table (firstIdx signed key htab.size))
      (firstIdx signed key htab.size) key with
  | true => rfl
  | false => rfl

def Searched.ofData (r : Env.Searched) : Searched where
  ret := r.ret
  retval := r.retval
  htab := .ofData r.htab

/- The outcome of hooks where all copies are allocated. -/
def Hooks.outcome (hooks : Hooks) (entry : Entry) (item : Item) (op : EnvOp) (flag : Nat) :
    Outcome where
  strdupKey := true
  strdupData := true
  changeOk := hooks.changeOk entry item.data op flag
  callback := hooks.callback item.key item.data op flag

theorem overwriteEntry_ofData
    (hooks : Hooks) (item : Item) (action : Action) (htab : HsearchData) (flag idx : Nat) :
    ∃ outcome, outcome.strdupKey = true ∧ outcome.strdupData = true ∧
      overwriteEntry item action (.ofData htab) outcome idx =
        .ofData (Env.overwriteEntry hooks item action htab flag idx) := by
  cases hSlot : htab.table idx with
  | free =>
    refine ⟨⟨true, true, true, true⟩, rfl, rfl, ?_⟩
    unfold overwriteEntry Env.overwriteEntry
    simp only [Table.ofData, hSlot, Cell.ofSlot]
    rfl
  | deleted =>
    refine ⟨⟨true, true, true, true⟩, rfl, rfl, ?_⟩
    unfold overwriteEntry Env.overwriteEntry
    simp only [Table.ofData, hSlot, Cell.ofSlot]
    rfl
  | live used entry =>
    refine ⟨Hooks.outcome hooks entry item .overwrite flag, rfl, rfl, ?_⟩
    have hCell : (Table.ofData htab).table idx = .live used ⟨some entry.key, some entry.data⟩ := by
      unfold Table.ofData
      dsimp only
      rw [hSlot]
      rfl
    unfold overwriteEntry Env.overwriteEntry Hooks.outcome
    rw [hCell, hSlot]
    cases action with
    | find => rfl
    | enter =>
      cases hData : item.data with
      | none => rfl
      | some data =>
        dsimp only
        split
        · rfl
        split
        · rfl
        · unfold strdup Searched.ofData
          rw [if_pos rfl, if_neg (Option.some_ne_none _), ofData_set]
          rfl

/- A new entry whose slot a table has. -/
theorem createEntry_ofData
    (hooks : Hooks) (item : Item) (htab : HsearchData) (flag hval idx : Nat) :
    ∃ outcome, outcome.strdupKey = true ∧ outcome.strdupData = true ∧
      createEntry item (.ofData htab) outcome hval idx =
        (Env.createEntry hooks item htab flag hval idx).map
          .ofData := by
  cases hData : item.data with
  | none =>
    refine ⟨⟨true, true, true, true⟩, rfl, rfl, ?_⟩
    unfold createEntry Env.createEntry
    rw [hData]
    rfl
  | some data =>
    refine ⟨Hooks.outcome hooks ⟨item.key, data⟩ item .create flag, rfl, rfl, ?_⟩
    unfold createEntry Env.createEntry Hooks.outcome strdup
    rw [hData]
    dsimp only
    rw [if_pos rfl, if_pos rfl, if_neg (by simp)]
    have hPut :=
      congrArg
        (fun t : Table => { t with filled := u32 (htab.filled + 1) })
        (ofData_set htab idx (.live hval ⟨item.key, data⟩))
    have hDelete :=
      (ofData_hdelete
        { htab.set idx (.live hval ⟨item.key, data⟩) with
          filled := u32 (htab.filled + 1) } idx).trans
      (congrArg (fun t : Table => t.hdelete idx) hPut)
    split
    · exact congrArg (fun t => some (Searched.mk 0 none t)) hDelete.symm
    split
    · exact congrArg (fun t => some (Searched.mk 0 none t)) hDelete.symm
    · exact congrArg (fun t => some (Searched.mk 1 (some idx) t)) hPut.symm

/-
  Where all copies are allocated the search is the one of
  tables without NULL.
-/
theorem hsearchR_ofData (signed : Bool) (hooks : Hooks) (item : Item) (action : Action)
    (htab : HsearchData) (flag : Nat) :
    ∃ outcome, outcome.strdupKey = true ∧ outcome.strdupData = true ∧
      hsearchR signed item action (.ofData htab) outcome =
        (Env.hsearchR signed hooks item action htab flag).map
          .ofData := by
  unfold hsearchR Env.hsearchR
  rw [probe_ofData]
  cases hProbe : Env.probe signed item.key htab with
  | none => exact ⟨⟨true, true, true, true⟩, rfl, rfl, rfl⟩
  | some result =>
    cases result with
    | found idx =>
      rcases overwriteEntry_ofData hooks item action htab flag idx with ⟨outcome, hKey, hData, hRun⟩
      exact ⟨outcome, hKey, hData, congrArg some hRun⟩
    | empty idx =>
      cases action with
      | find => exact ⟨⟨true, true, true, true⟩, rfl, rfl, rfl⟩
      | enter =>
        rcases createEntry_ofData hooks item htab flag (firstIdx signed item.key htab.size)
          (if htab.table (firstIdx signed item.key htab.size) = .deleted then
            firstIdx signed item.key htab.size
          else idx) with ⟨outcome, hKey, hData, hRun⟩
        refine ⟨outcome, hKey, hData, ?_⟩
        dsimp only
        by_cases hFull : htab.filled = htab.size
        · rw [if_pos hFull]
          exact if_pos hFull
        · rw [if_neg hFull, ← hRun]
          refine (if_neg hFull).trans ?_
          unfold Table.takes
          dsimp only [Table.ofData]
          simp only [ofSlot_eq_deleted_iff]

end Uboot.Env.Alloc
