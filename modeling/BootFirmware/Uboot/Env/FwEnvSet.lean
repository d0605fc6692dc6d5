import BootFirmware.Uboot.Env.FwEnv

/-
  One variable set by `fw_env_set`.

  `fw_env_write` updates one variable of a list in place, or
  refuses.  What it answers is not looked at before the data
  are flushed.

  Key definitions include:
    * `fwEnvSet`
    * `Updated` and `HasValue`

  The main result is `fw_env_set_updates`.
-/

namespace Uboot.Env

open List

----
-- The Code
----

/- The arguments in one string, with blanks between them. -/
def joined : List CString → List UInt8
  | [] => []
  | value :: values => value.bytes ++ values.flatMap fun v => 32 :: v.bytes

def joinedString (values : List CString) : CString where
  bytes := joined values
  no_nul := by
    cases values with
    | nil => exact not_mem_nil
    | cons value values =>
      intro hNul
      rcases mem_append.mp hNul with hHere | hRest
      · exact value.no_nul hHere
      · rcases mem_flatMap.mp hRest with ⟨v, -, hIn⟩
        exact v.no_nul ((mem_cons.mp hIn).resolve_left (by decide))

/-
  What the calls around `fw_env_write` answer: the data that
  `fw_env_open` reads, whether the parameters are valid, all
  `realloc` succeed, and the data are written.
-/
structure Around where
  opened : Option (List UInt8)
  valid : Bool
  allocated : Bool
  flushed : Bool

/- `fw_env_set`: the answer, and the data that are flushed. -/
def fwEnvSet (denied : Denied) (around : Around) :
    List CString → Option (Int × Option (List UInt8))
  | [] => some (-1, none)
  | name :: values =>
    match around.opened with
    | none => some (-1, none)
    | some data =>
      if around.valid = false then some (-1, none)
      else if values ≠ [] ∧ around.allocated = false then some (-1, none)
      else
        let value := if values = [] then none else some (joined values)
        (fwEnvWrite denied name.bytes value data).map fun r =>
          if around.flushed then (0, some r.2) else (-1, none)

/- NULL is the empty value. -/
theorem fwEnvWrite_getD (denied : Denied) (name data : List UInt8) (value : Option (List UInt8)) :
    fwEnvWrite denied name value data = fwEnvWrite denied name (some (value.getD [])) data :=
  rfl

----
-- Updates
----

/- Every other variable keeps its value, in data of the same size. -/
structure Updated
    (name : CString) (data : List UInt8) (list : List Entry)
    (data' : List UInt8) : Prop where
  size : data'.length = data.length
  others : ∃ list', Listed data' list' ∧ ∀ key, key ≠ name → varsOf list' key = varsOf list key

/- The variable is what was asked for; an empty text deletes it. -/
def HasValue (name text data : List UInt8) : Prop :=
  fwGetenv name data = some (if text = [] then none else some text)

/- The change is made, or nothing was to change. -/
def Goes (denied : Denied) (name text : CString) (data : List UInt8)
    (list : List Entry) : Prop :=
  if refused denied name text data list then
    text.bytes ≠ [] ∧ varsOf list name = some text
  else text.bytes = [] ∨ fits data.length name.bytes text.bytes (others list name)

section

variable {name text key : CString} {data : List UInt8} {list : List Entry}

theorem varsOf_others :
    varsOf (others list name) key = if key = name then none else varsOf list key := by
  unfold varsOf others
  rw [find?_filter]
  split_ifs with hKey
  · subst hKey
    rw [find?_eq_none.mpr (by simp)]
    rfl
  · congr 2
    funext e
    by_cases hName : e.key = name
    · simp [hName, Ne.symm hKey]
    · simp [hName]

theorem varsOf_append (value : CString) :
    varsOf (others list name ++ [⟨name, value⟩]) key =
      if key = name then some value else varsOf list key := by
  have hOthers : varsOf (others list name) key = _ := varsOf_others
  unfold varsOf at hOthers ⊢
  rw [find?_append, Option.map_or, hOthers]
  split_ifs with hKey
  · simp [hKey]
  · simp [Ne.symm hKey]

variable (hName : 61 ∉ name.bytes)
include hName

theorem notEquals_name : ∀ c ∈ name.bytes, notEquals c = true :=
  fun _ hc => bne_iff_ne.mpr fun h => hName (h ▸ hc)

theorem callKey_self : callKey name = name :=
  bytes_inj (takeWhile_eq_self_iff.mpr (notEquals_name hName))

theorem callData_self : callData name text = text := by
  have hDrop : (name.bytes ++ 61 :: text.bytes).dropWhile notEquals = 61 :: text.bytes := by
    rw [dropWhile_append_of_pos (notEquals_name hName)]
    rfl
  exact bytes_inj (congrArg List.tail hDrop)

/- A call updates the list, and answers 0 only for the new value. -/
theorem Listed.fwEnvWrite_updates (hListed : Listed data list) (denied : Denied) (text : CString) :
    ∃ r data', Env.fwEnvWrite denied name.bytes (some text.bytes) data = some (r, data') ∧
      Updated name data list data' ∧
      (HasValue name.bytes text.bytes data' ↔ Goes denied name text data list) ∧
      (r = 0 → Goes denied name text data list) := by
  rcases hListed.fwEnvWrite denied name text with ⟨data', hRun, hAfter, hSize⟩
  have hKey := callKey_self hName
  have hGet := hAfter.fwGetenv_eq name
  refine ⟨_, data', hRun, ⟨hSize, _, hAfter, ?_⟩, ?_, ?_⟩
  · intro key hNe
    unfold writeVars appendVar
    rw [hKey, callData_self hName]
    dsimp only
    split_ifs <;> simp [varsOf_others, varsOf_append, hNe]
  · unfold HasValue Goes
    rw [hGet, hKey]
    unfold writeVars appendVar
    rw [hKey, callData_self hName]
    dsimp only
    split_ifs with hRefused hNil hNil hFits
    -- a variable that is not there is not deleted
    · have hThere : varsOf list name ≠ none := by
        intro hNone
        simp [refused, hKey, hNone, changeOf, hNil] at hRefused
      simp [hNil, hThere]
    · simp only [hNil, not_false_eq_true, true_and, ne_eq, Option.some.injEq,
        Option.map_eq_some_iff]
      constructor
      · rintro ⟨value, hVar, hBytes⟩
        exact bytes_inj hBytes ▸ hVar
      · exact fun h => ⟨text, h, rfl⟩
    · simp [varsOf_others, hNil]
    · simp [varsOf_append, hFits]
    · simp [varsOf_others, hNil, hFits]
  · unfold writeVars appendVar Goes
    rw [hKey]
    dsimp only
    split_ifs with hRefused hNil hFits
    · intro hZero
      cases hZero
    · exact fun _ => Or.inl hNil
    · exact fun _ => Or.inr hFits
    · intro hZero
      cases hZero

end

----
-- What Is Flushed
----

/- An answer 0 is for data with the new value. -/
def SetsOrFails
    (denied : Denied) (around : Around) (name : CString) (values : List CString) (data : List UInt8)
    (list : List Entry) : Prop :=
  ∃ ret flushed, fwEnvSet denied around (name :: values) = some (ret, flushed) ∧
    (ret = 0 → ∃ data', flushed = some data' ∧ Updated name data list data' ∧
      HasValue name.bytes (joined values) data')

/- And so is one of `fw_env_write`, for a value or NULL. -/
def Writes (denied : Denied) (name : CString) (data : List UInt8)
    (list : List Entry) : Prop :=
  ∀ value : Option CString, ∃ r data',
    fwEnvWrite denied name.bytes (value.map CString.bytes) data = some (r, data') ∧
      Updated name data list data' ∧
      (r = 0 → HasValue name.bytes ((value.map CString.bytes).getD []) data')

theorem fw_env_set_updates
    (denied : Denied) (around : Around) (name : CString) (values : List CString)
    {data : List UInt8} {list : List Entry}
    (hOpened : around.opened = some data) (hListed : Listed data list) (hName : 61 ∉ name.bytes) :
    Writes denied name data list ∧ SetsOrFails denied around name values data list ↔
      around.valid = false ∨ (values ≠ [] ∧ around.allocated = false) ∨
        around.flushed = false ∨ Goes denied name (joinedString values) data list := by
  have hWrites : Writes denied name data list := by
    intro value
    have hText : ∃ text : CString, (value.map CString.bytes).getD [] = text.bytes := by
      cases value with
      | none => exact ⟨⟨[], not_mem_nil⟩, rfl⟩
      | some text => exact ⟨text, rfl⟩
    rcases hText with ⟨text, hText⟩
    rcases hListed.fwEnvWrite_updates hName denied text with
      ⟨r, data', hRun, hUpdated, hValue, hZero⟩
    refine ⟨r, data', ?_, hUpdated, fun h => ?_⟩
    · rw [fwEnvWrite_getD, hText]
      exact hRun
    · rw [hText]
      exact hValue.mpr (hZero h)
  rw [and_iff_right hWrites]
  rcases hListed.fwEnvWrite_updates hName denied (joinedString values) with
    ⟨r, data', hRun, hUpdated, hValue, -⟩
  have hCall : fwEnvWrite denied name.bytes
      (if values = [] then none else some (joined values)) data = some (r, data') := by
    rw [fwEnvWrite_getD, ← hRun]
    cases values <;> rfl
  unfold SetsOrFails fwEnvSet
  rw [hOpened]
  dsimp only
  by_cases hValid : around.valid = false
  · rw [if_pos hValid]
    exact iff_of_true ⟨-1, none, rfl, nofun⟩ (Or.inl hValid)
  by_cases hMemory : values ≠ [] ∧ around.allocated = false
  · rw [if_neg hValid, if_pos hMemory]
    exact iff_of_true ⟨-1, none, rfl, nofun⟩ (Or.inr (Or.inl hMemory))
  rw [if_neg hValid, if_neg hMemory, hCall, or_iff_right hValid, or_iff_right hMemory]
  cases hFlushed : around.flushed with
  | false => exact iff_of_true ⟨-1, none, rfl, nofun⟩ (Or.inl rfl)
  | true =>
    rw [or_iff_right (by decide), ← hValue]
    constructor
    · rintro ⟨ret, flushed, hSet, hZero⟩
      cases hSet
      rcases hZero rfl with ⟨data'', hData, -, hHas⟩
      cases hData
      exact hHas
    · exact fun hHas => ⟨0, some data', rfl, fun _ => ⟨data', rfl, hUpdated, hHas⟩⟩

/- A value that fits replaces the old one; another is kept. -/
theorem fw_env_set_updates_two :
    let data : List UInt8 := [97, 61, 98, 0, 102, 61, 103, 0, 0, 0, 0]
    SetsOrFails (fun _ _ _ => false) ⟨some data, true, true, true⟩ varA [varC, varE] data
      [⟨varA, varB⟩, ⟨varF, varG⟩] := by
  intro data
  have hListed : Listed data [⟨varA, varB⟩, ⟨varF, varG⟩] :=
    ⟨⟨[0, 0], rfl, by decide⟩, by decide, by decide⟩
  exact ((fw_env_set_updates _ _ _ _ rfl hListed (by decide)).mpr
    (Or.inr (Or.inr (Or.inr (by unfold Goes; decide))))).2

/- One that does not deletes it, and the answer is 0. -/
theorem fw_env_set_deletes_long :
    fwEnvSet (fun _ _ _ => false) ⟨some [97, 61, 98, 0, 0, 0], true, true, true⟩
        [⟨[97], by decide⟩, ⟨[99, 99, 99], by decide⟩] =
      some (0, some [0, 0, 98, 0, 0, 0]) ∧
    fwGetenv [97] [0, 0, 98, 0, 0, 0] = some none ∧
    ¬ HasValue [97] [99, 99, 99] [0, 0, 98, 0, 0, 0] := by
  refine ⟨by decide, by decide, ?_⟩
  unfold HasValue
  decide

end Uboot.Env
