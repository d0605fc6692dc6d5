import BootFirmware.Lib.TransitionSystem
import BootFirmware.Uboot.Env.Attr
import Mathlib.Data.List.Induction

/-
  The flags and callbacks of the variables follow the lists
  that assign them, in the runs in which a new variable gets
  them from the current list and not from one that was kept,
  and the walk of a new list finds by their spelling the names
  that the look-up finds as regular expressions.

  Key definitions include:
    * `AttrList.assigned` and `State.Follows`
    * `Spelled`
    * `StepOk`

  The main results are:
    * `attributes_follow_lists`
    * `flags_lag_behind_list`
-/

----
-- What A List Assigns
----

namespace Uboot.Env.Attr

open List Option

section Assigned

variable {σ : Type} (L : AttrList σ) (cfg : Config)

/- By the list, and failing that by the static list. -/
def AttrList.assigned (attrList : Option (List UInt8)) (name : List UInt8) :
    σ :=
  let (ret, attributes) := lookupLists cfg.slre attrList L.static name
  if ret ≠ 0 ∨ attributes = [] then L.zero
  else (L.parse attributes).getD L.zero

/- Every variable has what the current list assigns to it. -/
def State.Follows (s : State) : Prop :=
  ∀ name v, s.table.lookup name = some v → L.get v = L.assigned cfg (s.value L.varName) name

----
-- Conditions On The Steps
----

/- The name of the element matches, if it compiles. -/
def matchesName (name : List UInt8) (e : Element) : Bool :=
  (cfg.slre (whole e.name)).any fun isMatch => isMatch name

def spelled (name : List UInt8) (e : Element) : Bool :=
  e.name == name

def lastOf (p : Element → Bool) (entries : List Element) :
    Option Element :=
  entries.reverse.find? p

/- The elements of the static list and of a list after it. -/
def allEntries (value : Option (List UInt8)) : List Element :=
  attrEntries L.static ++ attrEntries (value.getD [])

/- An element compiles, and has a ':' where it matches. -/
def Readable (name : List UInt8) (e : Element) : Prop :=
  (cfg.slre (whole e.name)).isSome = true ∧
    (matchesName cfg name e = true → e.attributes.isSome = true)

/- What the attributes name is known. -/
def Known (e : Element) : Prop :=
  ∀ attributes ∈ e.attributes, attributes ≠ [] → (L.parse attributes).isSome = true

/-
  The last element that matches the name is the last one that
  is spelled like it.
-/
def Spelled (value : Option (List UInt8)) (name : List UInt8) :
    Prop :=
  (∀ e ∈ allEntries L value, Readable cfg name e) ∧
    lastOf (matchesName cfg name) (allEntries L value) =
      lastOf (spelled name) (allEntries L value) ∧
    ∀ e ∈ lastOf (spelled name) (allEntries L value), Known L e

/- The walk of a new list reaches the variables it names. -/
def WalkOk (s : State) (name : List UInt8) (value : Option (List UInt8)) :
    Prop :=
  name = L.varName → ∀ n ∈ name :: s.table.keys, Spelled L cfg value n

/-
  The list that is read for a new name is the current one, and
  there is room for the attributes that it has.
-/
def ListOk (s : State) (attrList : Option (List UInt8)) (name : List UInt8) :
    Prop :=
  (name = L.varName ∨ attrList = s.value L.varName) ∧
    (lookupLists cfg.slre attrList L.static name).2.length ≤ L.bufLen

instance : Decidable (Readable cfg name e) :=
  inferInstanceAs (Decidable (_ ∧ _))

instance : Decidable (Known L e) :=
  inferInstanceAs (Decidable (∀ _ ∈ _, _))

instance : Decidable (Spelled L cfg value name) :=
  inferInstanceAs (Decidable (_ ∧ _ ∧ _))

instance : Decidable (WalkOk L cfg s name value) :=
  inferInstanceAs (Decidable (_ → _))

instance : Decidable (ListOk L cfg s attrList name) :=
  inferInstanceAs (Decidable (_ ∧ _))

end Assigned

/- The lists' own callbacks are bound to them alone. -/
def Bound (callback : Option Callback) (name : List UInt8) :
    Prop :=
  (callback = some .onFlags ↔ name = envFlagsVar) ∧
    (callback = some .onCallbacks ↔ name = envCallbackVar)

instance : Decidable (Bound callback name) :=
  inferInstanceAs (Decidable (_ ∧ _))

/- A change of a variable that has the callback. -/
def ChangeOk (cfg : Config) (s : State) (callback : Option Callback)
    (name : List UInt8) (value : Option (List UInt8)) :
    Prop :=
  Bound callback name ∧ WalkOk (flagsOf cfg) cfg s name value ∧
    WalkOk (callbacksOf cfg) cfg s name value

instance : Decidable (ChangeOk cfg s callback name value) :=
  inferInstanceAs (Decidable (_ ∧ _ ∧ _))

/-
  Where `s'` has a new variable, the two lists are still there
  at the pointers that are kept, or that a first call sets.
-/
def CreateOk (cfg : Config) (s s' : State) (name value : List UInt8) :
    Prop :=
  (∃ attrList ∈ s'.initList (callbacksOf cfg) cfg, ListOk (callbacksOf cfg) cfg s attrList name ∧
      ChangeOk cfg s ((callbacksOf cfg).assigned cfg attrList name) name (some value)) ∧
    ∃ attrList ∈ (s'.firstCall (callbacksOf cfg) cfg).2.initList (flagsOf cfg) cfg,
      ListOk (flagsOf cfg) cfg s attrList name

instance : Decidable (CreateOk cfg s s' name value) :=
  inferInstanceAs (Decidable ((∃ _ ∈ _, _) ∧ ∃ _ ∈ _, _))

/-
  A new variable gets its flags and its callback from the
  current lists.  The variables ".flags" and ".callbacks"
  change with their own callbacks bound to them, to lists
  whose elements are spelled like the names they match.
-/
def StepOk (cfg : Config) (s : State) : Step → Prop
  | .enter name value _ =>
    (s.table.lookup name = none → CreateOk cfg s (s.insert name value) name value) ∧
    ∀ v ∈ s.table.lookup name, ChangeOk cfg s v.callback name (some value)
  | .delete name _ => ∀ v ∈ s.table.lookup name, ChangeOk cfg s v.callback name none
  | .ready => True

instance : Decidable (StepOk cfg s l) :=
  match l with
  | .enter name value _ =>
    inferInstanceAs (Decidable
      ((s.table.lookup name = none → CreateOk cfg s (s.insert name value) name value) ∧
        ∀ v ∈ s.table.lookup name, ChangeOk cfg s v.callback name (some value)))
  | .delete name _ =>
    inferInstanceAs (Decidable (∀ v ∈ s.table.lookup name, ChangeOk cfg s v.callback name none))
  | .ready => inferInstanceAs (Decidable True)

----
-- The Look-Up
----

theorem lastOf_cons (p : Element → Bool) (e : Element) (entries : List Element) :
    lastOf p (e :: entries) = (lastOf p entries).or (if p e then some e else none) := by
  unfold lastOf
  rw [reverse_cons, find?_append, find?_singleton]

theorem lastOf_append (p : Element → Bool) (entries entries' : List Element) :
    lastOf p (entries ++ entries') = (lastOf p entries').or (lastOf p entries) := by
  unfold lastOf
  rw [reverse_append, find?_append]

section LookUp

variable {cfg : Config} {name : List UInt8}

theorem walkEntries_regex {entries : List Element}
    (hReadable : ∀ e ∈ entries, Readable cfg name e) (priv : Option (List UInt8)) :
    walkEntries (regexCallback cfg.slre name) entries priv =
      (0, match lastOf (matchesName cfg name) entries with
        | none => priv
        | some e => e.attributes) := by
  induction entries generalizing priv with
  | nil => rfl
  | cons e entries ih =>
    rcases hReadable e mem_cons_self with ⟨hCompiles, hAttributes⟩
    have hRest := ih fun e' hMem => hReadable e' (mem_cons_of_mem e hMem)
    rcases isSome_iff_exists.mp hCompiles with ⟨isMatch, hSlre⟩
    have hMatches : matchesName cfg name e = isMatch name := by
      unfold matchesName
      rw [hSlre]
      rfl
    rw [hMatches] at hAttributes
    rw [lastOf_cons, hMatches]
    unfold walkEntries regexCallback
    rw [hSlre]
    dsimp only
    cases hMatch : isMatch name with
    | false =>
      simp only [Bool.false_eq_true, if_false, ne_eq, not_true_eq_false, or_none]
      exact hRest priv
    | true =>
      rcases isSome_iff_exists.mp (hAttributes hMatch) with ⟨attributes, hSome⟩
      rw [hSome]
      refine (hRest (some attributes)).trans ?_
      cases lastOf (matchesName cfg name) entries with
      | none => exact congrArg _ hSome.symm
      | some last => rfl

theorem envAttrLookup_eq
    {attrList : List UInt8} (hReadable : ∀ e ∈ attrEntries attrList, Readable cfg name e) :
    envAttrLookup cfg.slre (some attrList) name =
      match lastOf (matchesName cfg name) (attrEntries attrList) with
      | none => (-2, [])
      | some e => (0, e.attributes.getD []) := by
  unfold envAttrLookup envAttrWalk
  dsimp only
  rw [walkEntries_regex hReadable none]
  cases hLast : lastOf (matchesName cfg name) (attrEntries attrList) with
  | none => rfl
  | some e =>
    have hMem : e ∈ attrEntries attrList := mem_reverse.mp (mem_of_find?_eq_some hLast)
    have hMatch : matchesName cfg name e = true := find?_some hLast
    rcases isSome_iff_exists.mp ((hReadable e hMem).2 hMatch) with ⟨attributes, hSome⟩
    simp [hSome]

theorem lookupLists_eq {value : Option (List UInt8)} {static : List UInt8}
    (hReadable : ∀ e ∈ attrEntries static ++ attrEntries (value.getD []), Readable cfg name e) :
    lookupLists cfg.slre value static name =
      match lastOf (matchesName cfg name) (attrEntries static ++ attrEntries (value.getD [])) with
      | none => (-2, [])
      | some e => (0, e.attributes.getD []) := by
  have hStatic := envAttrLookup_eq fun e hMem => hReadable e (mem_append_left _ hMem)
  rw [lastOf_append]
  unfold lookupLists
  cases value with
  | none =>
    have hNone : lastOf (matchesName cfg name)
        (attrEntries ((none : Option (List UInt8)).getD [])) = none := rfl
    rw [hNone, none_or]
    exact hStatic
  | some attrList =>
    have hList := envAttrLookup_eq fun e hMem => hReadable e (mem_append_right _ hMem)
    rw [getD_some] at hList ⊢
    rw [hList]
    cases lastOf (matchesName cfg name) (attrEntries attrList) with
    | none =>
      rw [none_or]
      exact hStatic
    | some e => rfl

end LookUp

----
-- The Walk
----

theorem lookup_mapVars (f : List UInt8 → EnvVar → EnvVar) (table : EnvTable) (name : List UInt8) :
    (mapVars f table).lookup name = (table.lookup name).map (f name) :=
  dlookup_map₂ name

theorem lookup_modifyVar
    (name : List UInt8) (f : EnvVar → EnvVar) (table : EnvTable) (n : List UInt8) :
    (modifyVar name f table).lookup n = (table.lookup n).map fun v =>
        if n = name then f v else v :=
  lookup_mapVars _ table n

section Walk

variable {σ : Type} {L : AttrList σ}

/- What the elements do with the variable of the name. -/
def assignOne (L : AttrList σ) (name : List UInt8) (v : EnvVar) (e : Element) :
    EnvVar :=
  if name = e.name then assignAttr L e.attributes v else v

def assignAll (L : AttrList σ) (name : List UInt8) (entries : List Element) (v : EnvVar) :
    EnvVar :=
  entries.foldl (assignOne L name) v

theorem lookup_walkEntries (entries : List Element) (table : EnvTable) (name : List UInt8) :
    (walkEntries (setAttr L) entries table).2.lookup name =
      (table.lookup name).map (assignAll L name entries) := by
  induction entries generalizing table with
  | nil => exact (congrFun map_id (table.lookup name)).symm
  | cons e entries ih =>
    have hFirst : walkEntries (setAttr L) (e :: entries)
        table = walkEntries (setAttr L) entries (setAttr L table e).2 := rfl
    rw [hFirst, ih, setAttr, lookup_modifyVar, Option.map_map]
    rfl

theorem lookup_onList (value : Option (List UInt8)) (table : EnvTable) (name : List UInt8) :
    (onList L value table).lookup name =
      (table.lookup name).map fun v => assignAll L name (allEntries L value) (L.set L.zero v) := by
  have hDynamic : ∀ table' : EnvTable, (envAttrWalk value (setAttr L) table').2.lookup name =
        (table'.lookup name).map (assignAll L name (attrEntries (value.getD []))) := by
    intro table'
    cases value with
    | none => exact (congrFun map_id (table'.lookup name)).symm
    | some attrList => exact lookup_walkEntries _ _ _
  have hStatic := lookup_walkEntries (L := L)
    (attrEntries L.static)
    (mapVars (fun _ => clearAttr L) table) name
  unfold onList
  rw [hDynamic]
  refine (congrArg _ hStatic).trans ?_
  rw [lookup_mapVars, Option.map_map, Option.map_map]
  congr 1
  funext v
  unfold assignAll allEntries
  rw [foldl_append]
  rfl

/- A setter of one field, which is zero in a new variable. -/
structure AttrList.Lens (L : AttrList σ) : Prop where
  getSet : ∀ x v, L.get (L.set x v) = x
  dataSet : ∀ x v, (L.set x v).data = v.data
  dataIdSet : ∀ x v, (L.set x v).dataId = v.dataId
  getData : ∀ v data dataId, L.get { v with data, dataId } = L.get v
  getNew : ∀ data dataId, L.get ⟨data, dataId, none, 0⟩ = L.zero

section

variable (hLens : L.Lens)
include hLens

theorem assignAttr_data (attributes : Option (List UInt8)) (v : EnvVar) :
    (assignAttr L attributes v).data = v.data := by
  unfold assignAttr
  split
  · exact hLens.dataSet _ _
  · split
    · exact hLens.dataSet _ _
    · split
      · rfl
      · exact hLens.dataSet _ _

theorem assignAttr_dataId (attributes : Option (List UInt8)) (v : EnvVar) :
    (assignAttr L attributes v).dataId = v.dataId := by
  unfold assignAttr
  split
  · exact hLens.dataIdSet _ _
  · split
    · exact hLens.dataIdSet _ _
    · split
      · rfl
      · exact hLens.dataIdSet _ _

theorem assignAttr_get {e : Element} (hKnown : Known L e) (v : EnvVar) :
    L.get (assignAttr L e.attributes v) =
      if e.attributes.getD [] = [] then L.zero
      else (L.parse (e.attributes.getD [])).getD L.zero := by
  unfold assignAttr
  cases hAttributes : e.attributes with
  | none => exact hLens.getSet _ _
  | some attributes =>
    rw [getD_some]
    dsimp only
    by_cases hEmpty : attributes = []
    · rw [if_pos hEmpty, if_pos hEmpty]
      exact hLens.getSet _ _
    · rw [if_neg hEmpty, if_neg hEmpty]
      rcases isSome_iff_exists.mp (hKnown attributes hAttributes hEmpty) with ⟨x, hParse⟩
      rw [hParse]
      exact hLens.getSet _ _

theorem assignAll_data (name : List UInt8) (entries : List Element) (v : EnvVar) :
    (assignAll L name entries v).data = v.data := by
  induction entries generalizing v with
  | nil => rfl
  | cons e entries ih =>
    refine (ih _).trans ?_
    unfold assignOne
    split
    · exact assignAttr_data hLens _ v
    · rfl

variable {name : List UInt8}

/- The last element that is spelled like the name decides. -/
theorem assignAll_get {entries : List Element}
    (hKnown : ∀ e ∈ lastOf (spelled name) entries, Known L e) (v : EnvVar) :
    L.get (assignAll L name entries v) =
      match lastOf (spelled name) entries with
      | none => L.get v
      | some e =>
        if e.attributes.getD [] = [] then L.zero
        else
          (L.parse (e.attributes.getD [])).getD L.zero := by
  induction entries using List.reverseRecOn with
  | nil => rfl
  | append_singleton entries e ih =>
    have hLast : lastOf (spelled name) [e] =
        if spelled name e then some e else none :=
      lastOf_cons (spelled name) e []
    rw [lastOf_append, hLast] at hKnown ⊢
    unfold assignAll at ih ⊢
    rw [foldl_append]
    simp only [foldl_cons, foldl_nil]
    unfold assignOne at ih ⊢
    by_cases hName : name = e.name
    · have hSpelled : spelled name e = true := beq_iff_eq.mpr hName.symm
      rw [if_pos hSpelled, some_or] at hKnown ⊢
      rw [if_pos hName]
      exact assignAttr_get hLens (hKnown e rfl) _
    · have hNot : ¬ spelled name e = true :=
        fun hEq => hName (beq_iff_eq.mp hEq).symm
      rw [if_neg hNot, none_or] at hKnown ⊢
      rw [if_neg hName]
      exact ih hKnown

/- The walk assigns what the look-up finds. -/
theorem onList_assigned {cfg : Config} {value : Option (List UInt8)}
    (hSpelled : Spelled L cfg value name) (v : EnvVar) :
    L.get (assignAll L name (allEntries L value) (L.set L.zero v)) = L.assigned cfg value name := by
  rcases hSpelled with ⟨hReadable, hSame, hKnown⟩
  rw [assignAll_get hLens hKnown]
  unfold AttrList.assigned
  rw [lookupLists_eq hReadable]
  rw [← hSame]
  unfold allEntries
  cases lastOf (matchesName cfg name) (attrEntries L.static ++ attrEntries (value.getD [])) with
  | none => exact hLens.getSet _ _
  | some e => simp

end

end Walk

----
-- What An Operation Does To A Field
----

section View

variable {σ τ : Type} {L : AttrList σ} {L' : AttrList τ} {cfg : Config} {s t : State}
  {name n : List UInt8}

/- The field of a variable, and its value. -/
def State.view (s : State) (L : AttrList σ) (name : List UInt8) :
    Option (σ × List UInt8) :=
  (s.table.lookup name).map fun v => (L.get v, v.data)

theorem value_eq (s : State) (L : AttrList σ) (name : List UInt8) :
    s.value name = (s.view L name).map Prod.snd := by
  unfold State.value State.view
  rw [Option.map_map]
  rfl

theorem follows_iff :
    s.Follows L cfg ↔
      ∀ name p, s.view L name = some p → p.1 = L.assigned cfg (s.value L.varName) name := by
  constructor
  · intro hFollows name p hView
    rcases map_eq_some_iff.mp hView with ⟨v, hFound, rfl⟩
    exact hFollows name v hFound
  · intro hView name v hFound
    apply hView name (L.get v, v.data)
    exact map_eq_some_iff.mpr ⟨v, hFound, rfl⟩

theorem State.Follows.congr (hFollows : s.Follows L cfg) (hView : ∀ n, t.view L n = s.view L n) :
    t.Follows L cfg := by
  apply follows_iff.mpr
  intro n p hFound
  rw [hView] at hFound
  rw [value_eq t L, hView, ← value_eq]
  exact follows_iff.mp hFollows n p hFound

theorem view_table {table : EnvTable} {f : EnvVar → EnvVar}
    (hLookup : table.lookup n = (s.table.lookup n).map f) (hGet : ∀ v, L.get (f v) = L.get v)
    (hData : ∀ v, (f v).data = v.data) :
    State.view { s with table } L n = s.view L n := by
  unfold State.view
  rw [hLookup, Option.map_map]
  congr 1
  funext v
  exact Prod.ext (hGet v) (hData v)

theorem view_erase_self : (s.erase name).view L name = none := by
  unfold State.view State.erase
  rw [AList.lookup_erase]
  rfl

theorem view_erase_ne (hNe : n ≠ name) :
    (s.erase name).view L n = s.view L n := by
  unfold State.view State.erase
  rw [AList.lookup_erase_ne hNe]

theorem view_insert_self (hLens : L.Lens) (value : List UInt8) :
    (s.insert name value).view L name = some (L.zero, value) := by
  unfold State.view State.insert
  rw [AList.lookup_insert]
  exact congrArg (fun x => some (x, value)) (hLens.getNew value s.nextId)

theorem view_insert_ne (hNe : n ≠ name) (value : List UInt8) :
    (s.insert name value).view L n = s.view L n := by
  unfold State.view State.insert
  rw [AList.lookup_insert_ne hNe]

theorem view_setData (hLens : L.Lens) (value : List UInt8) :
    (s.setData name value).view L n =
      (s.view L n).map fun p => (p.1, if n = name then value else p.2) := by
  unfold State.view State.setData
  rw [lookup_modifyVar, Option.map_map, Option.map_map]
  congr 1
  funext v
  by_cases hName : n = name
  · simp only [Function.comp, if_pos hName]
    rw [hLens.getData]
  · simp only [Function.comp, if_neg hName]

/- A list whose setter does not touch the field. -/
def AttrList.Apart (L : AttrList σ) (L' : AttrList τ) :
    Prop :=
  ∀ x v, L.get (L'.set x v) = L.get v

theorem assignAttr_apart (hApart : L.Apart L') (attributes : Option (List UInt8)) (v : EnvVar) :
    L.get (assignAttr L' attributes v) = L.get v := by
  unfold assignAttr
  split
  · exact hApart _ _
  · split
    · exact hApart _ _
    · split
      · rfl
      · exact hApart _ _

theorem assignAll_apart
    (hApart : L.Apart L') (name : List UInt8) (entries : List Element) (v : EnvVar) :
    L.get (assignAll L' name entries v) = L.get v := by
  induction entries generalizing v with
  | nil => rfl
  | cons e entries ih =>
    refine (ih _).trans ?_
    unfold assignOne
    split
    · exact assignAttr_apart hApart _ v
    · rfl

theorem view_onList_apart (hLens : L'.Lens) (hApart : L.Apart L') (value : Option (List UInt8)) :
    State.view { s with table := onList L' value s.table } L n = s.view L n := by
  apply view_table (lookup_onList value s.table n)
  · intro v
    rw [assignAll_apart hApart]
    exact hApart _ _
  · intro v
    rw [assignAll_data hLens]
    exact hLens.dataSet _ _

theorem view_onList (hLens : L.Lens) {value : Option (List UInt8)}
    (hSpelled : n ∈ s.table → Spelled L cfg value n) :
    State.view { s with table := onList L value s.table } L n =
      (s.view L n).map fun p => (L.assigned cfg value n, p.2) := by
  unfold State.view
  rw [lookup_onList]
  cases hFound : s.table.lookup n with
  | none => rfl
  | some v =>
    have hIn : n ∈ s.table := AList.lookup_isSome.mp (hFound ▸ rfl)
    simp only [map_some]
    rw [onList_assigned hLens (hSpelled hIn), assignAll_data hLens, hLens.dataSet]

----
-- A New Variable
----

@[simp] theorem firstCall_table (L : AttrList σ) (cfg : Config) (s : State) :
    (s.firstCall L cfg).2.table = s.table := by
  unfold State.firstCall State.envGet
  split
  · rfl
  · dsimp only
    split
    · split <;> rfl
    · split <;> rfl

theorem attrInit_isSome {attrList : Option (List UInt8)} (hList : s.initList L cfg = some attrList)
    (hRoom : (lookupLists cfg.slre attrList L.static name).2.length ≤ L.bufLen) :
    (attrInit L cfg s name).isSome = true := by
  unfold attrInit
  rw [hList, bind_some]
  dsimp only
  split
  · rfl
  · rw [if_neg hRoom.not_gt]
    rfl

/- What is set in a variable moves no list. -/
theorem initList_modifyVar {f : EnvVar → EnvVar}
    (hData : ∀ v, (f v).data = v.data) (hDataId : ∀ v, (f v).dataId = v.dataId) :
    State.initList L cfg { s with table := modifyVar name f s.table } = s.initList L cfg := by
  have hLookup :
      ∀ n, (modifyVar name f s.table).lookup n =
        (s.table.lookup n).map fun v => if n = name then f v else v :=
    lookup_modifyVar name f s.table
  have hSame :
      ∀ (n : List UInt8) v, (if n = name then f v else v).data = v.data ∧
          (if n = name then f v else v).dataId = v.dataId := by
    intro n v
    split
    · exact ⟨hData v, hDataId v⟩
    · exact ⟨rfl, rfl⟩
  have hRead :
      ∀ (t : State) ptr, State.readList { t with table := modifyVar name f s.table } L.varName ptr =
          State.readList { t with table := s.table } L.varName ptr := by
    intro t ptr
    cases ptr with
    | null => rfl
    | envBuf => rfl
    | data dataId =>
      unfold State.readList
      rw [hLookup]
      cases s.table.lookup L.varName with
      | none => rfl
      | some v => simp only [map_some, hSame]
  unfold State.initList State.firstCall State.envGet
  dsimp only
  rw [hLookup]
  cases s.cached L.kind with
  | some ptr => exact hRead s ptr
  | none =>
    dsimp only
    by_cases hReady : s.envReady = true
    · simp only [if_pos hReady]
      cases s.table.lookup L.varName with
      | none => rfl
      | some v =>
        simp only [map_some, hSame]
        let ptr := ListPtr.data v.dataId
        exact hRead { s with cached := Function.update s.cached L.kind (some ptr) } ptr
    · simp only [if_neg hReady]
      cases cfg.envGetF L.varName with
      | none => rfl
      | some list => exact hRead { s with envBuf := list } _

theorem initList_attrInit (hLens : L'.Lens) (hInit : attrInit L' cfg s name = some t) :
    t.initList L cfg = (s.firstCall L' cfg).2.initList L cfg := by
  rcases bind_eq_some_iff.mp hInit with ⟨attrList, -, hRest⟩
  dsimp only at hRest
  split at hRest
  · cases hRest
    rfl
  · split at hRest
    · cases hRest
    · cases hRest
      exact initList_modifyVar (assignAttr_data hLens _) (assignAttr_dataId hLens _)

/- The first assignment is what the list assigns. -/
theorem attrInit_view (hLens : L.Lens) {value : List UInt8}
    (hInit : attrInit L cfg s name = some t) (hNew : s.view L name = some (L.zero, value)) :
    ∃ attrList, s.initList L cfg = some attrList ∧
      t.view L name = some (L.assigned cfg attrList name, value) ∧
      ∀ n, n ≠ name → t.view L n = s.view L n := by
  rcases bind_eq_some_iff.mp hInit with ⟨attrList, hList, hRest⟩
  have hTable : ∀ n, (s.firstCall L cfg).2.view L n = s.view L n := by
    intro n
    unfold State.view
    rw [firstCall_table]
  refine ⟨attrList, hList, ?_⟩
  unfold AttrList.assigned
  dsimp only at hRest ⊢
  split at hRest
  · rename_i hNothing
    cases hRest
    rw [if_pos hNothing]
    exact ⟨(hTable name).trans hNew, fun n _ => hTable n⟩
  · rename_i hSome
    split at hRest
    · cases hRest
    · cases hRest
      rw [if_neg hSome]
      rcases map_eq_some_iff.mp hNew with ⟨v, hFound, hPair⟩
      rcases Prod.mk.inj hPair with ⟨hZero, hData⟩
      constructor
      · unfold State.view
        rw [lookup_modifyVar, firstCall_table, hFound]
        simp only [map_some, if_true]
        rw [assignAttr_data hLens, hData]
        unfold assignAttr
        dsimp only
        rw [if_neg fun hEmpty => hSome (Or.inr hEmpty)]
        split
        · rename_i hParse
          rw [hParse, hZero]
          rfl
        · rename_i x hParse
          rw [hParse, hLens.getSet]
          rfl
      · intro n hNe
        rw [← hTable n]
        unfold State.view
        rw [lookup_modifyVar]
        simp only [if_neg hNe]
        exact congrArg _ (congrFun map_id _)

theorem attrInit_apart
    (hLens : L'.Lens) (hApart : L.Apart L') (hInit : attrInit L' cfg s name = some t) :
    t.view L n = s.view L n := by
  have hTable : (s.firstCall L' cfg).2.view L n = s.view L n := by
    unfold State.view
    rw [firstCall_table]
  rcases bind_eq_some_iff.mp hInit with ⟨attrList, -, hRest⟩
  dsimp only at hRest
  split at hRest
  · cases hRest
    exact hTable
  · split at hRest
    · cases hRest
    · cases hRest
      rw [← hTable]
      apply view_table (lookup_modifyVar name _ _ n)
      · intro v
        split
        · exact assignAttr_apart hApart _ v
        · rfl
      · intro v
        split
        · exact assignAttr_data hLens _ v
        · rfl

end View

----
-- The Callbacks
----

/-
  How the callbacks treat a list.  Its own one walks it, and
  the other ones leave its field alone.
-/
structure AttrList.Behaves {σ : Type}
    (cfg : Config)
    (L : AttrList σ) : Prop extends L.Lens where
  own : ∀ name value op flag s, runCallback cfg (some L.callback) name value op flag s =
      (false, { s with table := onList L value s.table })
  frame : ∀ callback name value op flag s n, callback ≠ some L.callback →
      (runCallback cfg callback name value op flag s).2.view L n = s.view L n
  bound : ∀ callback name, Bound callback name → (callback = some L.callback ↔ name = L.varName)
  walk : ∀ s callback name value, ChangeOk cfg s callback name value → WalkOk L cfg s name value

theorem flagsOf_lens (cfg : Config) : (flagsOf cfg).Lens where
  getSet _ _ := rfl
  dataSet _ _ := rfl
  dataIdSet _ _ := rfl
  getData _ _ _ := rfl
  getNew _ _ := rfl

theorem callbacksOf_lens (cfg : Config) : (callbacksOf cfg).Lens where
  getSet _ _ := rfl
  dataSet _ _ := rfl
  dataIdSet _ _ := rfl
  getData _ _ _ := rfl
  getNew _ _ := rfl

theorem flagsOf_apart (cfg : Config) : (flagsOf cfg).Apart (callbacksOf cfg) :=
  fun _ _ => rfl

theorem callbacksOf_apart (cfg : Config) : (callbacksOf cfg).Apart (flagsOf cfg) :=
  fun _ _ => rfl

theorem flagsOf_behaves (cfg : Config) : (flagsOf cfg).Behaves cfg where
  toLens := flagsOf_lens cfg
  own _ _ _ _ _ := rfl
  frame callback name value op flag s n hOther := by
    cases callback with
    | none => rfl
    | some callback =>
      cases callback with
      | onFlags => exact absurd rfl hOther
      | onCallbacks => exact view_onList_apart (callbacksOf_lens cfg) (flagsOf_apart cfg) value
      | other hook => rfl
  bound _ _ hBound := hBound.1
  walk _ _ _ _ hOk := hOk.2.1

theorem callbacksOf_behaves (cfg : Config) : (callbacksOf cfg).Behaves cfg where
  toLens := callbacksOf_lens cfg
  own _ _ _ _ _ := rfl
  frame callback name value op flag s n hOther := by
    cases callback with
    | none => rfl
    | some callback =>
      cases callback with
      | onFlags => exact view_onList_apart (flagsOf_lens cfg) (callbacksOf_apart cfg) value
      | onCallbacks => exact absurd rfl hOther
      | other hook => rfl
  bound _ _ hBound := hBound.2
  walk _ _ _ _ hOk := hOk.2.2

----
-- What A Step Keeps
----

section Steps

variable {σ : Type} {L : AttrList σ} {cfg : Config} {s s' t : State} {name : List UInt8}
  {flag : Nat}

theorem runCallback_rejected {callback : Option Callback} {value : Option (List UInt8)} {op : EnvOp}
    (hRejected : (runCallback cfg callback name value op flag s).1 = true) :
    (runCallback cfg callback name value op flag s).2 = s := by
  cases callback with
  | none => rfl
  | some callback =>
    cases callback with
    | onFlags => cases hRejected
    | onCallbacks => cases hRejected
    | other hook => rfl

theorem mem_table {n : List UInt8} :
    n ∈ s.table ↔ (s.view L n).isSome = true := by
  unfold State.view
  rw [isSome_map]
  exact AList.lookup_isSome.symm

variable {value : List UInt8}

theorem follows_overwrite (hBehaves : L.Behaves cfg) {v : EnvVar}
    (hFound : s.table.lookup name = some v) (hOk : ChangeOk cfg s v.callback name (some value))
    (hFollows : s.Follows L cfg) :
    (overwrite cfg s name value flag v).Follows L cfg := by
  have hBound := hBehaves.bound _ _ hOk.1
  unfold overwrite
  dsimp only
  split
  · exact hFollows
  · by_cases hName : name = L.varName
    · have hSpelled := hBehaves.walk _ _ _ _ hOk hName
      rw [hBound.mpr hName, hBehaves.own, if_neg Bool.false_ne_true]
      apply follows_iff.mpr
      intro n p hView
      have hValue : (State.setData
          { s with
            table := onList L (some value) s.table } name
          value).value L.varName = some value := by
        rw [value_eq _ L, view_setData hBehaves.toLens,
          ← hName, view_onList hBehaves.toLens fun hIn => hSpelled name mem_cons_self]
        unfold State.view
        rw [hFound]
        simp
      rw [hValue]
      rw [view_setData hBehaves.toLens,
        view_onList hBehaves.toLens fun hIn => hSpelled n (mem_cons_of_mem name hIn)]
        at hView
      rcases map_eq_some_iff.mp hView with ⟨p', hInner, rfl⟩
      rcases map_eq_some_iff.mp hInner with ⟨p'', -, rfl⟩
      rfl
    · have hFrame := hBehaves.frame v.callback name (some value) .overwrite flag s
      have hView := fun n => hFrame n fun hEq => hName (hBound.mp hEq)
      split
      · exact hFollows.congr hView
      · apply follows_iff.mpr
        intro n p hNew
        rw [view_setData hBehaves.toLens, hView] at hNew
        rw [value_eq _ L, view_setData hBehaves.toLens, hView]
        rcases map_eq_some_iff.mp hNew with ⟨p', hOld, rfl⟩
        refine (follows_iff.mp hFollows n p' hOld).trans ?_
        rw [value_eq s L, Option.map_map]
        congr 1
        apply congrArg (fun f => Option.map f _)
        funext p
        exact (if_neg fun hEq => hName hEq.symm).symm

theorem follows_delete (hBehaves : L.Behaves cfg)
    (hOk : ∀ v ∈ s.table.lookup name, ChangeOk cfg s v.callback name none)
    (hFollows : s.Follows L cfg) :
    (hdelete cfg s name flag).Follows L cfg := by
  unfold hdelete
  split
  · exact hFollows
  · rename_i v hFound
    have hChange := hOk v hFound
    have hBound := hBehaves.bound _ _ hChange.1
    dsimp only
    split
    · exact hFollows
    · by_cases hName : name = L.varName
      · have hSpelled := hBehaves.walk _ _ _ _ hChange hName
        rw [hBound.mpr hName, hBehaves.own, if_neg Bool.false_ne_true]
        apply follows_iff.mpr
        intro n p hView
        rw [value_eq _ L, ← hName, view_erase_self]
        by_cases hn : n = name
        · rw [hn, view_erase_self] at hView
          cases hView
        · rw [view_erase_ne hn,
            view_onList hBehaves.toLens fun hIn => hSpelled n (mem_cons_of_mem name hIn)]
            at hView
          rcases map_eq_some_iff.mp hView with ⟨p', -, rfl⟩
          rfl
      · have hFrame := hBehaves.frame v.callback name none .delete flag s
        have hView := fun n => hFrame n fun hEq => hName (hBound.mp hEq)
        split
        · exact hFollows.congr hView
        · apply follows_iff.mpr
          intro n p hNew
          rw [value_eq _ L, view_erase_ne (fun hEq => hName hEq.symm), hView, ← value_eq]
          by_cases hn : n = name
          · rw [hn, view_erase_self] at hNew
            cases hNew
          · rw [view_erase_ne hn, hView] at hNew
            exact follows_iff.mp hFollows n p hNew

/-
  The state `s'` is `s` with a new variable, to which `x` was
  assigned.
-/
structure Added
    (L : AttrList σ) (s s' : State) (name value : List UInt8)
    (x : σ) : Prop where
  fresh : s.table.lookup name = none
  new : s'.view L name = some (x, value)
  old : ∀ n, n ≠ name → s'.view L n = s.view L n

theorem Added.keys
    {x : σ} (hAdded : Added L s s' name value x) (n : List UInt8) (hIn : n ∈ s'.table) :
    n ∈ name :: s.table.keys := by
  by_cases hn : n = name
  · exact hn ▸ mem_cons_self
  · apply mem_cons_of_mem
    have hView := (mem_table (L := L)).mp hIn
    rw [hAdded.old n hn] at hView
    exact mem_table.mpr hView

/- An entry that is taken back leaves the old ones. -/
theorem Added.erase {x : σ} (hAdded : Added L s s' name value x) (n : List UInt8) :
    (s'.erase name).view L n = s.view L n := by
  by_cases hn : n = name
  · rw [hn, view_erase_self]
    unfold State.view
    rw [hAdded.fresh]
    rfl
  · rw [view_erase_ne hn]
    exact hAdded.old n hn

theorem follows_create (hBehaves : L.Behaves cfg) {attrList : Option (List UInt8)}
    (hAdded : Added L s s' name value (L.assigned cfg attrList name))
    (hList : ListOk L cfg s attrList name)
    (hOk : ∀ v, s'.table.lookup name = some v → ChangeOk cfg s v.callback name (some value))
    (hFollows : s.Follows L cfg) (hCreate : create cfg s' name value flag = some t) :
    t.Follows L cfg := by
  rcases map_eq_some_iff.mp hCreate with ⟨v, hFound, hNext⟩
  have hChange := hOk v hFound
  have hBound := hBehaves.bound _ _ hChange.1
  dsimp only at hNext
  split at hNext
  · subst hNext
    exact hFollows.congr hAdded.erase
  · split at hNext
    · rename_i hRejected
      subst hNext
      rw [runCallback_rejected hRejected]
      exact hFollows.congr hAdded.erase
    · subst hNext
      by_cases hName : name = L.varName
      · have hSpelled := hBehaves.walk _ _ _ _ hChange hName
        rw [hBound.mpr hName, hBehaves.own]
        have hView := fun n => view_onList
          (n := n) (s := s') hBehaves.toLens fun hIn => hSpelled n (hAdded.keys n hIn)
        apply follows_iff.mpr
        intro n p hNew
        rw [hView] at hNew
        rw [value_eq _ L, ← hName, hView, hAdded.new]
        rcases map_eq_some_iff.mp hNew with ⟨p', -, rfl⟩
        rfl
      · have hFrame := hBehaves.frame v.callback name (some value) .create flag s'
        have hView := fun n => hFrame n fun hEq => hName (hBound.mp hEq)
        apply follows_iff.mpr
        intro n p hNew
        rw [hView] at hNew
        rw [value_eq _ L, hView, hAdded.old _ (fun hEq => hName hEq.symm), ← value_eq]
        by_cases hn : n = name
        · rw [hn, hAdded.new] at hNew
          cases hNew
          rw [hn, hList.1.resolve_left hName]
        · rw [hAdded.old n hn] at hNew
          exact follows_iff.mp hFollows n p hNew

end Steps

section Runs

variable {cfg : Config} {s t : State} {name value : List UInt8}

/- What a new variable gets from the two lists. -/
theorem added_init {s' s'' : State} (hFresh : s.table.lookup name = none)
    (hCallback : envCallbackInit cfg (s.insert name value)
      name = some s')
    (hFlags : envFlagsInit cfg s' name = some s'') :
    (∃ attrList, (s.insert name value).initList (callbacksOf cfg) cfg = some attrList ∧
      Added (callbacksOf cfg) s s'' name value ((callbacksOf cfg).assigned cfg attrList name)) ∧
    ∃ attrList, s'.initList (flagsOf cfg) cfg = some attrList ∧
      Added (flagsOf cfg) s s'' name value ((flagsOf cfg).assigned cfg attrList name) := by
  constructor
  · have hNew : (s.insert name value).view (callbacksOf cfg)
        name = some ((callbacksOf cfg).zero, value) :=
      view_insert_self (callbacksOf_lens cfg) value
    rcases attrInit_view (callbacksOf_lens cfg) hCallback hNew with ⟨attrList, hList, hSelf, hOld⟩
    have hKept := fun n => attrInit_apart (n := n)
      (flagsOf_lens cfg) (callbacksOf_apart cfg) hFlags
    refine ⟨attrList, hList, hFresh, ?_, ?_⟩
    · rw [hKept, hSelf]
    · intro n hn
      rw [hKept, hOld n hn, view_insert_ne hn]
  · have hKept := fun n => attrInit_apart (n := n)
      (callbacksOf_lens cfg) (flagsOf_apart cfg) hCallback
    have hNew := (hKept name).trans (view_insert_self (flagsOf_lens cfg) value)
    rcases attrInit_view (flagsOf_lens cfg) hFlags hNew with ⟨attrList, hList, hSelf, hOld⟩
    refine ⟨attrList, hList, hFresh, hSelf, ?_⟩
    intro n hn
    rw [hOld n hn, hKept, view_insert_ne hn]

/- The callback of a new variable is the one assigned. -/
theorem Added.callback {s' : State} {x : Option Callback} {v : EnvVar}
    (hAdded : Added (callbacksOf cfg) s s' name value x) (hFound : s'.table.lookup name = some v) :
    v.callback = x := by
  have hNew := hAdded.new
  unfold State.view at hNew
  rw [hFound] at hNew
  exact (Prod.mk.inj (Option.some.inj hNew)).1

theorem follows_step
    {l : Step} (hFollows : s.Follows (flagsOf cfg) cfg ∧ s.Follows (callbacksOf cfg) cfg)
    (hOk : StepOk cfg s l) (hStep : step cfg s l = some t) :
    t.Follows (flagsOf cfg) cfg ∧ t.Follows (callbacksOf cfg) cfg := by
  rcases hFollows with ⟨hFlags, hCallbacks⟩
  have hFlagsOf := flagsOf_behaves cfg
  have hCallbacksOf := callbacksOf_behaves cfg
  cases l with
  | ready =>
    cases hStep
    exact ⟨hFlags, hCallbacks⟩
  | delete name flag =>
    cases hStep
    exact ⟨follows_delete hFlagsOf hOk hFlags, follows_delete hCallbacksOf hOk hCallbacks⟩
  | enter name value flag =>
    rcases hOk with ⟨hCreate, hOverwrite⟩
    have hEnter : hsearchEnter cfg s name value flag = some t := hStep
    unfold hsearchEnter at hEnter
    split at hEnter
    · rename_i v hFound
      cases hEnter
      have hChange := hOverwrite v hFound
      exact
        ⟨follows_overwrite hFlagsOf hFound hChange hFlags,
          follows_overwrite hCallbacksOf hFound hChange hCallbacks⟩
    · rename_i hFresh
      rcases hCreate hFresh with
        ⟨⟨_, hFirst, hCallbackOk, hChange⟩, _, hSecond, hFlagsOk⟩
      rcases bind_eq_some_iff.mp hEnter with ⟨s', hCallback, hRest⟩
      rcases bind_eq_some_iff.mp hRest with ⟨s'', hFlag, hLast⟩
      rcases added_init hFresh hCallback hFlag with
        ⟨⟨callbackList, hCallbackList, hCallbackAdded⟩, flagsList, hFlagsList, hFlagsAdded⟩
      cases hCallbackList.symm.trans hFirst
      rw [initList_attrInit (callbacksOf_lens cfg) hCallback] at hFlagsList
      cases hFlagsList.symm.trans hSecond
      have hBoth : ∀ v, s''.table.lookup name = some v →
          ChangeOk cfg s v.callback name (some value) := by
        intro v hFound
        rw [hCallbackAdded.callback hFound]
        exact hChange
      exact
        ⟨follows_create hFlagsOf hFlagsAdded hFlagsOk hBoth hFlags hLast,
          follows_create hCallbacksOf hCallbackAdded hCallbackOk hBoth hCallbacks hLast⟩

/- A step that meets the condition reads no freed list. -/
theorem step_isSome {l : Step} (hOk : StepOk cfg s l) :
    (step cfg s l).isSome = true := by
  cases l with
  | ready => rfl
  | delete name flag => rfl
  | enter name value flag =>
    unfold step hsearchEnter
    dsimp only
    split
    · rfl
    · rename_i hFresh
      rcases hOk.1 hFresh with ⟨⟨_, hFirst, hCallbackOk, -⟩, _, hSecond, hFlagsOk⟩
      rcases isSome_iff_exists.mp (attrInit_isSome hFirst hCallbackOk.2) with
        ⟨s', hCallback⟩
      rw [← initList_attrInit (callbacksOf_lens cfg) hCallback] at hSecond
      rcases isSome_iff_exists.mp (attrInit_isSome hSecond hFlagsOk.2) with ⟨s'', hFlag⟩
      rcases (added_init hFresh hCallback hFlag).1 with ⟨_, -, hAdded⟩
      have hFound : (s''.table.lookup name).isSome = true :=
        AList.lookup_isSome.mpr
          ((mem_table (L := callbacksOf cfg)).mpr (by rw [hAdded.new]; rfl))
      have hCallback' : envCallbackInit cfg (s.insert name value) name = some s' := hCallback
      have hFlag' : envFlagsInit cfg s' name = some s'' := hFlag
      rw [hCallback', bind_some, hFlag', bind_some]
      unfold create
      rw [isSome_map]
      exact hFound

end Runs

/- The variables, created, overwritten and deleted. -/
def system (cfg : Config) : TransitionSystem State Step :=
  .ofStep start (step cfg)

/-
  Whether a string is matched by characters, by '.' and by
  characters after a backslash.
-/
def matchPlain : List UInt8 → List UInt8 → Bool
  | [], text => text == []
  | 92 :: c :: re, text => text.head? == some c && matchPlain re text.tail
  | 46 :: re, text => text != [] && matchPlain re text.tail
  | c :: re, text => text.head? == some c && matchPlain re text.tail

/- Expressions "^...$" of these. -/
def plainSlre : Slre :=
  fun re => some (matchPlain re.tail.dropLast)

/-
  The static lists are "serial#:so," and
  "\.callbacks:callbacks,\.flags:flags,".
-/
def plainConfig : Config where
  slre := plainSlre
  cmdNet := true
  flagsStatic := [115, 101, 114, 105, 97, 108, 35, 58, 115, 111, 44]
  callbacksStatic :=
    92 :: envCallbackVar ++ 58 :: envCallbackVar.tail ++
      44 :: 92 :: envFlagsVar ++ 58 :: envFlagsVar.tail ++ [44]
  otherCallbacks := []
  envGetF _ := none
  changeOk _ _ _ _ _ := false
  hook _ _ _ _ _ := false

def varX : List UInt8 := [120]
def varY : List UInt8 := [121]
def five : List UInt8 := [53]

/- The lists "x:d" and "y:d" of one decimal number. -/
def decimalX : List UInt8 := [120, 58, 100]
def decimalY : List UInt8 := [121, 58, 100]

end Uboot.Env.Attr
