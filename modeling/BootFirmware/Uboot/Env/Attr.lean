import Mathlib.Data.List.AList

/-
  Lists of attributes, and the environment variables whose
  flags and callbacks the lists ".flags" and ".callbacks" and
  the two static lists assign.

  The code is that of a configuration with regular
  expressions.  The table is the finite map that the hash
  table implements, with room for every variable.  Strings
  are the bytes before their NUL.  The function `slre` gives
  what a regular expression matches, if it compiles.

  A step that reads a string after it was freed, or copies
  attributes past a buffer, has no result.

  Key definitions include:
    * `attrEntries` and `envAttrWalk`
    * `envAttrLookup`
    * `AttrList`, `flagsOf` and `callbacksOf`
    * `onList` and `attrInit`
    * `step`
-/

----
-- Attribute Lists
----

namespace Uboot.Env.Attr

def isspace (c : UInt8) : Bool :=
  (9 ≤ c && c ≤ 13) || c == 32 || c == 160

def strim (s : List UInt8) : List UInt8 :=
  ((s.dropWhile isspace).reverse.dropWhile isspace).reverse

/- A name and its attributes, if a ':' follows the name. -/
structure Element where
  name : List UInt8
  attributes : Option (List UInt8)
deriving DecidableEq, Repr

/- An entry of a list, unless its name is empty. -/
def elementOf (entry : List UInt8) : Option Element :=
  let name := strim (entry.takeWhile fun c => c != 58)
  let attributes :=
    if 58 ∈ entry then
      some (strim (entry.dropWhile fun c => c != 58).tail)
    else none
  if name = [] then none else some ⟨name, attributes⟩

/- The elements for which `env_attr_walk` calls back. -/
def attrEntries (attrList : List UInt8) : List Element :=
  (attrList.splitOn 44).filterMap elementOf

/- A callback that returns non-zero ends the walk. -/
def walkEntries {σ : Type}
    (callback : σ → Element → Int × σ) :
    List Element → σ → Int × σ
  | [], priv => (0, priv)
  | e :: entries, priv =>
    let (retval, priv) := callback priv e
    if retval ≠ 0 then (retval, priv)
    else walkEntries callback entries priv

def envAttrWalk {σ : Type}
    (attrList : Option (List UInt8)) (callback : σ → Element → Int × σ) (priv : σ) :
    Int × σ :=
  match attrList with
  | none => (1, priv)
  | some attrList => walkEntries callback (attrEntries attrList) priv

/- A regular expression as a predicate, if it compiles. -/
abbrev Slre : Type :=
  List UInt8 → Option (List UInt8 → Bool)

/- The expression is "^name$". -/
def whole (name : List UInt8) : List UInt8 :=
  94 :: name ++ [36]

/- The attributes found so far are kept in `priv`. -/
def regexCallback
    (slre : Slre) (searchedFor : List UInt8) (priv : Option (List UInt8)) (e : Element) :
    Int × Option (List UInt8) :=
  match slre (whole e.name) with
  | none => (-22, priv)
  | some isMatch =>
    if isMatch searchedFor then
      match e.attributes with
      | none => (-22, none)
      | some attributes => (0, some attributes)
    else (0, priv)

/- The attributes are there where the value returned is 0. -/
def envAttrLookup (slre : Slre) (attrList : Option (List UInt8)) (name : List UInt8) :
    Int × List UInt8 :=
  match attrList with
  | none => (-22, [])
  | some _ =>
    let (retval, priv) := envAttrWalk attrList (regexCallback slre name) none
    if retval ≠ 0 then (retval, [])
    else
      match priv with
      | some attributes => (0, attributes)
      | none => (-2, [])

/- A list, and failing that the static list. -/
def lookupLists (slre : Slre) (attrList : Option (List UInt8)) (static name : List UInt8) :
    Int × List UInt8 :=
  let (ret, attributes) := envAttrLookup slre attrList name
  if ret ≠ 0 then envAttrLookup slre (some static) name
  else (ret, attributes)

----
-- Flags
----

/- The characters "sdxb" and, with a network, "im". -/
def vartypeRep (cmdNet : Bool) : List UInt8 :=
  [115, 100, 120, 98] ++ if cmdNet then [105, 109] else []

/- The characters "aroc". -/
def varaccessRep : List UInt8 := [97, 114, 111, 99]

def varaccessMask : List Nat :=
  [0, 8 ||| 16 ||| 32, 8 ||| 32, 8 ||| 64]

def indexOr0 (c : UInt8) (rep : List UInt8) : Nat :=
  if c ∈ rep then rep.idxOf c else 0

def parseVartype (cmdNet : Bool) (flags : List UInt8) : Nat :=
  match flags[0]? with
  | none => 0
  | some c => indexOr0 c (vartypeRep cmdNet)

def parseVaraccess (flags : List UInt8) : Nat :=
  match flags[1]? with
  | none => 0
  | some c => indexOr0 c varaccessRep

def parseFlagsToBin (cmdNet : Bool) (flags : List UInt8) :
    Nat :=
  (parseVartype cmdNet flags &&& 7) ||| (varaccessMask[parseVaraccess flags]?).getD 0

----
-- Variables
----

inductive Callback where
  | onFlags
  | onCallbacks
  | other (name : List UInt8)
deriving DecidableEq, Repr

/- The allocation of the value has a number of its own. -/
structure EnvVar where
  data : List UInt8
  dataId : Nat
  callback : Option Callback
  flags : Nat
deriving DecidableEq, Repr

inductive EnvOp where
  | create
  | overwrite
  | delete
deriving DecidableEq, Repr

/-
  The functions are regular expressions, the values found
  before the environment is in the table, `change_ok` and
  the other callbacks, of which the last two say whether they
  reject a change.
-/
structure Config where
  slre : Slre
  cmdNet : Bool
  flagsStatic : List UInt8
  callbacksStatic : List UInt8
  otherCallbacks : List (List UInt8)
  envGetF : List UInt8 → Option (List UInt8)
  changeOk : List UInt8 → EnvVar → Option (List UInt8) → EnvOp → Nat → Bool
  hook : List UInt8 → List UInt8 → Option (List UInt8) → EnvOp → Nat → Bool

abbrev EnvTable : Type :=
  AList (fun _ : List UInt8 => EnvVar)

def mapVars (f : List UInt8 → EnvVar → EnvVar) (table : EnvTable) :
    EnvTable where
  entries := table.entries.map (Sigma.map id f)
  nodupKeys := by
    unfold List.NodupKeys
    rw [List.map₂_keys]
    exact table.nodupKeys

def modifyVar (name : List UInt8) (f : EnvVar → EnvVar) (table : EnvTable) :
    EnvTable :=
  mapVars (fun n v => if n = name then f v else v) table

----
-- The Two Lists
----

inductive Kind where
  | flags
  | callbacks
deriving DecidableEq, Repr

/-
  A list and the field of a variable that it assigns.  At
  most `bufLen` characters of attributes can be copied, and
  attributes that are not known assign nothing.
-/
structure AttrList (σ : Type) where
  kind : Kind
  varName : List UInt8
  static : List UInt8
  bufLen : Nat
  callback : Callback
  zero : σ
  parse : List UInt8 → Option σ
  get : EnvVar → σ
  set : σ → EnvVar → EnvVar

/- The text ".flags". -/
def envFlagsVar : List UInt8 :=
  [46, 102, 108, 97, 103, 115]

/- The text ".callbacks". -/
def envCallbackVar : List UInt8 :=
  [46, 99, 97, 108, 108, 98, 97, 99, 107, 115]

def flagsOf (cfg : Config) : AttrList Nat where
  kind := .flags
  varName := envFlagsVar
  static := cfg.flagsStatic
  bufLen := 2
  callback := .onFlags
  zero := 0
  parse attributes := some (parseFlagsToBin cfg.cmdNet attributes)
  get := EnvVar.flags
  set x v := { v with flags := x }

/- The callbacks of the linker list, by name. -/
def findEnvCallback (cfg : Config) (name : List UInt8) :
    Option Callback :=
  if name = [102, 108, 97, 103, 115] then
    some .onFlags
  else if name = [99, 97, 108, 108, 98, 97, 99, 107, 115] then
    some .onCallbacks
  else if name ∈ cfg.otherCallbacks then some (.other name)
  else none

def callbacksOf (cfg : Config) : AttrList (Option Callback) where
  kind := .callbacks
  varName := envCallbackVar
  static := cfg.callbacksStatic
  bufLen := 255
  callback := .onCallbacks
  zero := none
  parse attributes := (findEnvCallback cfg attributes).map some
  get := EnvVar.callback
  set x v := { v with callback := x }

section List

variable {σ : Type} (L : AttrList σ)

/- `clear_flags` and `clear_callback`. -/
def clearAttr (v : EnvVar) : EnvVar :=
  L.set L.zero v

/- What `set_flags` and `set_callback` do with a variable. -/
def assignAttr (attributes : Option (List UInt8)) (v : EnvVar) :
    EnvVar :=
  match attributes with
  | none => L.set L.zero v
  | some attributes =>
    if attributes = [] then L.set L.zero v
    else
      match L.parse attributes with
      | none => v
      | some x => L.set x v

/- `set_flags` and `set_callback`. -/
def setAttr (table : EnvTable) (e : Element) : Int × EnvTable :=
  (0, modifyVar e.name (assignAttr L e.attributes) table)

/- `on_flags` and `on_callbacks`. -/
def onList (value : Option (List UInt8)) (table : EnvTable) :
    EnvTable :=
  let table := mapVars (fun _ => clearAttr L) table
  let table := (envAttrWalk (some L.static) (setAttr L) table).2
  (envAttrWalk value (setAttr L) table).2

end List

def setFlags (cfg : Config) : EnvTable → Element → Int × EnvTable :=
  setAttr (flagsOf cfg)

def setCallback (cfg : Config) : EnvTable → Element → Int × EnvTable :=
  setAttr (callbacksOf cfg)

def onFlags (cfg : Config) : Option (List UInt8) → EnvTable → EnvTable :=
  onList (flagsOf cfg)

def onCallbacks (cfg : Config) : Option (List UInt8) → EnvTable → EnvTable :=
  onList (callbacksOf cfg)

----
-- The State
----

/- NULL, the buffer in `gd`, or the value of a variable. -/
inductive ListPtr where
  | null
  | envBuf
  | data (dataId : Nat)
deriving DecidableEq, Repr

/-
  The pointers `flags_list` and `callback_list` are not there
  before the first call.
-/
structure State where
  table : EnvTable
  nextId : Nat
  envReady : Bool
  envBuf : List UInt8
  cached : Kind → Option ListPtr

def start : State :=
  ⟨∅, 0, false, [], fun _ => none⟩

/- The value of a variable, for its callback and readers. -/
def State.value (s : State) (name : List UInt8) : Option (List UInt8) :=
  (s.table.lookup name).map EnvVar.data

def State.envGet (cfg : Config) (s : State) (name : List UInt8) :
    ListPtr × State :=
  if s.envReady then
    match s.table.lookup name with
    | none => (.null, s)
    | some v => (.data v.dataId, s)
  else
    match cfg.envGetF name with
    | none => (.null, s)
    | some value => (if value = [] then .null else .envBuf, { s with envBuf := value })

/- The list at a pointer to the value of `varName`. -/
def State.readList (s : State) (varName : List UInt8) :
    ListPtr → Option (Option (List UInt8))
  | .null => some none
  | .envBuf => some (some s.envBuf)
  | .data dataId =>
    match s.table.lookup varName with
    | none => none
    | some v =>
      if v.dataId = dataId then some (some v.data)
      else none

section Init

variable {σ : Type} (L : AttrList σ) (cfg : Config)

/- The pointer, which the first call sets. -/
def State.firstCall (s : State) : ListPtr × State :=
  match s.cached L.kind with
  | some ptr => (ptr, s)
  | none =>
    let (ptr, s) := s.envGet cfg L.varName
    (ptr,
      { s with
        cached := Function.update s.cached L.kind (some ptr) })

/- The list that the pointer refers to. -/
def State.initList (s : State) : Option (Option (List UInt8)) :=
  let (ptr, s) := s.firstCall L cfg
  s.readList L.varName ptr

/- `env_flags_init` and `env_callback_init`. -/
def attrInit (s : State) (name : List UInt8) : Option State :=
  (s.initList L cfg).bind fun attrList =>
    let s := (s.firstCall L cfg).2
    let (ret, attributes) := lookupLists cfg.slre attrList L.static name
    if ret ≠ 0 ∨ attributes = [] then some s
    else if L.bufLen < attributes.length then none
    else
      some
        { s with
          table := modifyVar name (assignAttr L (some attributes)) s.table }

end Init

def envFlagsInit (cfg : Config) : State → List UInt8 → Option State :=
  attrInit (flagsOf cfg) cfg

def envCallbackInit (cfg : Config) : State → List UInt8 → Option State :=
  attrInit (callbacksOf cfg) cfg

----
-- Creating, Overwriting And Deleting
----

/- Whether the callback of a variable rejects the change. -/
def runCallback (cfg : Config) (callback : Option Callback) (name : List UInt8)
    (value : Option (List UInt8)) (op : EnvOp) (flag : Nat) (s : State) :
    Bool × State :=
  match callback with
  | none => (false, s)
  | some .onFlags => (false, { s with table := onFlags cfg value s.table })
  | some .onCallbacks => (false, { s with table := onCallbacks cfg value s.table })
  | some (.other hook) => (cfg.hook hook name value op flag, s)

def State.erase (s : State) (name : List UInt8) : State :=
  { s with table := s.table.erase name }

/- A new entry, with copies of its name and value. -/
def State.insert (s : State) (name value : List UInt8) :
    State :=
  { s with
    table := s.table.insert name ⟨value, s.nextId, none, 0⟩
    nextId := s.nextId + 1 }

def State.setData (s : State) (name value : List UInt8) :
    State :=
  { s with
    table := modifyVar name (fun v => { v with data := value, dataId := s.nextId }) s.table
    nextId := s.nextId + 1 }

/- The part of `hsearch_r` for an entry that is found. -/
def overwrite (cfg : Config) (s : State) (name value : List UInt8) (flag : Nat) (v : EnvVar) :
    State :=
  if cfg.changeOk name v (some value) .overwrite flag then s
  else
    let (rejected, s) := runCallback cfg v.callback name (some value) .overwrite flag s
    if rejected then s else s.setData name value

/- The part of `hsearch_r` once the new entry is set up. -/
def create (cfg : Config) (s : State) (name value : List UInt8) (flag : Nat) :
    Option State :=
  (s.table.lookup name).map fun v =>
    if cfg.changeOk name v (some value) .create flag then
      s.erase name
    else
      let (rejected, s) := runCallback cfg v.callback name (some value) .create flag s
      if rejected then s.erase name else s

/- `hsearch_r` with ENTER. -/
def hsearchEnter (cfg : Config) (s : State) (name value : List UInt8) (flag : Nat) :
    Option State :=
  match s.table.lookup name with
  | some v => some (overwrite cfg s name value flag v)
  | none =>
    (envCallbackInit cfg (s.insert name value) name).bind
      fun s => (envFlagsInit cfg s name).bind fun s => create cfg s name value flag

def hdelete (cfg : Config) (s : State) (name : List UInt8) (flag : Nat) :
    State :=
  match s.table.lookup name with
  | none => s
  | some v =>
    if cfg.changeOk name v none .delete flag then s
    else
      let (rejected, s) := runCallback cfg v.callback name none .delete flag s
      if rejected then s else s.erase name

/- The environment is ready once it was imported. -/
inductive Step where
  | enter (name value : List UInt8) (flag : Nat)
  | delete (name : List UInt8) (flag : Nat)
  | ready

def step (cfg : Config) (s : State) : Step → Option State
  | .enter name value flag => hsearchEnter cfg s name value flag
  | .delete name flag => some (hdelete cfg s name flag)
  | .ready => some { s with envReady := true }

end Uboot.Env.Attr
