import BootFirmware.Uboot.Env.Transfer

/-
  The parser of `himport_r` on the bytes of its buffer, which
  it overwrites as it goes.

  A read or write outside the buffer, a string that does not
  end inside it, and a loop that does not end have no result.

  Key definitions include:
    * `peek`, `poke` and `stringAt`
    * `valueLoop` and `crlfLoop`
    * `parseLine` and `parseLoop`
    * `himportParser` and `himportInPlace`
-/

----
-- The Buffer
----

namespace Uboot.Env

def peek (data : List UInt8) (i : Nat) : Option UInt8 :=
  data[i]?

def poke (data : List UInt8) (i : Nat) (c : UInt8) :
    Option (List UInt8) :=
  if i < data.length then some (data.set i c) else none

/- The string at an index, which ends inside the buffer. -/
def stringAt (data : List UInt8) (i : Nat) :
    Option CString :=
  if 0 ∈ data.drop i then some (CString.ofBytes (data.drop i))
  else none

/- The index of the first byte on that fails a test. -/
def skipWhile (test : UInt8 → Bool) (data : List UInt8) :
    Nat → Nat → Option Nat
  | 0, _ => none
  | fuel + 1, dp =>
    match peek data dp with
    | none => none
    | some c =>
      if test c then skipWhile test data fuel (dp + 1)
      else some dp

----
-- One Line
----

/- What is done with the strings of a line. -/
inductive LineCall where
  | delete (name : CString)
  | insert (name value : CString)
deriving DecidableEq, Repr

/- The buffer, `dp`, and the calls for the lines so far. -/
structure Parser where
  data : List UInt8
  dp : Nat
  localvars : List (Option CString)
  calls : List LineCall

inductive Parsed where
  | next (s : Parser)
  | emptyKey (s : Parser)

/- The test for "name" and "name=", in the order of its reads. -/
def deletesAt (sep : UInt8) (data : List UInt8) (dp : Nat) :
    Option Bool :=
  match peek data dp with
  | none => none
  | some c =>
    if c = 0 then
      some true
    else
      (peek data (dp + 1)).map fun d => d == 0 || c == sep || d == sep

/- Terminate a name, of "name=" also at its second byte. -/
def endName (data : List UInt8) (dp : Nat) :
    Option (List UInt8 × Nat) :=
  match peek data dp with
  | none => none
  | some c =>
    if c = 61 then
      (poke data dp 0).bind fun data => (poke data (dp + 1) 0).map fun data => (data, dp + 2)
    else
      (poke data dp 0).map fun data => (data, dp + 1)

/-
  The loop over a value, which is moved down to `sp`.  A
  backslash is left out unless NUL follows it.
-/
def valueLoop (sep : UInt8) :
    Nat → List UInt8 → Nat → Nat → Option (List UInt8 × Nat × Nat)
  | 0, _, _, _ => none
  | fuel + 1, data, sp, dp =>
    match peek data dp with
    | none => none
    | some c =>
      if c = 0 ∨ c = sep then
        some (data, sp, dp)
      else
        let dp' :=
          if c = 92 then
            (peek data (dp + 1)).map fun d =>
              if d = 0 then dp else dp + 1
          else
            some dp
        dp'.bind fun dp =>
          (peek data dp).bind fun c =>
            (poke data sp c).bind fun data => valueLoop sep fuel data (sp + 1) (dp + 1)

/- Call `hdelete_r` or `hsearch_r` for a name of the list. -/
def Parser.call (s : Parser) (name : CString) (call : LineCall) :
    Parser :=
  let (named, localvars) := dropVarFromSet name s.localvars
  { s with
    localvars
    calls := if named then s.calls ++ [call] else s.calls }

def deleteLine (s : Parser) (name dp : Nat) :
    Option Parsed :=
  (endName s.data dp).bind fun (data, dp) =>
    (stringAt data name).map fun name =>
      .next (({ s with data, dp } : Parser).call name (.delete name))

def insertLine (sep : UInt8) (s : Parser) (name dp : Nat) :
    Option Parsed :=
  (poke s.data dp 0).bind fun data =>
    let value := dp + 1
    (valueLoop sep data.length data value value).bind
      fun (data, sp, dp) =>
        (poke data sp 0).bind fun data =>
          (peek data name).bind fun first =>
            if first = 0 then
              some (.emptyKey { s with data, dp := dp + 1 })
            else
              (stringAt data name).bind fun name =>
                (stringAt data value).map fun value =>
                  .next (({ s with data, dp := dp + 1 } : Parser).call name (.insert name value))

/- The body of the loop. -/
def parseLine (sep : UInt8) (s : Parser) :
    Option Parsed :=
  let length := s.data.length
  (skipWhile isblank s.data length s.dp).bind fun dp =>
    (peek s.data dp).bind fun c =>
      if c = 35 then
        (skipWhile (fun c => c != 0 && c != sep) s.data length
          dp).map fun dp => .next { s with dp := dp + 1 }
      else
        let name := dp
        (skipWhile (inName sep) s.data length dp).bind fun dp =>
          (deletesAt sep s.data dp).bind fun deletes =>
            if deletes then deleteLine s name dp
            else insertLine sep s name dp

----
-- All Lines
----

/- The loop, whose result is 0 where a key is empty. -/
def parseLoop (sep : UInt8) (size : Nat) :
    Nat → Parser → Option (Bool × Parser)
  | 0, _ => none
  | fuel + 1, s =>
    match parseLine sep s with
    | none => none
    | some (.emptyKey s) => some (false, s)
    | some (.next s) =>
      if s.dp < size then
        match peek s.data s.dp with
        | none => none
        | some c =>
          if c = 0 then some (true, s)
          else parseLoop sep size fuel s
      else
        some (true, s)

/- The loop that removes each CR in front of a LF. -/
def crlfLoop (size : Nat) :
    Nat → List UInt8 → Nat → Nat → Option (List UInt8 × Nat)
  | 0, _, _, _ => none
  | fuel + 1, data, dp, ignoredCrs =>
    if size ≤ dp then
      some (data, ignoredCrs)
    else
      match peek data dp with
      | none => none
      | some c =>
        if c = 0 then
          some (data, ignoredCrs)
        else
          let ignored :=
            if c = 13 ∧ dp < size - 1 then
              (peek data (dp + 1)).map fun d => d == 10
            else
              some false
          match ignored with
          | none => none
          | some true => crlfLoop size fuel data (dp + 1) (u32 (ignoredCrs + 1))
          | some false =>
            (poke data (dp - ignoredCrs) c).bind
              fun data => crlfLoop size fuel data (dp + 1) ignoredCrs

/-
  The part of `himport_r` that works on the buffer, for a
  text of the size that is given.
-/
def himportParser (env : List UInt8) (sep : UInt8) (crlfIsLf : Bool) (vars : List CString) :
    Option (Bool × Parser) :=
  let data := env ++ [0]
  let size := env.length
  let converted :=
    if crlfIsLf then
      (crlfLoop size (size + 1) data 0 0).map fun (data, ignoredCrs) => (data, size - ignoredCrs)
    else
      some (data, size)
  converted.bind fun (data, size) =>
    parseLoop sep size (data.length + 1) ⟨data, 0, vars.map some, []⟩

----
-- himport_r
----

/- The call of a line. -/
def LineCall.run (signed : Bool) (hooks : Hooks) (flag : Nat) (htab : HsearchData) :
    LineCall → Option HsearchData
  | .delete name => (hdeleteR signed hooks name htab flag).map Prod.snd
  | .insert name value =>
    (hsearchR signed hooks ⟨name, some value⟩ .enter htab flag).map Searched.htab

def runCalls (signed : Bool) (hooks : Hooks) (flag : Nat) :
    List LineCall → HsearchData → Option HsearchData
  | [], htab => some htab
  | call :: calls, htab => (call.run signed hooks flag htab).bind (runCalls signed hooks flag calls)

/-
  The whole import.  The parser takes no heed of what its
  calls return.
-/
def himportInPlace (config : Config) (signed : Bool) (hooks : Hooks)
    (htab : Option HsearchData) (env : List UInt8) (sep : UInt8)
    (flag : Nat) (crlfIsLf : Bool) (vars : List CString) :
    Option (Int × HsearchData) :=
  (importTable config htab env.length flag).bind fun htab =>
    if env.length = 0 then
      some (1, htab)
    else
      (himportParser env sep crlfIsLf vars).bind fun r =>
        (runCalls signed hooks flag r.2.calls htab).bind
          fun htab =>
            if r.1 then
              (deleteRest signed hooks flag r.2.localvars htab).map fun htab => (1, htab)
            else
              some (0, htab)

end Uboot.Env
