import BootFirmware.Lib.Escaping
import BootFirmware.Uboot.Env.Model
import BootFirmware.Uboot.Qsort
import Mathlib.Algebra.Group.Int.Defs
import Mathlib.Algebra.Group.Nat.Defs
import Mathlib.Data.List.TakeWhile

/-
  Export of the environment variables as a text of entries
  "name=value", and import of such a text.

  A call that counts an `int` past its largest value, or that
  reads or writes outside a buffer, has no result.

  Key definitions include:
    * `hexportR`
    * `importLine` and `himportR`
-/

----
-- Flags And Characters
----

namespace Uboot.Env

def hNoclear (flag : Nat) : Bool := flag.testBit 0
def hHideDot (flag : Nat) : Bool := flag.testBit 3

def isblank (c : UInt8) : Bool := c == 32 || c == 9

/- The result is a `signed char`. -/
def strcmp : List UInt8 → List UInt8 → Int
  | [], [] => 0
  | [], d :: _ => charValue true (0 - d)
  | c :: _, [] => charValue true c
  | c :: cs, d :: ds =>
    if c = d then strcmp cs ds else charValue true (c - d)

def cmpkey (e1 e2 : Entry) : Int :=
  strcmp e1.key.bytes e2.key.bytes

/- The characters that the export escapes in a value. -/
def escaped (sep c : UInt8) : Bool :=
  c == sep || c == 92

----
-- hexport_r
----

/-
  The entries that pass 1 selects.  The function `match_entry`
  is that of the table's caller and its arguments.
-/
def exported (matchEntry : Entry → Bool) (htab : HsearchData) (flag argc : Nat) :
    List Entry :=
  (List.range' 1 htab.size).filterMap fun i =>
    match htab.table i with
    | .live used entry =>
      if ¬ 0 < toInt used then none
      else if 0 < argc ∧ matchEntry entry = false then none
      else if hHideDot flag ∧ entry.key.bytes.head? = some 46
        then none
      else some entry
    | _ => none

/- The room that pass 1 counts for an entry. -/
def entryLen (sep : UInt8) (entry : Entry) : Nat :=
  let data := entry.data.bytes
  entry.key.bytes.length + 2 + (if sep = 0 then data.length
      else data.length + data.countP (escaped sep)) + 2

def totlen (sep : UInt8) : List Entry → Nat
  | [] => 0
  | entry :: list => entryLen sep entry + totlen sep list

/- The text that pass 2 writes for an entry. -/
def entryText (sep : UInt8) (entry : Entry) : List UInt8 :=
  entry.key.bytes ++ 61 :: (Escaping.escape 92 (escaped sep) entry.data.bytes ++ [sep])

/- Write a text at the start of a buffer. -/
def writeText (res text : List UInt8) : Option (List UInt8) :=
  if res.length < text.length then none
  else some (text ++ res.drop text.length)

/- The buffer, which is NULL or the caller's, cleared. -/
def clearBuffer (resp : Option (List UInt8)) (size : Nat) :
    Option (List UInt8) :=
  match resp with
  | none => some (List.replicate size 0)
  | some res =>
    if res.length < size then none
    else some (List.replicate size 0 ++ res.drop size)

def hexportR (matchEntry : Entry → Bool) (htab : HsearchData) (sep : UInt8)
    (flag : Nat) (resp : Option (List UInt8)) (size argc : Nat) :
    Option (Int × List UInt8) :=
  -- The loop of pass 1 counts an `int` up to `size` and once
  -- more.
  if 2 ^ 31 - 1 ≤ htab.size then
    none
  else
    let list := exported matchEntry htab flag argc
    let totlen := totlen sep list
    let list := qsort cmpkey list
    if size ≠ 0 ∧ size < totlen + 1 then
      some (-1, resp.getD [])
    else
      let size := if size = 0 then totlen + 1 else size
      match clearBuffer resp size with
      | none => none
      | some res =>
        (writeText res (list.flatMap (entryText sep) ++ [0])).map fun res => ((size : Int), res)

----
-- himport_r
----

structure Config where
  envMinEntries : Nat
  envMaxEntries : Nat

/- The string at an address. -/
def CString.ofBytes (bytes : List UInt8) : CString where
  bytes := bytes.takeWhile fun c => c != 0
  no_nul h := by
    have hNe := List.mem_takeWhile_imp h
    exact absurd hNe (by decide)

/- The list of variables, with the ones found set to NULL. -/
def dropVarFromSet (name : CString) (vars : List (Option CString)) :
    Bool × List (Option CString) :=
  if vars = [] then
    (true, vars)
  else
    (vars.contains (some name), vars.map fun v => if v = some name then none else v)

/- The state of the loop: the bytes at `dp` and after. -/
structure Parse where
  dp : List UInt8
  htab : HsearchData
  localvars : List (Option CString)

inductive Line where
  | parsed (p : Parse)
  | emptyKey (htab : HsearchData)

/- The characters at which a name does not end. -/
def inName (sep c : UInt8) : Bool :=
  c != 61 && c != 0 && c != sep

/- The test for "name" and "name=". -/
def isDelete (sep : UInt8) : List UInt8 → Bool
  | [] => true
  | [c] => c == 0 || c == sep
  | c :: d :: _ => c == 0 || d == 0 || c == sep || d == sep

def deleteVar (signed : Bool) (hooks : Hooks) (flag : Nat) (name : CString) (p : Parse) :
    Option Line :=
  let (named, localvars) := dropVarFromSet name p.localvars
  if named then
    (hdeleteR signed hooks name p.htab flag).map fun r => .parsed ⟨p.dp, r.2, localvars⟩
  else
    some (.parsed ⟨p.dp, p.htab, localvars⟩)

def insertVar (signed : Bool) (hooks : Hooks) (flag : Nat) (name value : CString) (p : Parse) :
    Option Line :=
  let (named, localvars) := dropVarFromSet name p.localvars
  if named then
    (hsearchR signed hooks ⟨name, some value⟩ .enter p.htab
      flag).map fun r => .parsed ⟨p.dp, r.htab, localvars⟩
  else
    some (.parsed ⟨p.dp, p.htab, localvars⟩)

/- The value, and the bytes at the character that ends it. -/
def parseValue (sep : UInt8) (dp : List UInt8) :
    List UInt8 × List UInt8 :=
  Escaping.scan 92 (fun c => c == 0 || c == sep) (fun c => c != 0) dp

/- The body of the loop. -/
def importLine (signed : Bool) (hooks : Hooks) (sep : UInt8) (flag : Nat) (p : Parse) :
    Option Line :=
  let dp := p.dp.dropWhile isblank
  if dp.head? = some 35 then
    some (.parsed
      { p with
        dp := (dp.dropWhile fun c => c != 0 && c != sep).tail })
  else
    let name := dp.takeWhile (inName sep)
    let dp := dp.dropWhile (inName sep)
    if isDelete sep dp then
      let dp := if dp.head? = some 61 then dp.tail else dp
      deleteVar signed hooks flag (CString.ofBytes name) { p with dp := dp.tail }
    else
      let (value, dp) := parseValue sep dp.tail
      if name = [] then
        some (.emptyKey p.htab)
      else
        insertVar signed hooks flag (CString.ofBytes name)
          (CString.ofBytes value) { p with dp := dp.tail }

/-
  The loop, up to the last `after` bytes, which follow the
  text.
-/
def importLoop (signed : Bool) (hooks : Hooks) (sep : UInt8) (flag after : Nat) :
    Nat → Parse → Option (Bool × Parse)
  | 0, _ => none
  | fuel + 1, p =>
    match importLine signed hooks sep flag p with
    | none => none
    | some (.emptyKey htab) => some (false, { p with htab })
    | some (.parsed p) =>
      if after < p.dp.length ∧ p.dp.head? ≠ some 0 then
        importLoop signed hooks sep flag after fuel p
      else
        some (true, p)

/- The bytes kept of the first `left` ones, up to a NUL. -/
def dropCr : Nat → List UInt8 → List UInt8
  | 0, _ => []
  | _, [] => []
  | left + 1, c :: data =>
    if c = 0 then []
    else if c = 13 ∧ 0 < left ∧ data.head? = some 10 then
      dropCr left data
    else c :: dropCr left data

/- The data without these bytes, and the size of the text. -/
def crlfToLf (data : List UInt8) (size : Nat) :
    List UInt8 × Nat :=
  let kept := dropCr size data
  let read := (data.take size).takeWhile fun c => c != 0
  (kept ++ data.drop kept.length, size - (read.length - kept.length))

def hdestroyR (htab : HsearchData) : Option Unit :=
  if 2 ^ 31 - 1 ≤ htab.size then none else some ()

/- The table to import into. -/
def importTable (config : Config) (htab : Option HsearchData) (size flag : Nat) :
    Option HsearchData :=
  let nent := toInt (config.envMinEntries + size / 8)
  let nent :=
    if (config.envMaxEntries : Int) < nent then
      (config.envMaxEntries : Int)
    else nent
  let create := hcreateR (nent % 2 ^ 32).toNat
  match htab with
  | none => create
  | some htab =>
    if hNoclear flag then some htab
    else (hdestroyR htab).bind fun _ => create

/- The variables of the list that were not in the text. -/
def deleteRest (signed : Bool) (hooks : Hooks) (flag : Nat) :
    List (Option CString) → HsearchData → Option HsearchData
  | [], htab => some htab
  | none :: vars, htab => deleteRest signed hooks flag vars htab
  | some name :: vars, htab =>
    (hdeleteR signed hooks name htab flag).bind fun r => deleteRest signed hooks flag vars r.2

def himportR (config : Config) (signed : Bool) (hooks : Hooks)
    (htab : Option HsearchData) (env : List UInt8) (size : Nat)
    (sep : UInt8) (flag : Nat) (crlfIsLf : Bool) (vars : List CString) :
    Option (Int × HsearchData) :=
  if env.length < size then
    none
  else
    let data := env.take size ++ [0]
    match importTable config htab size flag with
    | none => none
    | some htab =>
      if size = 0 then
        some (1, htab)
      else
        let (data, size) :=
          if crlfIsLf then crlfToLf data size
          else (data, size)
        match importLoop signed hooks sep flag (data.length - size) (data.length + 1)
            ⟨data, htab, vars.map some⟩ with
        | none => none
        | some (false, p) => some (0, p.htab)
        | some (true, p) =>
          (deleteRest signed hooks flag p.localvars p.htab).map fun htab => (1, htab)

end Uboot.Env
