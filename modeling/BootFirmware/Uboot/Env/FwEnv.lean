import BootFirmware.Uboot.Env.RoundTrip

/-
  The environment as the tools for Linux read and change it:
  strings "name=value" with a NUL after each, and another
  NUL after the last one.

  A call that reads outside the data has no result.  Which
  changes of a variable are denied is decided by a function,
  which may look at the data.

  Key definitions include:
    * `envmatch` and `fwGetenv`
    * `fwPrintenv`
    * `fwEnvWrite` and `fwEnvWrites`
    * `Image` and `Listed`

  The main results are:
    * `Listed.fwGetenv_eq`
    * `Image.fwPrintenv_eq`
    * `Image.fwEnvWrites`
-/

----
-- Reading
----

namespace Uboot.Env

open List Option

/-
  The value, if a name is that of a string; equal strings
  would be read past their ends.
-/
def envmatch : List UInt8 → List UInt8 → Option (Option (List UInt8))
  | [], [] => none
  | [], d :: s2 => if d = 61 then some (some s2) else some none
  | _ :: _, [] => some none
  | c :: s1, d :: s2 =>
    if c = d then
      if c = 61 then some (some s2) else envmatch s1 s2
    else some none

/- Where a variable is: its string, and what is around it. -/
inductive Search where
  | absent
  | found (before entry rest value : List UInt8)
deriving DecidableEq, Repr

/- The loop over the strings from `env` on. -/
def searchLoop (name : List UInt8) :
    Nat → List UInt8 → List UInt8 → Option Search
  | 0, _, _ => none
  | fuel + 1, before, env =>
    if env.head? = some 0 then some .absent
    else
      let entry := env.takeWhile (· != 0)
      match env.dropWhile (· != 0) with
      | [] => none
      | _ :: rest =>
        match envmatch name entry with
        | none => none
        | some (some value) => some (.found before entry rest value)
        | some none => searchLoop name fuel (before ++ entry ++ [0]) rest

def search (name data : List UInt8) : Option Search :=
  searchLoop name (data.length + 1) [] data

def fwGetenv (name data : List UInt8) : Option (Option (List UInt8)) :=
  (search name data).map fun
    | .absent => none
    | .found _ _ _ value => some value

/- The strings, which `fw_printenv` prints. -/
def printLoop : Nat → List UInt8 → Option (List (List UInt8))
  | 0, _ => none
  | fuel + 1, env =>
    if env.head? = some 0 then some []
    else
      match env.dropWhile (· != 0) with
      | [] => none
      | _ :: rest => (printLoop fuel rest).map (env.takeWhile (· != 0) :: ·)

def fwPrintenv (data : List UInt8) : Option (List (List UInt8)) :=
  printLoop (data.length + 1) data

----
-- Writing
----

inductive Change where
  | delete (old : List UInt8)
  | overwrite (old : List UInt8)
  | create
deriving DecidableEq, Repr

/- The data, the name and the change. -/
abbrev Denied := List UInt8 → List UInt8 → Change → Bool

/- What is before the first two NULs. -/
def untilEnd : List UInt8 → Option (List UInt8)
  | c :: d :: rest =>
    if c = 0 ∧ d = 0 then some []
    else (untilEnd (d :: rest)).map (c :: ·)
  | _ => none

/- Move the strings after an entry to its place. -/
def removeEntry (before entry rest : List UInt8) : Option (List UInt8) :=
  let kept :=
    if rest.head? = some 0 then some [] else untilEnd rest
  kept.map fun kept => before ++ kept ++ [0, 0] ++ (entry ++ 0 :: rest).drop (kept.length + 2)

/- The size of the data is `ENV_SIZE`. -/
def appendEntry (name value data : List UInt8) :
    Option (Int × List UInt8) :=
  (untilEnd data).map fun strings =>
    let env :=
      if strings.length = 0 then 0 else strings.length + 1
    let text := name ++ 61 :: (value ++ [0, 0])
    let len := name.length + 2 + (value.length + 1)
    if data.length - env < len then (-1, data)
    else
      (0, data.take env ++ text ++ data.drop (env + text.length))

/- An empty value is the same as none. -/
def fwEnvWrite (denied : Denied) (name : List UInt8) (value : Option (List UInt8))
    (data : List UInt8) : Option (Int × List UInt8) :=
  let value := value.getD []
  match search name data with
  | none => none
  | some .absent =>
    if value = [] then some (0, data)
    else if denied data name .create then some (-1, data)
    else appendEntry name value data
  | some (.found before entry rest old) =>
    if value = [] then
      if denied data name (.delete old) then some (-1, data)
      else (removeEntry before entry rest).map ((0, ·))
    else if denied data name (.overwrite old) then
      some (-1, data)
    else
      (removeEntry before entry rest).bind (appendEntry name value)

/- Calls with names and values, one after the other. -/
def fwEnvWrites (denied : Denied) :
    List (CString × Option CString) → List UInt8 → Option (List UInt8)
  | [], data => some data
  | (name, value) :: calls, data =>
    (fwEnvWrite denied name.bytes (value.map CString.bytes)
      data).bind fun r => fwEnvWrites denied calls r.2

----
-- Images
----

/- A variable as the tools store it. -/
def rawLine (e : Entry) : List UInt8 :=
  e.key.bytes ++ 61 :: (e.data.bytes ++ [0])

/- The data are the variables of a list, in its order. -/
structure Image
    (data : List UInt8)
    (list : List Entry) : Prop where
  eq : ∃ rest, data = list.flatMap rawLine ++ 0 :: rest ∧ (list = [] → rest.head? = some 0)
  good : ∀ e ∈ list, 61 ∉ e.key.bytes ∧ e.data.bytes ≠ []
  distinct : list.Pairwise fun e e' => e.key ≠ e'.key

/- As an image, with values that may be empty. -/
structure Listed
    (data : List UInt8)
    (list : List Entry) : Prop where
  eq : ∃ rest, data = list.flatMap rawLine ++ 0 :: rest ∧ (list = [] → rest.head? = some 0)
  no_equals : ∀ e ∈ list, 61 ∉ e.key.bytes
  distinct : list.Pairwise fun e e' => e.key ≠ e'.key

theorem Image.listed {data : List UInt8} {list : List Entry} (hImage : Image data list) :
    Listed data list :=
  ⟨hImage.eq, fun e he => (hImage.good e he).1, hImage.distinct⟩

def notEquals (c : UInt8) : Bool := c != 61

/-
  The variable that a call stores.  Its name ends at the
  first '=', even where the call names more than that.
-/
def callKey (name : CString) : CString where
  bytes := name.bytes.takeWhile notEquals
  no_nul h := name.no_nul ((takeWhile_sublist _).subset h)

def callData (name value : CString) : CString where
  bytes := ((name.bytes ++ 61 :: value.bytes).dropWhile notEquals).tail
  no_nul h := by
    have hIn := (dropWhile_sublist _).subset (mem_of_mem_tail h)
    rcases mem_append.mp hIn with hName | hRest
    · exact name.no_nul hName
    · rcases mem_cons.mp hRest with hEquals | hValue
      · cases hEquals
      · exact value.no_nul hValue

theorem callKey_no_equals (name : CString) : 61 ∉ (callKey name).bytes := by
  intro h
  exact absurd (mem_takeWhile_imp h) (by decide)

theorem takeWhile_equals (name value : List UInt8) :
    (name ++ 61 :: value).takeWhile notEquals = name.takeWhile notEquals := by
  induction name with
  | nil => rfl
  | cons c name ih =>
    rw [cons_append]
    by_cases hc : notEquals c = true
    · rw [takeWhile_cons_of_pos hc, takeWhile_cons_of_pos hc, ih]
    · rw [takeWhile_cons_of_neg hc, takeWhile_cons_of_neg hc]

theorem dropWhile_equals (name value : List UInt8) :
    ∃ rest, (name ++ 61 :: value).dropWhile notEquals = 61 :: rest ∧ (value ≠ [] → rest ≠ []) := by
  induction name with
  | nil => exact ⟨value, rfl, id⟩
  | cons c name ih =>
    rw [cons_append]
    by_cases hc : notEquals c = true
    · rw [dropWhile_cons_of_pos hc]
      exact ih
    · have hEquals : c = 61 := by
        unfold notEquals at hc
        rw [bne_iff_ne] at hc
        exact not_not.mp hc
      rw [dropWhile_cons_of_neg hc, hEquals]
      refine ⟨_, rfl, fun _ hNil => ?_⟩
      exact absurd hNil (append_ne_nil_of_right_ne_nil _ (cons_ne_nil _ _))

theorem rawLine_call (name value : CString) :
    rawLine ⟨callKey name, callData name value⟩ = name.bytes ++ 61 :: (value.bytes ++ [0]) := by
  rcases dropWhile_equals name.bytes value.bytes with ⟨rest, hRest, -⟩
  have hSplit := takeWhile_append_dropWhile (p := notEquals)
    (l := name.bytes ++ 61 :: value.bytes)
  rw [takeWhile_equals, hRest] at hSplit
  unfold rawLine callKey callData
  dsimp only
  rw [hRest, tail_cons, ← cons_append, ← append_assoc, hSplit, append_assoc, cons_append]

theorem callData_ne_nil (name : CString) {value : CString} (hValue : value.bytes ≠ []) :
    (callData name value).bytes ≠ [] := by
  rcases dropWhile_equals name.bytes value.bytes with ⟨rest, hRest, hNe⟩
  unfold callData
  dsimp only
  rw [hRest]
  exact hNe hValue

----
-- Lines
----

theorem bytes_inj {a b : CString} (hEq : a.bytes = b.bytes) :
    a = b := by
  cases a
  cases b
  cases hEq
  rfl

theorem rawLine_string (e : Entry) :
    ∀ c ∈ e.key.bytes ++ 61 :: e.data.bytes, (c != 0) = true := by
  intro c hc
  rw [bne_iff_ne]
  rintro rfl
  rcases mem_append.mp hc with hKey | hRest
  · exact e.key.no_nul hKey
  · rcases mem_cons.mp hRest with hEquals | hData
    · cases hEquals
    · exact e.data.no_nul hData

theorem rawLine_eq (e : Entry) : rawLine e = (e.key.bytes ++ 61 :: e.data.bytes) ++ [0] := by
  unfold rawLine
  rw [append_assoc, cons_append]

section

variable (e : Entry) (rest : List UInt8)

theorem takeWhile_rawLine :
    (rawLine e ++ rest).takeWhile (· != 0) = e.key.bytes ++ 61 :: e.data.bytes := by
  rw [rawLine_eq, append_assoc, takeWhile_append_of_pos (rawLine_string e)]
  exact append_nil _

theorem dropWhile_rawLine : (rawLine e ++ rest).dropWhile (· != 0) = 0 :: rest := by
  rw [rawLine_eq, append_assoc, dropWhile_append_of_pos (rawLine_string e)]
  rfl

theorem rawLine_head : ∃ c text, rawLine e ++ rest = c :: text ∧ c ≠ 0 := by
  unfold rawLine
  cases hKey : e.key.bytes with
  | nil => exact ⟨61, _, rfl, by decide⟩
  | cons c name =>
    refine ⟨c, _, rfl, ?_⟩
    rintro rfl
    exact e.key.no_nul (hKey ▸ mem_cons_self)

theorem rawLine_head_ne : (rawLine e ++ rest).head? ≠ some 0 := by
  rcases rawLine_head e rest with ⟨c, text, hText, hc⟩
  rw [hText]
  intro hHead
  cases hHead
  exact hc rfl

end

/- A name matches the string with the same name only. -/
theorem envmatch_line
    (name : List UInt8) {key : List UInt8} (hKey : 61 ∉ key) (value : List UInt8) :
    envmatch name (key ++ 61 :: value) = some (if name.takeWhile notEquals = key then
        some value else none) := by
  induction name generalizing key with
  | nil =>
    cases key with
    | nil => rfl
    | cons d key =>
      have hd : d ≠ 61 := fun h => hKey (h ▸ mem_cons_self)
      rw [cons_append]
      unfold envmatch
      rw [if_neg hd, if_neg nofun]
  | cons c name ih =>
    by_cases hc : c = 61
    · rw [hc, takeWhile_cons_of_neg (by decide)]
      cases key with
      | nil =>
        rw [nil_append]
        unfold envmatch
        rw [if_pos rfl, if_pos rfl, if_pos rfl]
      | cons d key =>
        have hd : (61 : UInt8) ≠ d := fun h => hKey (h ▸ mem_cons_self)
        rw [cons_append]
        unfold envmatch
        rw [if_neg hd, if_neg nofun]
    · rw [takeWhile_cons_of_pos (show notEquals c = true from bne_iff_ne.mpr hc)]
      cases key with
      | nil =>
        rw [nil_append]
        unfold envmatch
        rw [if_neg hc, if_neg nofun]
      | cons d key =>
        have hKeyRest : 61 ∉ key := fun h => hKey (mem_cons_of_mem _ h)
        rw [cons_append]
        unfold envmatch
        by_cases hEq : c = d
        · rw [if_pos hEq, if_neg hc, ih hKeyRest, hEq]
          simp only [List.cons.injEq, true_and]
        · rw [if_neg hEq, if_neg fun h => hEq (List.cons.inj h).1]

----
-- Searches
----

theorem length_le_lines (list : List Entry) : list.length ≤ (list.flatMap rawLine).length := by
  induction list with
  | nil => exact Nat.zero_le _
  | cons e list ih =>
    rw [flatMap_cons, length_append, length_cons]
    have hLine : 1 ≤ (rawLine e).length := by
      unfold rawLine
      rw [length_append, length_cons]
      omega
    omega

variable {list : List Entry}

/- The loop comes to the end of the strings. -/
theorem searchLoop_absent (name : CString) (hGood : ∀ e ∈ list, 61 ∉ e.key.bytes)
    (hAbsent : ∀ e ∈ list, e.key ≠ callKey name) (fuel : Nat)
    (hFuel : list.length < fuel) (before rest : List UInt8) :
    searchLoop name.bytes fuel before (list.flatMap rawLine ++ 0 :: rest) = some .absent := by
  induction list generalizing fuel before with
  | nil =>
    cases fuel with
    | zero => omega
    | succ fuel => exact if_pos rfl
  | cons e list ih =>
    cases fuel with
    | zero => omega
    | succ fuel =>
      have hKey := hGood e mem_cons_self
      have hNe := hAbsent e mem_cons_self
      rw [length_cons] at hFuel
      rw [flatMap_cons, append_assoc]
      unfold searchLoop
      rw [if_neg (rawLine_head_ne e _)]
      rw [takeWhile_rawLine, dropWhile_rawLine]
      dsimp only
      rw [envmatch_line name.bytes hKey, if_neg fun h => hNe (bytes_inj h.symm)]
      exact ih (fun o ho => hGood o (mem_cons_of_mem _ ho))
        (fun o ho => hAbsent o (mem_cons_of_mem _ ho))
        fuel (by omega) _

theorem searchLoop_found (name : CString) {e : Entry}
    (hKey : 61 ∉ e.key.bytes) (hName : e.key = callKey name) (hGood : ∀ o ∈ list, 61 ∉ o.key.bytes)
    (hBefore : ∀ o ∈ list, o.key ≠ e.key)
    (after : List Entry) (fuel : Nat) (hFuel : list.length < fuel) (before rest : List UInt8) :
    searchLoop name.bytes fuel before ((list ++ e :: after).flatMap rawLine ++ 0 :: rest) =
      some (.found (before ++ list.flatMap rawLine) (e.key.bytes ++ 61 :: e.data.bytes)
        (after.flatMap rawLine ++ 0 :: rest)
        e.data.bytes) := by
  induction list generalizing fuel before with
  | nil =>
    cases fuel with
    | zero => omega
    | succ fuel =>
      have hSame : name.bytes.takeWhile notEquals = e.key.bytes := by
        rw [hName]
        rfl
      rw [nil_append, flatMap_cons, append_assoc]
      unfold searchLoop
      rw [if_neg (rawLine_head_ne e _)]
      rw [takeWhile_rawLine, dropWhile_rawLine]
      dsimp only
      rw [envmatch_line name.bytes hKey, if_pos hSame]
      rw [flatMap_nil, append_nil]
  | cons o list ih =>
    cases fuel with
    | zero => omega
    | succ fuel =>
      have hOther := hGood o mem_cons_self
      have hNe : name.bytes.takeWhile notEquals ≠ o.key.bytes := by
        intro hEq
        apply hBefore o mem_cons_self
        rw [hName]
        exact bytes_inj hEq.symm
      rw [length_cons] at hFuel
      rw [cons_append, flatMap_cons, append_assoc]
      unfold searchLoop
      rw [if_neg (rawLine_head_ne o _)]
      rw [takeWhile_rawLine, dropWhile_rawLine]
      dsimp only
      rw [envmatch_line name.bytes hOther, if_neg hNe]
      rw [ih (fun x hx => hGood x (mem_cons_of_mem _ hx))
        (fun x hx => hBefore x (mem_cons_of_mem _ hx))
        fuel (by omega), flatMap_cons]
      rw [rawLine_eq]
      simp only [append_assoc]

theorem printLoop_lines
    (list : List Entry) (fuel : Nat) (hFuel : list.length < fuel) (rest : List UInt8) :
    printLoop fuel (list.flatMap rawLine ++ 0 :: rest) =
      some (list.map fun e => e.key.bytes ++ 61 :: e.data.bytes) := by
  induction list generalizing fuel with
  | nil =>
    cases fuel with
    | zero => omega
    | succ fuel => exact if_pos rfl
  | cons e list ih =>
    cases fuel with
    | zero => omega
    | succ fuel =>
      rw [length_cons] at hFuel
      rw [flatMap_cons, append_assoc]
      unfold printLoop
      rw [if_neg (rawLine_head_ne e _), takeWhile_rawLine, dropWhile_rawLine]
      dsimp only
      rw [ih fuel (by omega)]
      rfl

----
-- What The Tools Report
----

/- The variables of a list. -/
def varsOf (list : List Entry)
    (key : CString) : Option CString :=
  (list.find? fun e => e.key = key).map Entry.data

section Images

variable {data : List UInt8} {list : List Entry}

theorem varsOf_eq_some_iff
    (hDistinct : list.Pairwise fun e e' => e.key ≠ e'.key) (key value : CString) :
    varsOf list key = some value ↔ ⟨key, value⟩ ∈ list := by
  unfold varsOf
  induction list with
  | nil => exact ⟨nofun, nofun⟩
  | cons e list ih =>
    rcases pairwise_cons.mp hDistinct with ⟨hApart, hRest⟩
    rw [find?_cons]
    by_cases hKey : e.key = key
    · rw [decide_eq_true hKey]
      rw [map_some, Option.some.injEq, mem_cons]
      constructor
      · intro hValue
        left
        cases e
        cases hKey
        cases hValue
        rfl
      · rintro (hEq | hMem)
        · rw [← hEq]
        · exact absurd hKey (hApart _ hMem)
    · rw [decide_eq_false hKey]
      rw [ih hRest, mem_cons]
      constructor
      · exact Or.inr
      · rintro (hEq | hMem)
        · exact absurd (congrArg Entry.key hEq).symm hKey
        · exact hMem

section

variable (hListed : Listed data list)
include hListed

theorem Listed.length_lt : list.length < data.length + 1 := by
  rcases hListed.eq with ⟨rest, rfl, -⟩
  have hLines := length_le_lines list
  rw [length_append]
  omega

/- A variable is found in the middle of the others. -/
theorem Listed.search_found
    (name : CString) {e : Entry} (hMem : e ∈ list) (hName : e.key = callKey name) :
    ∃ before after rest, list = before ++ e :: after ∧ data = list.flatMap rawLine ++ 0 :: rest ∧
        search name.bytes data =
          some (.found (before.flatMap rawLine) (e.key.bytes ++ 61 :: e.data.bytes)
            (after.flatMap rawLine ++ 0 :: rest)
            e.data.bytes) := by
  rcases append_of_mem hMem with ⟨before, after, rfl⟩
  have hLength := hListed.length_lt
  have hGood := hListed.no_equals
  rcases hListed.eq with ⟨rest, hData, -⟩
  have hBefore : ∀ o ∈ before, o.key ≠ e.key := fun o ho =>
    (pairwise_append.mp hListed.distinct).2.2 o ho e mem_cons_self
  refine ⟨before, after, rest, rfl, hData, ?_⟩
  have hFuel : before.length < data.length + 1 := by
    rw [length_append] at hLength
    omega
  have hFound := searchLoop_found name (hGood e hMem) hName
    (fun o ho => hGood o (mem_append_left _ ho))
    hBefore after (data.length + 1) hFuel [] rest
  rw [← hData] at hFound
  exact hFound

theorem Listed.search_absent (name : CString) (hAbsent : ∀ e ∈ list, e.key ≠ callKey name) :
    search name.bytes data = some .absent := by
  have hLength := hListed.length_lt
  have hGood := hListed.no_equals
  rcases hListed.eq with ⟨rest, hData, -⟩
  have hNone := searchLoop_absent name hGood hAbsent (data.length + 1) hLength [] rest
  rw [← hData] at hNone
  exact hNone

/- The value of each variable, and of nothing else. -/
theorem Listed.fwGetenv_eq (name : CString) :
    fwGetenv name.bytes data = some ((varsOf list (callKey name)).map CString.bytes) := by
  unfold fwGetenv
  cases hVar : varsOf list (callKey name) with
  | some value =>
    have hMem := (varsOf_eq_some_iff hListed.distinct (callKey name) value).mp hVar
    rcases hListed.search_found name hMem rfl with ⟨_, _, _, -, -, hSearch⟩
    rw [hSearch]
    rfl
  | none =>
    rw [hListed.search_absent name]
    · rfl
    · intro e he hEq
      have hSome := (varsOf_eq_some_iff hListed.distinct e.key e.data).mpr he
      rw [hEq, hVar] at hSome
      cases hSome

end

section

variable (hImage : Image data list)
include hImage

theorem Image.fwPrintenv_eq :
    fwPrintenv data = some (list.map fun e => e.key.bytes ++ 61 :: e.data.bytes) := by
  have hLength := hImage.listed.length_lt
  rcases hImage.eq with ⟨rest, hData, -⟩
  have hPrint := printLoop_lines list (data.length + 1) hLength rest
  rw [← hData] at hPrint
  exact hPrint

end

----
-- Changes
----

theorem untilEnd_cons {c : UInt8} (hc : c ≠ 0) (text : List UInt8) :
    untilEnd (c :: text) = (untilEnd text).map (c :: ·) := by
  cases text with
  | nil => rfl
  | cons d text =>
    conv_lhs => unfold untilEnd
    rw [if_neg fun h => hc h.1]

theorem untilEnd_string {s : List UInt8} (hs : ∀ c ∈ s, (c != 0) = true) (text : List UInt8) :
    untilEnd (s ++ text) = (untilEnd text).map (s ++ ·) := by
  induction s with
  | nil =>
    cases hText : untilEnd text with
    | none => exact hText
    | some k => exact hText
  | cons c s ih =>
    have hc := bne_iff_ne.mp (hs c mem_cons_self)
    rw [cons_append, untilEnd_cons hc, ih fun d hd => hs d (mem_cons_of_mem _ hd), Option.map_map]
    rfl

theorem untilEnd_nul {d : UInt8} (hd : d ≠ 0) (text : List UInt8) :
    untilEnd (0 :: d :: text) = (untilEnd (d :: text)).map (0 :: ·) := by
  conv_lhs => unfold untilEnd
  rw [if_neg fun h => hd h.2]

theorem untilEnd_lines (e : Entry) (list : List Entry) (rest : List UInt8) :
    ∃ kept, untilEnd ((e :: list).flatMap rawLine ++ 0 :: rest) = some kept ∧
      kept ++ [0] = (e :: list).flatMap rawLine ∧ kept ≠ [] := by
  have hNe : e.key.bytes ++ 61 :: e.data.bytes ≠ [] :=
    append_ne_nil_of_right_ne_nil _ (cons_ne_nil _ _)
  induction list generalizing e with
  | nil =>
    refine ⟨e.key.bytes ++ 61 :: e.data.bytes, ?_, ?_, hNe⟩
    · rw [flatMap_singleton, rawLine_eq, append_assoc, singleton_append,
        untilEnd_string (rawLine_string e)]
      unfold untilEnd
      rw [if_pos ⟨rfl, rfl⟩, map_some, append_nil]
    · rw [flatMap_singleton, rawLine_eq]
  | cons o list ih =>
    rcases ih o (append_ne_nil_of_right_ne_nil _
        (cons_ne_nil _ _)) with ⟨kept, hKept, hEq, -⟩
    rcases rawLine_head o (list.flatMap rawLine ++ 0 :: rest) with ⟨c, text, hText, hc⟩
    refine ⟨e.key.bytes ++ 61 :: e.data.bytes ++ 0 :: kept, ?_, ?_, ?_⟩
    · rw [flatMap_cons, rawLine_eq, append_assoc, append_assoc, untilEnd_string (rawLine_string e)]
      rw [flatMap_cons, append_assoc, hText] at hKept ⊢
      rw [singleton_append, untilEnd_nul hc, hKept]
      rfl
    · rw [flatMap_cons, rawLine_eq, ← hEq]
      simp only [append_assoc, cons_append, nil_append]
    · exact append_ne_nil_of_right_ne_nil _ (cons_ne_nil _ _)

/- What is left when the strings of an entry are removed. -/
theorem removeEntry_lines (before after : List Entry) (entry rest : List UInt8) :
    ∃ more, removeEntry (before.flatMap rawLine) entry (after.flatMap rawLine ++ 0 :: rest) =
        some ((before ++ after).flatMap rawLine ++ 0 :: more) ∧
      (before ++ after = [] → more.head? = some 0) ∧
      ((before ++ after).flatMap rawLine ++ 0 :: more).length = (before.flatMap rawLine ++ (entry ++
          0 :: (after.flatMap rawLine ++ 0 :: rest))).length := by
  cases after with
  | nil =>
    refine ⟨0 :: (entry ++ 0 :: 0 :: rest).drop 2, ?_, fun _ => rfl, ?_⟩
    · unfold removeEntry
      rw [flatMap_nil, nil_append]
      rw [if_pos (show (0 :: rest).head? = some 0 from rfl), append_nil, map_some]
      simp only [append_nil, length_nil, append_assoc, cons_append, nil_append]
    · rw [append_nil, flatMap_nil, nil_append]
      simp only [length_append, length_cons, length_drop]
      omega
  | cons o after =>
    rcases untilEnd_lines o after rest with ⟨kept, hKept, hEq, -⟩
    refine ⟨(entry ++ 0 :: ((o :: after).flatMap rawLine ++
      0 :: rest)).drop (kept.length + 2), ?_, fun hNil => ?_, ?_⟩
    · unfold removeEntry
      rw [if_neg]
      · rw [hKept, map_some, flatMap_append, ← hEq]
        simp only [append_assoc, cons_append, nil_append]
      · rw [flatMap_cons, append_assoc]
        exact rawLine_head_ne o _
    · exact absurd hNil (append_ne_nil_of_right_ne_nil _ (cons_ne_nil _ _))
    · rw [flatMap_append, ← hEq]
      simp only [length_append, length_cons, length_drop, length_nil]
      omega

theorem Listed.removeEntry {before after : List Entry} {e : Entry} {rest : List UInt8}
    (hListed : Listed data (before ++ e :: after))
    (hData : data = (before ++ e :: after).flatMap rawLine ++ 0 :: rest) :
    ∃ data', Env.removeEntry (before.flatMap rawLine) (e.key.bytes ++ 61 :: e.data.bytes)
          (after.flatMap rawLine ++ 0 :: rest) =
        some data' ∧
      Listed data' (before ++ after) ∧ data'.length = data.length := by
  rcases removeEntry_lines before after
    (e.key.bytes ++ 61 :: e.data.bytes) rest with ⟨more, hRun, hEmpty, hLength⟩
  have hRest : (before ++ after).Sublist (before ++ e :: after) :=
    (sublist_cons_self e after).append_left before
  refine ⟨_, hRun, ⟨⟨more, rfl, hEmpty⟩, fun o ho => ?_, ?_⟩, ?_⟩
  · exact hListed.no_equals o (hRest.subset ho)
  · exact hListed.distinct.sublist hRest
  · rw [hLength, hData, flatMap_append, flatMap_cons, rawLine_eq]
    simp only [append_assoc, cons_append, nil_append]

/- Whether a new string fits behind those of a list. -/
def fits (size : Nat) (name value : List UInt8)
    (list : List Entry) : Prop :=
  (list.flatMap rawLine).length + name.length + value.length + 3 ≤ size

instance (size : Nat) (name value : List UInt8) (list : List Entry) :
    Decidable (fits size name value list) :=
  inferInstanceAs (Decidable (_ ≤ _))

/- What is answered and left when a variable is appended. -/
def appendVar (name text : CString) (size : Nat)
    (list : List Entry) : Int × List Entry :=
  if fits size name.bytes text.bytes list then
    (0, list ++ [⟨callKey name, callData name text⟩])
  else (-1, list)

/- A new entry goes to the end, where there is room for it. -/
theorem Listed.appendEntry
    (hListed : Listed data list) (name value : CString) (hNew : ∀ o ∈ list, o.key ≠ callKey name) :
    ∃ data', Env.appendEntry name.bytes value.bytes data =
        some ((appendVar name value data.length list).1, data') ∧
      Listed data' (appendVar name value data.length list).2 ∧ data'.length = data.length := by
  rcases hListed.eq with ⟨rest, hData, hEmpty⟩
  have hEnd : ∃ kept, untilEnd data = some kept ∧
      (if kept.length = 0 then 0 else kept.length + 1) = (list.flatMap rawLine).length := by
    cases list with
    | nil =>
      rcases head?_eq_some_iff.mp (hEmpty rfl) with ⟨more, hMore⟩
      rw [hData, hMore]
      refine ⟨[], ?_, rfl⟩
      rw [flatMap_nil, nil_append]
      unfold untilEnd
      rw [if_pos ⟨rfl, rfl⟩]
    | cons e list =>
      rcases untilEnd_lines e list rest with ⟨kept, hKept, hEq, hNe⟩
      refine ⟨kept, by rw [hData, hKept], ?_⟩
      rw [if_neg fun h => hNe (length_eq_zero_iff.mp h), ← hEq, length_append, length_singleton]
  rcases hEnd with ⟨kept, hKept, hEnv⟩
  have hLong := congrArg List.length hData
  rw [length_append, length_cons] at hLong
  unfold Env.appendEntry appendVar
  rw [hKept, map_some]
  rw [hEnv]
  by_cases hRoom : data.length - (list.flatMap rawLine).length <
      name.bytes.length + 2 + (value.bytes.length + 1)
  · have hFull : ¬ fits data.length name.bytes value.bytes list := by
      unfold fits
      omega
    rw [if_pos hRoom, if_neg hFull]
    exact ⟨data, rfl, hListed, rfl⟩
  · have hFits : fits data.length name.bytes value.bytes list := by
      unfold fits
      omega
    rw [if_neg hRoom, if_pos hFits]
    refine ⟨_, rfl, ⟨?_, ?_, ?_⟩, ?_⟩
    · refine ⟨data.drop ((list.flatMap rawLine).length +
        (name.bytes ++ 61 :: (value.bytes ++ [0, 0])).length), ?_, fun hNil => ?_⟩
      · rw [flatMap_append, flatMap_singleton, rawLine_call,
          show data.take (list.flatMap rawLine).length =
            list.flatMap rawLine by rw [hData, take_left]]
        simp only [append_assoc, cons_append, nil_append]
      · exact absurd hNil (append_ne_nil_of_right_ne_nil _ (cons_ne_nil _ _))
    · intro o ho
      rcases mem_append.mp ho with hIn | hIn
      · exact hListed.no_equals o hIn
      · rw [mem_singleton.mp hIn]
        exact callKey_no_equals name
    · refine pairwise_append.mpr ⟨hListed.distinct, pairwise_singleton _ _, ?_⟩
      intro o ho x hx
      rw [mem_singleton.mp hx]
      exact hNew o ho
    · simp only [length_append, length_take, length_drop, length_cons, length_nil]
      omega

/- The change that a call makes, `none` if there is nothing to do. -/
def changeOf (text : List UInt8) : Option CString → Option Change
  | none => if text = [] then none else some .create
  | some old => some (if text = [] then .delete old.bytes else .overwrite old.bytes)

/- The variables other than one. -/
def others (list : List Entry) (key : CString) : List Entry :=
  list.filter fun e => e.key ≠ key

theorem others_append {before after : List Entry} {e : Entry}
    (hDistinct : (before ++ e :: after).Pairwise fun e e' => e.key ≠ e'.key) :
    others (before ++ e :: after) e.key = before ++ after ∧
      ∀ o ∈ before ++ after, o.key ≠ e.key := by
  rcases pairwise_append.mp hDistinct with ⟨-, hRest, hAcross⟩
  have hApart : ∀ o ∈ before ++ after, o.key ≠ e.key := by
    intro o ho
    rcases mem_append.mp ho with hIn | hIn
    · exact hAcross o hIn e mem_cons_self
    · exact ((pairwise_cons.mp hRest).1 o hIn).symm
  refine ⟨?_, hApart⟩
  unfold others
  rw [filter_append, filter_cons_of_neg (by simp), ← filter_append]
  exact filter_eq_self.mpr fun o ho => decide_eq_true (hApart o ho)

/- What a call answers and leaves, on lists of variables. -/
def writeVars (refused : Bool) (name text : CString) (size : Nat)
    (list : List Entry) : Int × List Entry :=
  let kept := others list (callKey name)
  if refused then (-1, list)
  else if text.bytes = [] then (0, kept)
  else appendVar name text size kept

/- Whether the change of a variable is denied. -/
def refused (denied : Denied) (name text : CString) (data : List UInt8)
    (list : List Entry) : Bool :=
  (changeOf text.bytes (varsOf list (callKey name))).any (denied data name.bytes)

theorem Listed.fwEnvWrite (hListed : Listed data list) (denied : Denied) (name text : CString) :
    ∃ data', Env.fwEnvWrite denied name.bytes (some text.bytes) data =
        some ((writeVars (refused denied name text data list) name text
          data.length list).1, data') ∧
      Listed data' (writeVars (refused denied name text data list) name text data.length list).2 ∧
      data'.length = data.length := by
  unfold Env.fwEnvWrite
  dsimp only [getD_some]
  by_cases hIn : ∃ e ∈ list, e.key = callKey name
  · rcases hIn with ⟨e, hMem, hName⟩
    have hVar : varsOf list (callKey name) = some e.data :=
      (varsOf_eq_some_iff hListed.distinct _ _).mpr (hName ▸ hMem)
    rcases hListed.search_found name hMem hName with ⟨before, after, rest, hList, hData, hSearch⟩
    subst hList
    have hOther := others_append hListed.distinct
    rcases hListed.removeEntry hData with ⟨data', hRun, hAfter, hLength⟩
    rw [hSearch]
    unfold writeVars
    rw [← hName, hOther.1]
    dsimp only
    by_cases hNil : text.bytes = []
    · have hRefused : refused denied name text data (before ++ e :: after) =
          denied data name.bytes (.delete e.data.bytes) := by
        simp [refused, hVar, changeOf, hNil]
      rw [hRefused, if_pos hNil, if_pos hNil]
      split
      · exact ⟨data, rfl, hListed, rfl⟩
      · rw [hRun]
        exact ⟨data', rfl, hAfter, hLength⟩
    · have hRefused : refused denied name text data (before ++ e :: after) =
          denied data name.bytes (.overwrite e.data.bytes) := by
        simp [refused, hVar, changeOf, hNil]
      rw [hRefused, if_neg hNil, if_neg hNil]
      split
      · exact ⟨data, rfl, hListed, rfl⟩
      · rw [hRun, bind_some, ← hLength]
        exact hAfter.appendEntry name text (hName ▸ hOther.2)
  · have hAbsent : ∀ e ∈ list, e.key ≠ callKey name :=
      fun e he hEq => hIn ⟨e, he, hEq⟩
    have hVar : varsOf list (callKey name) = none := by
      cases hVar : varsOf list (callKey name) with
      | none => rfl
      | some value =>
        have hMem := (varsOf_eq_some_iff hListed.distinct _ _).mp hVar
        exact absurd rfl (hAbsent _ hMem)
    have hOthers : others list (callKey name) = list :=
      filter_eq_self.mpr fun o ho => decide_eq_true (hAbsent o ho)
    rw [hListed.search_absent name hAbsent]
    unfold writeVars
    rw [hOthers]
    dsimp only
    by_cases hNil : text.bytes = []
    · have hRefused : refused denied name text data list = false := by
        simp [refused, hVar, changeOf, hNil]
      rw [hRefused, if_pos hNil, if_pos hNil]
      exact ⟨data, rfl, hListed, rfl⟩
    · have hRefused : refused denied name text data list = denied data name.bytes .create := by
        simp [refused, hVar, changeOf, hNil]
      rw [hRefused, if_neg hNil, if_neg hNil]
      split
      · exact ⟨data, rfl, hListed, rfl⟩
      · exact hListed.appendEntry name text hAbsent

theorem Image.fwEnvWrite
    (hImage : Image data list) (denied : Denied) (name : CString) (value : Option CString) :
    ∃ r data' list',
      Env.fwEnvWrite denied name.bytes (value.map CString.bytes) data = some (r, data') ∧
      Image data' list' ∧ data'.length = data.length := by
  have hText : ∃ text : CString, (value.map CString.bytes).getD [] = text.bytes := by
    cases value with
    | none => exact ⟨⟨[], not_mem_nil⟩, rfl⟩
    | some text => exact ⟨text, rfl⟩
  rcases hText with ⟨text, hText⟩
  rcases hImage.listed.fwEnvWrite denied name text with ⟨data', hRun, hListed, hLength⟩
  have hGood : ∀ e ∈ (writeVars (refused denied name text data list) name text
      data.length list).2, e.data.bytes ≠ [] := by
    intro e he
    have hKept : e ∈ others list (callKey name) → e.data.bytes ≠ [] :=
      fun hIn => (hImage.good e (mem_of_mem_filter hIn)).2
    unfold writeVars appendVar at he
    dsimp only at he
    split_ifs at he with hRefused hNil hFits
    · exact (hImage.good e he).2
    · exact hKept he
    · rcases mem_append.mp he with hIn | hIn
      · exact hKept hIn
      · rw [mem_singleton.mp hIn]
        exact callData_ne_nil name hNil
    · exact hKept he
  refine ⟨(writeVars (refused denied name text data list) name text data.length list).1,
    data', _, ?_, ⟨hListed.eq, fun e he => ?_, hListed.distinct⟩, hLength⟩
  · change Env.fwEnvWrite denied name.bytes (some ((value.map CString.bytes).getD [])) data = _
    rw [hText]
    exact hRun
  · exact ⟨hListed.no_equals e he, hGood e he⟩

theorem Image.fwEnvWrites
    (hImage : Image data list) (denied : Denied) (calls : List (CString × Option CString)) :
    ∃ data' list', Env.fwEnvWrites denied calls data = some data' ∧ Image data' list' ∧
      data'.length = data.length := by
  induction calls generalizing data list with
  | nil => exact ⟨data, list, rfl, hImage, rfl⟩
  | cons call calls ih =>
    rcases hImage.fwEnvWrite denied call.1 call.2 with ⟨r, data', list', hRun, hAfter, hLength⟩
    rcases ih hAfter with ⟨data'', list'', hRest, hEnd, hSame⟩
    refine ⟨data'', list'', ?_, hEnd, hSame.trans hLength⟩
    unfold Env.fwEnvWrites
    rw [hRun, bind_some]
    exact hRest

end Images

end Uboot.Env
