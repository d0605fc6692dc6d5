import BootFirmware.Uboot.Env.FwEnv

/-
  The environment that U-Boot and the tools for Linux share.

  U-Boot escapes the backslashes of the values it exports, and
  takes a backslash out before the character it quotes when it
  imports a value.  The tools do neither.

  Key definitions include:
    * `readEntry`
    * `Imports`
    * `Plain`

  The main results are:
    * `importLoop_raw`
    * `Image.imports_iff`
    * `fw_env_shares_format`
-/

----
-- Reading One String
----

namespace Uboot.Env

open List Option

variable {signed : Bool} {hooks : Hooks} {htab : HsearchData} {vars : CString → Option CString}

/- The name and the value that the import reads. -/
def readKey (key : CString) : CString where
  bytes := key.bytes.dropWhile isblank
  no_nul h := key.no_nul ((dropWhile_sublist _).subset h)

def readData (data : CString) : CString where
  bytes := Escaping.unescape 92 data.bytes
  no_nul h := data.no_nul (Escaping.mem_unescape h)

def readEntry (e : Entry) : Entry :=
  ⟨readKey e.key, readData e.data⟩

theorem dropWhile_blanks (key value : List UInt8) :
    (key ++ 61 :: value).dropWhile isblank = key.dropWhile isblank ++ 61 :: value := by
  induction key with
  | nil => rfl
  | cons c key ih =>
    rw [cons_append]
    by_cases hc : isblank c = true
    · rw [dropWhile_cons_of_pos hc, dropWhile_cons_of_pos hc, ih]
    · rw [dropWhile_cons_of_neg hc, dropWhile_cons_of_neg hc]
      rfl

theorem parseValue_raw (data : CString) (rest : List UInt8) :
    parseValue 0 (data.bytes ++ 0 :: rest) = ((readData data).bytes, 0 :: rest) := by
  refine Escaping.scan_unescape ?_ rfl rfl rest
  intro c hc
  have hNul : c ≠ 0 := by
    rintro rfl
    exact data.no_nul hc
  rw [bne_iff_ne, Bool.or_self, beq_eq_false_iff_ne]
  exact ⟨hNul, hNul⟩

/-
  A string is left out as a comment, stops the import if it
  has no name, or is entered.
-/
theorem importLine_raw (signed : Bool) (hooks : Hooks) {e : Entry}
    (hKey : 61 ∉ e.key.bytes) (hData : e.data.bytes ≠ [])
    (flag : Nat) (htab : HsearchData) (rest : List UInt8) :
    importLine signed hooks 0 flag ⟨rawLine e ++ rest, htab, []⟩ =
      if (readKey e.key).bytes.head? = some 35 then
        some (.parsed ⟨rest, htab, []⟩)
      else if (readKey e.key).bytes = [] then
        some (.emptyKey htab)
      else
        (hsearchR signed hooks ⟨readKey e.key, some (readData e.data)⟩ .enter htab
          flag).map fun r => .parsed ⟨rest, r.htab, []⟩ := by
  rcases exists_cons_of_ne_nil hData with ⟨d, text, hText⟩
  have hNul : d ≠ 0 := by
    rintro rfl
    exact e.data.no_nul (hText ▸ mem_cons_self)
  have hDp :
      (rawLine e ++ rest).dropWhile isblank =
        (readKey e.key).bytes ++ 61 :: (e.data.bytes ++ 0 :: rest) := by
    unfold rawLine
    rw [append_assoc, cons_append, dropWhile_blanks, append_assoc, singleton_append]
    rfl
  by_cases hComment : (readKey e.key).bytes.head? = some 35
  · rw [if_pos hComment]
    rcases head?_eq_some_iff.mp hComment with ⟨name, hName⟩
    have hAll : ∀ c ∈ (readKey e.key).bytes ++ 61 :: e.data.bytes, (c != 0 && c != 0) = true := by
      intro c hc
      rw [Bool.and_self, bne_iff_ne]
      rintro rfl
      rcases mem_append.mp hc with hIn | hIn
      · exact (readKey e.key).no_nul hIn
      · rcases mem_cons.mp hIn with hEquals | hIn
        · cases hEquals
        · exact e.data.no_nul hIn
    have hSkip :
        ((readKey e.key).bytes ++ 61 :: (e.data.bytes ++ 0 :: rest)).dropWhile
          (fun c => c != 0 && c != 0) = 0 :: rest := by
      rw [← cons_append, ← append_assoc, dropWhile_append_of_pos hAll]
      rfl
    unfold importLine
    rw [hDp, if_pos (by rw [hName]; rfl), hSkip]
    rfl
  · rw [if_neg hComment]
    have hNames : ∀ c ∈ (readKey e.key).bytes, inName 0 c = true := by
      intro c hc
      have hIn := (dropWhile_sublist _).subset hc
      have hEquals : c ≠ 61 := fun h => hKey (h ▸ hIn)
      have hNotNul : c ≠ 0 := fun h => e.key.no_nul (h ▸ hIn)
      unfold inName
      rw [Bool.and_eq_true, Bool.and_eq_true, bne_iff_ne, bne_iff_ne]
      exact ⟨⟨hEquals, hNotNul⟩, hNotNul⟩
    have hValue := parseValue_raw e.data rest
    rw [hText, cons_append] at hValue hDp
    rw [importLine_insert signed hooks (Or.inl rfl) hNames
      hComment hDp hNul hNul hValue, ofBytes_bytes, ofBytes_bytes]

----
-- Reading All Strings
----

/- What a table without deleted slots holds after a call. -/
theorem Kept.enter_any (hKept : Kept signed ⟨htab, vars⟩) (hAccept : hooks.Accepting)
    (hFresh : ∀ i, htab.table i ≠ .deleted) (key data : CString) (flag : Nat) :
    ∃ r vars', hsearchR signed hooks ⟨key, some data⟩ .enter htab flag = some r ∧
      Kept signed ⟨r.htab, vars'⟩ ∧ (∀ i, r.htab.table i ≠ .deleted) ∧ r.htab.size = htab.size ∧
      (∀ k v, vars' k = some v → vars k = some v ∨ k = key ∧ v = data) ∧
      (vars key = none → htab.filled < htab.size →
        vars' = Function.update vars key (some data) ∧ r.htab.filled = htab.filled + 1) := by
  have hNew : ∀ k v,
      Function.update vars key (some data) k = some v → vars k = some v ∨ k = key ∧ v = data := by
    intro k v hUpdate
    rcases update_eq_some_iff.mp hUpdate with ⟨hk, hv⟩ | ⟨-, hOld⟩
    · cases hv
      exact Or.inr ⟨hk, rfl⟩
    · exact Or.inl hOld
  cases hVar : vars key with
  | some old =>
    rcases hKept.enter_live hAccept data flag hVar with ⟨idx, hRun, hAt⟩
    refine ⟨_, _, hRun, hKept.overwrite hAt data, ?_, rfl, hNew, fun h => nomatch h⟩
    intro i
    by_cases hi : i = idx
    · rw [hi, set_self]
      exact nofun
    · rw [set_of_ne _ _ hi]
      exact hFresh i
  | none =>
    by_cases hRoom : htab.filled < htab.size
    · rcases hKept.enter_fresh hAccept hFresh hVar hRoom
        data flag with ⟨r, hRun, hAfter, hStill, hFilled, hSize⟩
      exact ⟨r, _, hRun, hAfter, hStill, hSize, hNew, fun _ _ => ⟨rfl, hFilled⟩⟩
    · have hFull : htab.filled = htab.size := Nat.le_antisymm hKept.filled_le (Nat.not_lt.mp hRoom)
      refine ⟨_, vars, hKept.enter_full hooks data flag hVar
        hFull, hKept, hFresh, rfl, fun k v h => Or.inl h, ?_⟩
      intro _ hLt
      exact absurd hLt hRoom

/- A variable comes from one of the strings. -/
def ReadFrom (list : List Entry)
    (key value : CString) : Prop :=
  ∃ e ∈ list,
    readKey e.key = key ∧ readData e.data = value ∧ key.bytes ≠ [] ∧ key.bytes.head? ≠ some 35

theorem GoodKey.readKey {key : CString} (hGood : GoodKey 0 key) :
    Env.readKey key = key := by
  apply bytes_inj
  unfold Env.readKey
  dsimp only
  rcases exists_cons_of_ne_nil hGood.nonempty with ⟨c, name, hName⟩
  have hFirst := hGood.first c (by rw [hName]; rfl)
  rw [hName, dropWhile_cons_of_neg (Bool.eq_false_iff.mp hFirst.1)]

theorem GoodKey.not_comment {key : CString} (hGood : GoodKey 0 key) :
    key.bytes.head? ≠ some 35 := fun hHead =>
  (hGood.first 35 hHead).2 rfl

/- One string, and the table after it. -/
theorem Kept.importLine_raw (hKept : Kept signed ⟨htab, vars⟩) (hAccept : hooks.Accepting)
    (hFresh : ∀ i, htab.table i ≠ .deleted) {e : Entry}
    (hKey : 61 ∉ e.key.bytes) (hData : e.data.bytes ≠ []) (flag : Nat) (rest : List UInt8) :
    (importLine signed hooks 0 flag ⟨rawLine e ++ rest, htab, []⟩ = some (.emptyKey htab) ∧
      ¬ GoodKey 0 e.key) ∨
    ∃ htab' vars', importLine signed hooks 0 flag ⟨rawLine e ++ rest, htab, []⟩ =
        some (.parsed ⟨rest, htab', []⟩) ∧
      Kept signed ⟨htab', vars'⟩ ∧ (∀ i, htab'.table i ≠ .deleted) ∧ htab'.size = htab.size ∧
      (∀ k v, vars' k = some v → vars k = some v ∨ ReadFrom [e] k v) ∧
      (GoodKey 0 e.key → vars e.key = none → htab.filled < htab.size →
        vars' = Function.update vars e.key (some (readData e.data)) ∧
        htab'.filled = htab.filled + 1) := by
  rw [Env.importLine_raw signed hooks hKey hData]
  by_cases hComment : (readKey e.key).bytes.head? = some 35
  · right
    rw [if_pos hComment]
    refine ⟨htab, vars, rfl, hKept, hFresh, rfl, fun k v h => Or.inl h, fun hGood => ?_⟩
    rw [hGood.readKey] at hComment
    exact absurd hComment hGood.not_comment
  · rw [if_neg hComment]
    by_cases hEmpty : (readKey e.key).bytes = []
    · left
      rw [if_pos hEmpty]
      refine ⟨rfl, fun hGood => ?_⟩
      rw [hGood.readKey] at hEmpty
      exact hGood.nonempty hEmpty
    · right
      rw [if_neg hEmpty]
      rcases hKept.enter_any hAccept hFresh (readKey e.key) (readData e.data) flag with
        ⟨r, vars', hRun, hAfter, hStill, hSize, hFrom, hRoom⟩
      rw [hRun]
      refine ⟨r.htab, vars', rfl, hAfter, hStill, hSize, ?_, fun hGood => ?_⟩
      · intro k v hv
        rcases hFrom k v hv with hOld | ⟨rfl, rfl⟩
        · exact Or.inl hOld
        · exact Or.inr ⟨e, mem_cons_self, rfl, rfl, hEmpty, hComment⟩
      · rw [hGood.readKey] at hRoom
        exact hRoom

theorem ReadFrom.mono {list list' : List Entry} (hSub : ∀ e ∈ list, e ∈ list') {key value : CString}
    (hRead : ReadFrom list key value) :
    ReadFrom list' key value := by
  rcases hRead with ⟨e, he, hRest⟩
  exact ⟨e, hSub e he, hRest⟩

/-
  The import of strings leaves variables that come from them;
  where all names are good, it enters all that there is room
  for.
-/
theorem importLoop_raw (hAccept : hooks.Accepting) (flag : Nat) {after : Nat} {last : List UInt8}
    (hAfter : after ≤ last.length) (hLast : last.head? = some 0) {entry : Entry} {list : List Entry}
    (hStrings : ∀ e ∈ entry :: list, 61 ∉ e.key.bytes ∧ e.data.bytes ≠ [])
    (hKept : Kept signed ⟨htab, vars⟩) (hFresh : ∀ i, htab.table i ≠ .deleted) (fuel : Nat)
    (hFuel : list.length < fuel) :
    ∃ ok p vars', importLoop signed hooks 0 flag after fuel
        ⟨(entry :: list).flatMap rawLine ++ last, htab, []⟩ = some (ok, p) ∧
      p.localvars = [] ∧ p.htab.size = htab.size ∧ Kept signed ⟨p.htab, vars'⟩ ∧
      (∀ k v, vars' k = some v → vars k = some v ∨ ReadFrom (entry :: list) k v) ∧
      ((∀ e ∈ entry :: list, GoodKey 0 e.key) →
        ((entry :: list).Pairwise fun e e' => e.key ≠ e'.key) →
        (∀ e ∈ entry :: list, vars e.key = none) →
        htab.filled + list.length < htab.size → ok = true ∧
          WithEntries vars vars' ((entry :: list).map readEntry)) := by
  induction list generalizing entry htab vars fuel with
  | nil =>
    cases fuel with
    | zero => omega
    | succ fuel =>
      have hString := hStrings entry mem_cons_self
      unfold importLoop
      rw [flatMap_singleton]
      rcases hKept.importLine_raw hAccept hFresh hString.1 hString.2 flag last with ⟨hLine, hBad⟩ |
        ⟨htab', vars', hLine, hNext, -, hSize, hFrom, hEntered⟩
      · rw [hLine]
        exact ⟨_, _, vars, rfl, rfl, rfl, hKept,
          fun k v h => Or.inl h, fun hGood => absurd (hGood entry mem_cons_self) hBad⟩
      · rw [hLine]
        dsimp only
        rw [if_neg fun h => h.2 hLast]
        refine ⟨_, _, vars', rfl, rfl, hSize, hNext, hFrom, ?_⟩
        intro hGood _ hNew hRoom
        have hKey := hGood entry mem_cons_self
        have hVars := (hEntered hKey (hNew entry mem_cons_self) hRoom).1
        refine ⟨rfl, ?_⟩
        have hSame : (readEntry entry).key = entry.key := hKey.readKey
        rw [map_singleton]
        refine WithEntries.cons ?_ ?_
        · rw [hSame]
          exact hNew entry mem_cons_self
        · rw [hSame, hVars]
          intro k v
          exact (or_iff_left not_mem_nil).symm
  | cons next list ih =>
    cases fuel with
    | zero => omega
    | succ fuel =>
      have hString := hStrings entry mem_cons_self
      rw [length_cons] at hFuel
      unfold importLoop
      rw [flatMap_cons, append_assoc]
      rcases hKept.importLine_raw hAccept hFresh hString.1 hString.2 flag
          ((next :: list).flatMap rawLine ++ last) with
        ⟨hLine, hBad⟩ |
        ⟨htab', vars', hLine, hNext, hStill, hSize, hFrom, hEntered⟩
      · rw [hLine]
        exact ⟨_, _, vars, rfl, rfl, rfl, hKept,
          fun k v h => Or.inl h, fun hGood => absurd (hGood entry mem_cons_self) hBad⟩
      · rw [hLine]
        dsimp only
        have hMore : after < ((next :: list).flatMap rawLine ++ last).length ∧
            ((next :: list).flatMap rawLine ++ last).head? ≠ some 0 := by
          rw [flatMap_cons, append_assoc]
          refine ⟨?_, rawLine_head_ne next _⟩
          unfold rawLine
          simp only [length_append, length_cons]
          omega
        rw [if_pos hMore]
        rcases ih
            (fun e he => hStrings e (mem_cons_of_mem _ he))
            hNext hStill fuel (by omega) with
          ⟨ok, p, vars'', hRun, hNone, hSame, hEnd, hRead, hWith⟩
        refine ⟨ok, p, vars'', hRun, hNone, hSame.trans hSize, hEnd, ?_, ?_⟩
        · intro k v hv
          rcases hRead k v hv with hOld | hIn
          · rcases hFrom k v hOld with hFirst | hIn
            · exact Or.inl hFirst
            · refine Or.inr (hIn.mono fun e he => ?_)
              rw [mem_singleton.mp he]
              exact mem_cons_self
          · exact Or.inr (hIn.mono fun e he => mem_cons_of_mem _ he)
        · intro hGood hDistinct hNew hRoom
          have hKey := hGood entry mem_cons_self
          have hApart := pairwise_cons.mp hDistinct
          rw [length_cons] at hRoom
          rcases hEntered hKey (hNew entry mem_cons_self) (by omega) with ⟨rfl, hFilled⟩
          have hSameKey : (readEntry entry).key = entry.key := hKey.readKey
          rcases hWith
              (fun e he => hGood e (mem_cons_of_mem _ he))
              hApart.2
              (fun e he => by
                rw [Function.update_of_ne (hApart.1 e he).symm]
                exact hNew e (mem_cons_of_mem _ he))
              (by omega) with ⟨hOk, hEntries⟩
          refine ⟨hOk, ?_⟩
          rw [map_cons]
          refine WithEntries.cons ?_ ?_
          · rw [hSameKey]
            exact hNew entry mem_cons_self
          · rw [hSameKey]
            exact hEntries

----
-- The Import Of An Image
----

section Images

variable {data : List UInt8} {list : List Entry} {old : Option HsearchData}

theorem Image.himportR (hImage : Image data list) (config : Config) (signed : Bool)
    (hAccept : hooks.Accepting) (hOld : Destroyed old) :
    ∃ new ret htab' vars', importTable config old data.length 0 = some ⟨fun _ => .free, new, 0⟩ ∧
      Env.himportR config signed hooks old data data.length 0 0 false [] = some (ret, htab') ∧
      htab'.size = new ∧ Kept signed ⟨htab', vars'⟩ ∧
      (∀ k v, vars' k = some v → ReadFrom list k v) ∧ ((∀ e ∈ list, GoodKey 0 e.key) →
        list.length ≤ new → ret = 1 ∧ WithEntries (fun _ => none) vars' (list.map readEntry)) := by
  rcases importTable_destroyed config data.length
    (show hNoclear 0 = false from rfl) hOld with ⟨new, hTable, hSize⟩
  have hKept : Kept signed ⟨⟨fun _ => .free, new, 0⟩, fun _ => none⟩ := Kept.created hSize
  rcases hImage.eq with ⟨rest, hData, hEmpty⟩
  have hLong := hImage.listed.length_lt
  have hPos : data.length ≠ 0 := by
    rw [hData, length_append, length_cons]
    omega
  have hAfter : (data ++ [0]).length - data.length = 1 := by
    rw [length_append, length_singleton]
    omega
  have hLoop : ∃ ok p vars', importLoop signed hooks 0 0 1 ((data ++ [0]).length + 1)
        ⟨data ++ [0], ⟨fun _ => .free, new, 0⟩, []⟩ = some (ok, p) ∧
      p.localvars = [] ∧ p.htab.size = new ∧ Kept signed ⟨p.htab, vars'⟩ ∧
      (∀ k v, vars' k = some v → ReadFrom list k v) ∧ ((∀ e ∈ list, GoodKey 0 e.key) →
        list.length ≤ new → ok = true ∧
          WithEntries (fun _ => none) vars' (list.map readEntry)) := by
    cases list with
    | nil =>
      rcases head?_eq_some_iff.mp (hEmpty rfl) with ⟨more, hMore⟩
      refine ⟨true, ⟨0 :: (more ++ [0]), ⟨fun _ => .free, new, 0⟩, []⟩,
        fun _ => none, ?_, rfl, rfl, hKept, fun _ _ => nofun, fun _ _ => ⟨rfl, ?_⟩⟩
      · rw [hData, hMore, flatMap_nil, nil_append, cons_append]
        exact importLoop_empty hooks hKept rfl 0 0 1 _ rfl
      · intro k v
        exact (or_iff_left not_mem_nil).symm
    | cons entry list =>
      have hLast : (0 :: rest ++ [0]).head? = some 0 := rfl
      have hFuel : list.length < (data ++ [0]).length + 1 := by
        rw [length_cons] at hLong
        rw [length_append]
        omega
      have hRun := importLoop_raw hAccept 0
        (show 1 ≤ (0 :: rest ++ [0]).length by
          rw [length_append, length_singleton]
          omega)
        hLast hImage.good hKept (fun _ => nofun)
        ((data ++ [0]).length + 1) hFuel
      rw [← append_assoc, ← hData] at hRun
      rcases hRun with ⟨ok, p, vars', hRun, hNone, hSame, hEnd, hRead, hWith⟩
      refine ⟨ok, p, vars', hRun, hNone, hSame, hEnd, ?_, ?_⟩
      · intro k v hv
        exact (hRead k v hv).resolve_left nofun
      · intro hGood hRoom
        rw [length_cons] at hRoom
        refine hWith hGood hImage.distinct (fun _ _ => rfl) ?_
        dsimp only
        omega
  rcases hLoop with ⟨ok, p, vars', hLoop, hNone, hSame, hEnd, hRead, hWith⟩
  refine ⟨new, if ok then 1 else 0, p.htab, vars', hTable, ?_, hSame, hEnd, hRead, ?_⟩
  · unfold Env.himportR
    rw [if_neg (Nat.lt_irrefl _), take_length]
    rw [hTable]
    dsimp only
    rw [if_neg hPos, if_neg nofun]
    rw [hAfter, map_nil, hLoop]
    cases ok with
    | false => rfl
    | true =>
      dsimp only
      rw [hNone]
      rfl
  · intro hGood hRoom
    rcases hWith hGood hRoom with ⟨rfl, hEntries⟩
    exact ⟨rfl, hEntries⟩

theorem IsMap.vars_eq {vars' : CString → Option CString}
    (hMap : IsMap signed hooks ⟨htab, vars⟩) (hMap' : IsMap signed hooks ⟨htab, vars'⟩) :
    vars = vars' := by
  funext key
  rcases hMap.find ⟨key, none⟩ 0 with ⟨r, hRun, -, hValue⟩
  rcases hMap'.find ⟨key, none⟩ 0 with ⟨r', hRun', -, hValue'⟩
  rw [hRun] at hRun'
  cases hRun'
  rw [hValue] at hValue'
  refine map_injective ?_ hValue'
  intro a b hEq
  cases hEq
  rfl

/- The tools report these variables for the data. -/
def Reports (data : List UInt8)
    (vars : CString → Option CString) : Prop :=
  ∀ key, 61 ∉ key.bytes → fwGetenv key.bytes data = some ((vars key).map CString.bytes)

/-
  After the import of the data U-Boot has the variables that
  the tools report for it.
-/
def Imports (config : Config) (signed : Bool) (hooks : Hooks) (old : Option HsearchData)
    (data : List UInt8) : Prop :=
  ∃ htab vars, Env.himportR config signed hooks old data data.length 0 0 false [] = some (1, htab) ∧
    IsMap signed hooks ⟨htab, vars⟩ ∧ Reports data vars ∧ ∀ key, 61 ∈ key.bytes → vars key = none

/-
  The name of a string starts with something other than a
  blank or '#', and a backslash is at most at its end.
-/
def PlainString (s : List UInt8) : Prop :=
  (∀ c, s.head? = some c → isblank c = false ∧ c ≠ 35 ∧ c ≠ 61) ∧
  92 ∉ (s.dropWhile notEquals).tail.dropLast

/-
  All strings are of this kind, and are no more than the new
  table has slots.
-/
def Plain (config : Config) (old : Option HsearchData)
    (data : List UInt8) : Prop :=
  ∃ strings new, fwPrintenv data = some strings ∧ importTable config old data.length 0 = some new ∧
    strings.length ≤ new.size ∧ ∀ s ∈ strings, PlainString s

theorem plainString_iff {e : Entry} (hKey : 61 ∉ e.key.bytes) :
    PlainString (e.key.bytes ++ 61 :: e.data.bytes) ↔
      GoodKey 0 e.key ∧ readData e.data = e.data := by
  have hAll : ∀ c ∈ e.key.bytes, notEquals c = true :=
    fun c hc => bne_iff_ne.mpr fun h => hKey (h ▸ hc)
  have hValue : readData e.data = e.data ↔ 92 ∉ e.data.bytes.dropLast := by
    rw [← Escaping.unescape_eq_self_iff]
    exact ⟨congrArg CString.bytes, fun h => bytes_inj h⟩
  unfold PlainString
  rw [dropWhile_append_of_pos hAll, dropWhile_cons_of_neg (by decide), tail_cons, hValue]
  refine and_congr_left fun _ => ?_
  constructor
  · intro hFirst
    refine ⟨?_, hKey, e.key.no_nul, ?_⟩
    · intro hNil
      rw [hNil] at hFirst
      exact (hFirst 61 rfl).2.2 rfl
    · intro c hc
      rcases head?_eq_some_iff.mp hc with ⟨name, hName⟩
      rw [hName] at hFirst
      have hGood := hFirst c rfl
      exact ⟨hGood.1, hGood.2.1⟩
  · intro hGood c hc
    rcases exists_cons_of_ne_nil hGood.nonempty with ⟨d, name, hName⟩
    rw [hName] at hc
    cases hc
    have hHead : e.key.bytes.head? = some c := by rw [hName]; rfl
    refine ⟨(hGood.first c hHead).1, (hGood.first c hHead).2, ?_⟩
    rintro rfl
    exact hKey (hName ▸ mem_cons_self)

/- The condition under which the import agrees. -/
theorem Image.plain_iff (hImage : Image data list) (config : Config) {new : Nat}
    (hTable : importTable config old data.length 0 = some ⟨fun _ => .free, new, 0⟩) :
    Plain config old data ↔
      list.length ≤ new ∧ ∀ e ∈ list, GoodKey 0 e.key ∧ readData e.data = e.data := by
  have hPrint := hImage.fwPrintenv_eq
  constructor
  · rintro ⟨strings, htab, hStrings, hNew, hLength, hAll⟩
    rw [hPrint] at hStrings
    rw [hTable] at hNew
    cases hStrings
    cases hNew
    rw [length_map] at hLength
    refine ⟨hLength, fun e he => ?_⟩
    exact (plainString_iff (hImage.listed.no_equals e he)).mp (hAll _ (mem_map_of_mem he))
  · rintro ⟨hLength, hAll⟩
    refine ⟨_, _, hPrint, hTable, ?_, ?_⟩
    · rw [length_map]
      exact hLength
    · intro s hs
      rcases mem_map.mp hs with ⟨e, he, rfl⟩
      exact (plainString_iff (hImage.listed.no_equals e he)).mpr (hAll e he)

theorem callKey_eq {key : CString} (hKey : 61 ∉ key.bytes) :
    callKey key = key := by
  apply bytes_inj
  exact takeWhile_eq_self_iff.mpr fun c hc => bne_iff_ne.mpr fun h => hKey (h ▸ hc)

theorem ReadFrom.goodKey (hNames : ∀ e ∈ list, 61 ∉ e.key.bytes) {key value : CString}
    (hRead : ReadFrom list key value) :
    GoodKey 0 key := by
  rcases hRead with ⟨e, he, rfl, -, hNonempty, hComment⟩
  refine ⟨hNonempty, ?_, (readKey e.key).no_nul, ?_⟩
  · exact fun h => hNames e he ((dropWhile_sublist _).subset h)
  · intro c hc
    refine ⟨?_, ?_⟩
    · have hNot := head?_dropWhile_not isblank e.key.bytes
      rw [show (e.key.bytes.dropWhile isblank).head? = some c
        from hc] at hNot
      exact hNot
    · rintro rfl
      exact hComment hc

theorem Image.imports_iff (hImage : Image data list) (config : Config) (signed : Bool)
    (hAccept : hooks.Accepting) (hOld : Destroyed old) :
    Imports config signed hooks old data ↔ Plain config old data := by
  rcases hImage.himportR config signed hAccept hOld with
    ⟨new, ret, htab, vars, hTable, hRun, hSize, hKept, hRead, hWith⟩
  have hMap := hKept.isMap hAccept
  rw [hImage.plain_iff config hTable]
  constructor
  · rintro ⟨htab', vars', hRun', hMap', hSame, -⟩
    rw [hRun] at hRun'
    cases hRun'
    have hVars := hMap'.vars_eq hMap
    subst hVars
    have hLive : ∀ e ∈ list, vars' e.key = some e.data := by
      intro e he
      have hKey := hImage.listed.no_equals e he
      have hValue := hSame e.key hKey
      rw [hImage.listed.fwGetenv_eq, callKey_eq hKey,
        (varsOf_eq_some_iff hImage.distinct e.key e.data).mpr he] at hValue
      cases hVar : vars' e.key with
      | none =>
        rw [hVar] at hValue
        cases hValue
      | some value =>
        rw [hVar] at hValue
        rw [bytes_inj (Option.some.inj (Option.some.inj hValue))]
    have hGood : ∀ e ∈ list, GoodKey 0 e.key := fun e he =>
      (hRead e.key e.data (hLive e he)).goodKey hImage.listed.no_equals
    refine ⟨?_, fun e he => ⟨hGood e he, ?_⟩⟩
    · have hNodup : (list.map Entry.key).Nodup := pairwise_map.mpr hImage.distinct
      have hCard : ((list.map Entry.key).toFinset :
          Set CString).ncard ≤ (Tracked.live ⟨htab, vars'⟩).ncard := by
        refine Set.ncard_le_ncard ?_ hKept.finite
        intro key hKey
        rw [coe_toFinset, Set.mem_ofPred_eq] at hKey
        rcases mem_map.mp hKey with ⟨e, he, rfl⟩
        intro hNone
        have hSome := hLive e he
        rw [show vars' e.key = none from hNone] at hSome
        cases hSome
      rw [Set.ncard_coe_finset, toFinset_card_of_nodup hNodup, length_map, ← hKept.filled] at hCard
      exact hCard.trans (hSize ▸ hKept.filled_le)
    · rcases hRead e.key e.data (hLive e he) with ⟨o, ho, hKey, hValue, -⟩
      rw [(hGood o ho).readKey] at hKey
      have hIs : varsOf list e.key = some o.data :=
        (varsOf_eq_some_iff hImage.distinct _ _).mpr (hKey ▸ ho)
      rw [(varsOf_eq_some_iff hImage.distinct _ _).mpr he] at hIs
      exact (congrArg readData (Option.some.inj hIs)).trans hValue
  · rintro ⟨hRoom, hPlain⟩
    rcases hWith (fun e he => (hPlain e he).1) hRoom with ⟨rfl, hEntries⟩
    have hSame : list.map readEntry = list := by
      refine (map_congr_left fun e he => ?_).trans (map_id list)
      have hPlainEntry := hPlain e he
      unfold readEntry
      rw [hPlainEntry.1.readKey, hPlainEntry.2]
      rfl
    rw [hSame] at hEntries
    have hVars : ∀ key, vars key = varsOf list key := by
      intro key
      refine Option.ext fun value => ?_
      rw [hEntries key value, varsOf_eq_some_iff hImage.distinct]
      exact or_iff_right nofun
    refine ⟨htab, vars, hRun, hMap, ?_, ?_⟩
    · intro key hKey
      rw [hImage.listed.fwGetenv_eq, callKey_eq hKey, hVars]
    · intro key hKey
      cases hVar : vars key with
      | none => rfl
      | some value =>
        have hMem := (hEntries key value).mp hVar
        have hIn := hMem.resolve_left nofun
        exact absurd hKey (hImage.listed.no_equals _ hIn)

end Images

----
-- The Shared Format
----

/- A value as U-Boot stores it. -/
def escapedData (data : CString) : CString where
  bytes := Escaping.escape 92 (escaped 0) data.bytes
  no_nul h := by
    rcases Escaping.mem_escape h with hEsc | hIn
    · cases hEsc
    · exact data.no_nul hIn

def escapedEntry (e : Entry) : Entry :=
  ⟨e.key, escapedData e.data⟩

theorem escapedData_eq_iff (data : CString) :
    escapedData data = data ↔ 92 ∉ data.bytes := by
  have hPlain : escapedData data = data ↔ ∀ c ∈ data.bytes, escaped 0 c = false := by
    have hText : escapedData data = data ↔ Escaping.escape 92 (escaped 0) data.bytes = data.bytes :=
      ⟨congrArg CString.bytes, fun h => bytes_inj h⟩
    rw [hText, Escaping.escape_eq_self_iff]
  rw [hPlain]
  constructor
  · intro hAll hIn
    have hEscaped := hAll 92 hIn
    unfold escaped at hEscaped
    rw [beq_self_eq_true, Bool.or_true] at hEscaped
    cases hEscaped
  · intro hNot c hc
    unfold escaped
    rw [Bool.or_eq_false_iff, beq_eq_false_iff_ne, beq_eq_false_iff_ne]
    exact ⟨fun h => data.no_nul (h ▸ hc), fun h => hNot (h ▸ hc)⟩

section Exports

variable {matchEntry : Entry → Bool} {buf data : List UInt8}

theorem hexportR_image (hTable : IsTable htab vars)
    (hGood : ∀ key data, vars key = some data → GoodKey 0 key ∧ data.bytes ≠ [])
    (hBuf : 2 ≤ buf.length)
    (hExport :
      hexportR matchEntry htab 0 0 (some buf) buf.length 0 = some ((buf.length : Int), data)) :
    ∃ list, Image data list ∧ ∀ key, varsOf list key = (vars key).map escapedData := by
  unfold hexportR at hExport
  by_cases hHuge : 2 ^ 31 - 1 ≤ htab.size
  · rw [if_pos hHuge] at hExport
    cases hExport
  rw [if_neg hHuge] at hExport
  by_cases hLong : buf.length ≠ 0 ∧ buf.length < totlen 0 (exported matchEntry htab 0 0) + 1
  · rw [if_pos hLong] at hExport
    have hEq := congrArg Prod.fst (Option.some.inj hExport)
    omega
  rw [if_neg hLong, if_neg (show ¬ buf.length = 0 by omega)] at hExport
  unfold clearBuffer at hExport
  dsimp only at hExport
  rw [if_neg (Nat.lt_irrefl _), drop_length, append_nil] at hExport
  dsimp only at hExport
  unfold writeText at hExport
  have hMem : ∀ entry, entry ∈ exported matchEntry htab 0 0 ↔ vars entry.key = some entry.data :=
    mem_exported hTable (by omega) rfl
  have hApart : (exported matchEntry htab 0 0).Pairwise fun e e' => e.key ≠ e'.key :=
    exported_distinct hTable (by omega) rfl
  generalize exported matchEntry htab 0 0 = entries at hExport hMem hApart
  have hPerm := qsort_perm cmpkey entries
  have hText :
      (qsort cmpkey entries).flatMap (entryText 0) =
        ((qsort cmpkey entries).map escapedEntry).flatMap
          rawLine := by
    rw [flatMap_map]
    rfl
  rw [hText] at hExport
  have hDistinct : ((qsort cmpkey entries).map escapedEntry).Pairwise fun e e' => e.key ≠ e'.key :=
    pairwise_map.mpr ((hPerm.symm.pairwise_iff fun {a b} h => h.symm).mp hApart)
  have hVars : ∀ key value, ⟨key, value⟩ ∈ (qsort cmpkey entries).map escapedEntry ↔
        (vars key).map escapedData = some value := by
    intro key value
    rw [List.mem_map, map_eq_some_iff]
    constructor
    · rintro ⟨e, he, hEq⟩
      cases hEq
      exact ⟨e.data, (hMem e).mp (hPerm.mem_iff.mp he), rfl⟩
    · rintro ⟨old, hOld, rfl⟩
      exact ⟨⟨key, old⟩, hPerm.mem_iff.mpr ((hMem ⟨key, old⟩).mpr hOld), rfl⟩
  refine ⟨(qsort cmpkey entries).map escapedEntry,
    ⟨?_, ?_, hDistinct⟩, fun key => Option.ext fun value => ?_⟩
  · split at hExport
    · cases hExport
    · cases hExport
      rename_i hFits
      rw [length_append, length_replicate, length_singleton] at hFits
      refine ⟨List.replicate (buf.length -
        ((((qsort cmpkey entries).map escapedEntry).flatMap rawLine).length + 1)) 0, ?_, ?_⟩
      · rw [drop_replicate, append_assoc, length_append, length_singleton]
        rfl
      · intro hNil
        rw [hNil, flatMap_nil, length_nil]
        rcases Nat.exists_eq_succ_of_ne_zero (show buf.length - (0 + 1) ≠ 0 by omega) with ⟨n, hn⟩
        rw [hn]
        rfl
  · rintro ⟨key, value⟩ he
    rcases map_eq_some_iff.mp ((hVars key value).mp he) with ⟨old, hOld, rfl⟩
    have hEntry := hGood key old hOld
    refine ⟨hEntry.1.no_equals, fun hNil => ?_⟩
    have hLength := congrArg List.length hNil
    unfold escapedData at hLength
    rw [Escaping.length_escape] at hLength
    exact hEntry.2 (length_eq_zero_iff.mp (by
      rw [length_nil] at hLength; omega))
  · rw [varsOf_eq_some_iff hDistinct, hVars]

/-
  The tools report the exported variables if and only if no
  value has a backslash.  After any calls that write, U-Boot
  imports the variables that they report if and only if all
  strings that the calls leave are plain.
-/
theorem fw_env_shares_format
    (config : Config) (signed : Bool) (hooks : Hooks) (hAccept : hooks.Accepting)
    (denied : Denied) (matchEntry : Entry → Bool) (htab : HsearchData)
    (vars : CString → Option CString) (hTable : IsTable htab vars)
    (hGood : ∀ key data, vars key = some data → GoodKey 0 key ∧ data.bytes ≠ [])
    (buf data : List UInt8) (hBuf : 2 ≤ buf.length)
    (hExport :
      hexportR matchEntry htab 0 0 (some buf) buf.length 0 = some ((buf.length : Int), data))
    (old : Option HsearchData) (hOld : Destroyed old) :
    (Reports data vars ↔ ∀ key value, vars key = some value → 92 ∉ value.bytes) ∧
    ∀ calls : List (CString × Option CString), ∃ data', fwEnvWrites denied calls data = some data' ∧
        (Imports config signed hooks old data' ↔ Plain config old data') := by
  rcases hexportR_image hTable hGood hBuf hExport with ⟨list, hImage, hVars⟩
  have hReport : ∀ key, 61 ∉ key.bytes →
      fwGetenv key.bytes data = some (((vars key).map escapedData).map CString.bytes) := by
    intro key hKey
    rw [hImage.listed.fwGetenv_eq, callKey_eq hKey, hVars]
  refine ⟨⟨?_, ?_⟩, ?_⟩
  · intro hReports key value hValue
    have hKey := (hGood key value hValue).1.no_equals
    have hSame := hReports key hKey
    rw [hReport key hKey, hValue, map_some, map_some, map_some] at hSame
    exact (escapedData_eq_iff value).mp (bytes_inj (Option.some.inj (Option.some.inj hSame)))
  · intro hPlain key hKey
    rw [hReport key hKey]
    cases hValue : vars key with
    | none => rfl
    | some value => rw [map_some, (escapedData_eq_iff value).mpr (hPlain key value hValue)]
  · intro calls
    rcases hImage.fwEnvWrites denied calls with ⟨data', list', hRun, hAfter, -⟩
    exact ⟨data', hRun, hAfter.imports_iff config signed hAccept hOld⟩

end Exports

/- The text "a=b", "f=g", from which a is deleted. -/
theorem fw_env_shares_two_variables :
    let data : List UInt8 := [97, 61, 98, 0, 102, 61, 103, 0, 0, 0, 0, 0, 0, 0, 0, 0]
    ∃ t : Tracked, t.vars varA = some varB ∧ t.vars varF = some varG ∧ Reports data t.vars ∧
      ∃ data', fwEnvWrites (fun _ _ _ => false) [(varA, none), (varE, some varC)] data =
        some data' ∧ Imports defaultConfig false noHooks none data' := by
  intro data
  rcases TransitionSystem.exists_reachableBy (Tracked.apply false noHooks) HasFree
      ⟨⟨fun _ => .free, 5, 0⟩, fun _ => none⟩ [.enter varF varG 0, .enter varA varB 0]
      (fun t => (t.vars varA = some varB ∧ t.vars varF = some varG) ∧
        (∀ i ≤ t.htab.size, ∀ entry ∈ t.htab.entryAt i,
          (entry.key = varA ∨ entry.key = varF) ∧ entry.data.bytes ≠ [] ∧ 92 ∉ entry.data.bytes) ∧
        hexportR (fun _ => false) t.htab 0 0 (some (List.replicate 16 0)) 16 0 = some (16, data))
      (by decide +kernel)
    with ⟨t, hReach, ⟨hA, hF⟩, hEntries, hExport⟩
  have hTable := (keeps_of_hasFree hReach).2.isTable
  have hEach := hTable.of_entries (P := fun key data =>
    (key = varA ∨ key = varF) ∧ data.bytes ≠ [] ∧ 92 ∉ data.bytes) hEntries
  have hShares := fw_env_shares_format defaultConfig false noHooks noHooks_accepting
    (fun _ _ _ => false) (fun _ => false) t.htab t.vars hTable
    (fun key value h =>
      ⟨good_of_letter (by decide) (hEach key value h).1, (hEach key value h).2.1⟩) (List.replicate 16 0)
    data (by decide) hExport none (fun _ => nofun)
  refine ⟨t, hA, hF, hShares.1.mpr fun key value h => (hEach key value h).2.2, ?_⟩
  rcases hShares.2 [(varA, none), (varE, some varC)] with ⟨data', hRun, hIff⟩
  have hData : data' = [102, 61, 103, 0, 101, 61, 99, 0, 0, 0, 0, 0, 0, 0, 0, 0] :=
    Option.some.inj (hRun.symm.trans (by decide))
  have hRoom : (importTable defaultConfig none 16 0).any (fun new => 2 ≤ new.size) = true := by
    decide +kernel
  rcases (any_eq_true _ _).mp hRoom with ⟨new, hNew, hTwo⟩
  subst hData
  refine ⟨_, hRun, hIff.mpr ⟨[[102, 61, 103], [101, 61, 99]], new, by decide, hNew,
    of_decide_eq_true hTwo, fun s hs => ?_⟩⟩
  rcases mem_pair.mp hs with rfl | rfl
  · exact ⟨by rintro _ ⟨⟩; decide, by decide⟩
  · exact ⟨by rintro _ ⟨⟩; decide, by decide⟩

def backslash : CString := ⟨[92], by decide⟩

/-
  The tools report two backslashes for one, and U-Boot imports
  no backslash where the tools store one before a letter.
-/
theorem fw_env_disagrees_on_backslash : IsTable (oneVariable backslash) (oneValue backslash) ∧
    GoodKey 0 varA ∧
    hexportR (fun _ => false) (oneVariable backslash) 0 0 (some (List.replicate 8 0)) 8 0 =
      some (8, [97, 61, 92, 92, 0, 0, 0, 0]) ∧
    ¬ Reports [97, 61, 92, 92, 0, 0, 0, 0] (oneValue backslash) ∧
    hexportR (fun _ => false) (oneVariable varB) 0 0 (some (List.replicate 8 0)) 8 0 =
      some (8, [97, 61, 98, 0, 0, 0, 0, 0]) ∧
    fwEnvWrites (fun _ _ _ => false) [(varA, some backslashB)] [97, 61, 98, 0, 0, 0, 0, 0] =
      some [97, 61, 92, 98, 0, 0, 0, 0] ∧
    ¬ Imports defaultConfig false noHooks none [97, 61, 92, 98, 0, 0, 0, 0] := by
  refine ⟨oneVariable_isTable _, letter_good (by decide), by decide +kernel, ?_, by decide +kernel, by decide, ?_⟩
  · intro hReports
    have hTwo := hReports varA (by decide)
    have hOne : oneValue backslash varA = some backslash := Function.update_self _ _ _
    rw [hOne] at hTwo
    exact absurd hTwo (by decide)
  · have hImage : Image [97, 61, 92, 98, 0, 0, 0, 0] [⟨varA, backslashB⟩] := by
      refine ⟨⟨[0, 0], rfl, fun h => nomatch h⟩, ?_, pairwise_singleton _ _⟩
      intro e he
      rw [mem_singleton.mp he]
      exact ⟨by decide, by decide⟩
    have hOld : Destroyed none := fun _ => nofun
    rw [hImage.imports_iff defaultConfig false ⟨fun _ _ _ _ => rfl, fun _ _ _ _ => rfl⟩ hOld]
    rintro ⟨strings, new, hStrings, -, -, hAll⟩
    rw [hImage.fwPrintenv_eq] at hStrings
    cases hStrings
    exact (hAll _ mem_cons_self).2 (by decide)

end Uboot.Env
