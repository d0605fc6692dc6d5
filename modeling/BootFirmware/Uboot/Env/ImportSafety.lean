import BootFirmware.Uboot.Env.ImportMemory
import Mathlib.Data.List.Infix

/-
  The parser of `himport_r` stays in its buffer and ends, and
  makes the calls of the import that reads lists.

  The buffer is what lies before `dp`, which the parser may
  have overwritten, and the text from `dp` on, which it has
  not.  The text ends with the NUL behind it.

  Key definitions include:
    * `Terminated` and `At`
    * `LineTwin`

  The main results are:
    * `parseLoop_twin`
    * `himport_parser_safe`
-/

----
-- The Text And What Lies Before
----

namespace Uboot.Env

open List Option

/- A text whose last byte is NUL. -/
def Terminated (text : List UInt8) : Prop :=
  ∃ body, text = body ++ [0]

variable {text : List UInt8}

theorem Terminated.zero_mem (hText : Terminated text) :
    0 ∈ text := by
  rcases hText with ⟨body, rfl⟩
  exact mem_append_right body mem_cons_self

theorem Terminated.ne_nil (hText : Terminated text) :
    text ≠ [] :=
  ne_nil_of_mem hText.zero_mem

/- What is left of a text ends as it does. -/
theorem Terminated.of_append
    (front : List UInt8) (hText : Terminated (front ++ text)) (hNe : text ≠ []) :
    Terminated text := by
  rcases hText with ⟨body, hBody⟩
  rcases eq_nil_or_concat text with
    hNil | ⟨init, last, hLast⟩
  · exact absurd hNil hNe
  · rw [concat_eq_append] at hLast
    rw [hLast, ← append_assoc] at hBody
    have hZero := (append_inj' hBody rfl).2
    cases hZero
    exact ⟨init, hLast⟩

/- The text at an index. -/
structure At
    (data : List UInt8) (dp : Nat)
    (text : List UInt8) : Prop where
  le : dp ≤ data.length
  eq : data.drop dp = text

theorem At.length {data text : List UInt8} {dp : Nat} (hAt : At data dp text) :
    dp + text.length = data.length := by
  have hLe := hAt.le
  rw [← hAt.eq, length_drop]
  omega

theorem At.append {data pre text : List UInt8} {dp : Nat} (hAt : At data dp (pre ++ text)) :
    At data (dp + pre.length) text := by
  have hLength := hAt.length
  rw [length_append] at hLength
  refine ⟨by omega, ?_⟩
  rw [← drop_drop, hAt.eq, drop_left]

theorem At.succ {data text : List UInt8} {dp : Nat} {c : UInt8} (hAt : At data dp (c :: text)) :
    At data (dp + 1) text :=
  @At.append data [c] text dp hAt

theorem At.peek {data text : List UInt8} {dp : Nat} {c : UInt8} (hAt : At data dp (c :: text)) :
    peek data dp = some c := by
  have hHead := congrArg head? hAt.eq
  rw [head?_drop] at hHead
  exact hHead

/- A byte before the text may be overwritten. -/
theorem At.set
    {data text : List UInt8} {dp i : Nat} (hAt : At data dp text) (hLt : i < dp) (c : UInt8) :
    At (data.set i c) dp text := by
  refine ⟨by rw [length_set]; exact hAt.le, ?_⟩
  rw [drop_set_of_lt hLt]
  exact hAt.eq

variable {data : List UInt8} {i : Nat}

theorem poke_of_lt (hLt : i < data.length) (c : UInt8) :
    poke data i c = some (data.set i c) :=
  if_pos hLt

theorem takeWhile_ne_zero_append (pre text : List UInt8) :
    (pre ++ 0 :: text).takeWhile (fun c => c != 0) = pre.takeWhile fun c => c != 0 := by
  induction pre with
  | nil => rfl
  | cons c pre ih =>
    by_cases hNul : c = 0
    · rw [hNul]
      rfl
    · have hTest : (c != 0) = true := bne_iff_ne.mpr hNul
      rw [cons_append, takeWhile_cons, takeWhile_cons, hTest, if_pos rfl, if_pos rfl, ih]

/- A string ends at the first NUL. -/
theorem ofBytes_append_zero (pre text : List UInt8) :
    CString.ofBytes (pre ++ 0 :: text) = CString.ofBytes pre := by
  unfold CString.ofBytes
  congr 1
  exact takeWhile_ne_zero_append pre text

theorem stringAt_of_eq {data front pre text : List UInt8}
    (hData : data = front ++ (pre ++ 0 :: text)) (hi : front.length = i) :
    stringAt data i = some (CString.ofBytes pre) := by
  unfold stringAt
  rw [hData, drop_left' hi, if_pos (mem_append_right pre mem_cons_self), ofBytes_append_zero]

/- A loop over bytes ends at the first that fails its test. -/
theorem skipWhile_of_at
    (test : UInt8 → Bool) (hNul : test 0 = false) {data text : List UInt8} {dp fuel : Nat}
    (hAt : At data dp text) (hText : Terminated text) (hFuel : text.length ≤ fuel) :
    skipWhile test data fuel dp = some (dp + (text.takeWhile test).length) ∧
      At data (dp + (text.takeWhile test).length) (text.dropWhile test) ∧
      Terminated (text.dropWhile test) := by
  induction fuel generalizing text dp with
  | zero =>
    have hEmpty : text = [] := length_eq_zero_iff.mp (by omega)
    exact absurd hEmpty hText.ne_nil
  | succ fuel ih =>
    rcases exists_cons_of_ne_nil hText.ne_nil with ⟨c, rest, rfl⟩
    unfold skipWhile
    rw [hAt.peek]
    dsimp only
    by_cases hTest : test c = true
    · have hRest : Terminated rest := by
        refine Terminated.of_append [c] hText ?_
        rintro rfl
        have hZero := hText.zero_mem
        rw [mem_singleton] at hZero
        rw [← hZero, hNul] at hTest
        cases hTest
      rw [length_cons] at hFuel
      rcases ih hAt.succ hRest (by omega) with ⟨hRun, hThere, hEnds⟩
      rw [if_pos hTest, takeWhile_cons_of_pos hTest, dropWhile_cons_of_pos hTest, length_cons, hRun]
      have hSum :
          dp + ((rest.takeWhile test).length + 1) = dp + 1 + (rest.takeWhile test).length := by
        omega
      rw [hSum]
      exact ⟨rfl, hThere, hEnds⟩
    · rw [if_neg hTest, takeWhile_cons_of_neg hTest, dropWhile_cons_of_neg hTest]
      exact ⟨rfl, hAt, hText⟩

----
-- A Value
----

variable {sep : UInt8}

theorem parseValue_end {c : UInt8} (hEnds : c = 0 ∨ c = sep) (text : List UInt8) :
    parseValue sep (c :: text) = ([], c :: text) := by
  refine Escaping.scan_end ?_ text
  rw [Bool.or_eq_true, beq_iff_eq, beq_iff_eq]
  exact hEnds

/- A backslash in front of a byte that is not NUL. -/
theorem parseValue_escaped
    {d : UInt8} (hSep : (92 : UInt8) ≠ sep) (hd : d ≠ 0) (text : List UInt8) :
    parseValue sep (92 :: d :: text) = (d :: (parseValue sep text).1, (parseValue sep text).2) := by
  have hQuoted : (fun c : UInt8 => c != 0) d = true := bne_iff_ne.mpr hd
  refine @Escaping.scan_quoted UInt8 _ 92 _ (fun c => c != 0) d ?_ hQuoted text
  rw [Bool.or_eq_false_iff, beq_eq_false_iff_ne, beq_eq_false_iff_ne]
  exact ⟨by decide, hSep⟩

/- Any other byte. -/
theorem parseValue_plain
    {c d : UInt8} (hEnds : ¬ (c = 0 ∨ c = sep)) (hPlain : ¬ (c = 92 ∧ d ≠ 0)) (text : List UInt8) :
    parseValue sep (c :: d :: text) =
      (c :: (parseValue sep (d :: text)).1, (parseValue sep (d :: text)).2) := by
  have hTest : (c == 0 || c == sep) ≠ true := by
    rw [ne_eq, Bool.or_eq_true, beq_iff_eq, beq_iff_eq]
    exact hEnds
  unfold parseValue
  conv_lhs => unfold Escaping.scan
  rw [if_neg hTest, if_neg]
  rintro ⟨rfl, hd⟩
  exact hPlain ⟨rfl, bne_iff_ne.mp hd⟩

/- What the loop over a value leaves. -/
structure ValueRead
    (data : List UInt8) (sp dp : Nat) (value rest data' : List UInt8)
    (dp' : Nat) : Prop where
  text : At data' dp' rest
  ends : Terminated rest
  length : data'.length = data.length
  moved : sp + value.length ≤ dp'
  later : dp ≤ dp'
  value : data'.take (sp + value.length) = data.take sp ++ value

theorem take_set_succ {sp : Nat} (hLt : sp < data.length) (c : UInt8) :
    (data.set sp c).take (sp + 1) = data.take sp ++ [c] := by
  rw [take_add_one, take_set_of_le (Nat.le_refl sp), getElem?_set_self hLt, toList_some]

theorem ValueRead.cons {data value rest data' : List UInt8} {c : UInt8} {sp dp dp₁ dp' : Nat}
    (hLt : sp < data.length) (hLe : dp ≤ dp₁)
    (hRest : ValueRead (data.set sp c) (sp + 1) dp₁ value rest data' dp') :
    ValueRead data sp dp (c :: value) rest data' dp' where
  text := hRest.text
  ends := hRest.ends
  length := by
    rw [hRest.length, length_set]
  moved := by
    have hMoved := hRest.moved
    rw [length_cons]
    omega
  later := Nat.le_trans hLe hRest.later
  value := by
    have hValue := hRest.value
    rw [take_set_succ hLt] at hValue
    rw [length_cons,
      show sp + (value.length + 1) = sp + 1 + value.length by
        omega, hValue, append_assoc]
    rfl

theorem valueLoop_of_at {data text : List UInt8} {sp dp fuel : Nat}
    (hAt : At data dp text) (hText : Terminated text) (hLe : sp ≤ dp) (hFuel : text.length ≤ fuel) :
    ∃ data' dp',
      valueLoop sep fuel data sp dp = some (data', sp + (parseValue sep text).1.length, dp') ∧
      ValueRead data sp dp (parseValue sep text).1 (parseValue sep text).2 data' dp' := by
  induction fuel generalizing data text sp dp with
  | zero =>
    have hEmpty : text = [] := length_eq_zero_iff.mp (by omega)
    exact absurd hEmpty hText.ne_nil
  | succ fuel ih =>
    rcases exists_cons_of_ne_nil hText.ne_nil with ⟨c, rest, rfl⟩
    have hLength := hAt.length
    rw [length_cons] at hLength hFuel
    unfold valueLoop
    rw [hAt.peek]
    dsimp only
    by_cases hEnds : c = 0 ∨ c = sep
    · rw [if_pos hEnds, parseValue_end hEnds]
      refine ⟨data, dp, rfl, hAt, hText, rfl, hLe, Nat.le_refl dp, ?_⟩
      rw [append_nil]
      rfl
    rw [if_neg hEnds]
    have hRest : Terminated rest := by
      refine Terminated.of_append [c] hText ?_
      rintro rfl
      have hZero := hText.zero_mem
      rw [mem_singleton] at hZero
      exact hEnds (Or.inl hZero.symm)
    rcases exists_cons_of_ne_nil hRest.ne_nil with ⟨d, rest, rfl⟩
    rw [length_cons] at hLength hFuel
    by_cases hQuoted : c = 92 ∧ d ≠ 0
    · rcases hQuoted with ⟨rfl, hd⟩
      have hBehind : Terminated rest := by
        refine Terminated.of_append [d] hRest ?_
        rintro rfl
        have hZero := hRest.zero_mem
        rw [mem_singleton] at hZero
        exact hd hZero.symm
      have hThere := hAt.succ.succ.set (show sp < dp + 1 + 1 by omega) d
      rcases ih hThere hBehind
        (show sp + 1 ≤ dp + 1 + 1 by omega) (by omega) with ⟨data', dp', hRun, hRead⟩
      have hSp : sp < data.length := by omega
      rw [parseValue_escaped (fun h => hEnds (Or.inr h)) hd]
      refine ⟨data', dp', ?_, hRead.cons hSp (by omega)⟩
      rw [if_pos rfl, hAt.succ.peek, map_some, if_neg hd, bind_some, hAt.succ.peek,
        bind_some, poke_of_lt hSp, bind_some, hRun, length_cons]
      congr 3
      omega
    · have hThere := hAt.succ.set (show sp < dp + 1 by omega) c
      rcases ih hThere hRest (show sp + 1 ≤ dp + 1 by omega)
        (by rw [length_cons]; omega) with ⟨data', dp', hRun, hRead⟩
      have hSp : sp < data.length := by omega
      rw [parseValue_plain hEnds hQuoted]
      refine ⟨data', dp', ?_, hRead.cons hSp (by omega)⟩
      have hStay :
          (if c = 92 then
            (peek data (dp + 1)).map fun d =>
              if d = 0 then dp else dp + 1
          else some dp) = some dp := by
        by_cases hEsc : c = 92
        · rw [if_pos hEsc, hAt.succ.peek, map_some,
            if_pos (by
              by_contra hd
              exact hQuoted ⟨hEsc, hd⟩)]
        · exact if_neg hEsc
      rw [hStay, bind_some, hAt.peek, bind_some, poke_of_lt hSp, bind_some, hRun, length_cons]
      congr 3
      omega

----
-- A Line
----

/- The text and the calls that a line leaves. -/
structure LineRead
    (s s' : Parser) (rest : List UInt8)
    (new : List LineCall) : Prop where
  text : At s'.data s'.dp rest
  ends : rest = [] ∨ Terminated rest
  length : s'.data.length = s.data.length
  later : s.dp < s'.dp
  calls : s'.calls = s.calls ++ new

/- A line, with what the import that reads lists makes of it. -/
inductive LineTwin
    (sep : UInt8) (s : Parser)
    (text : List UInt8) : Parsed → Prop
  | next (s' : Parser) (rest : List UInt8) (new : List LineCall) : LineRead s s' rest new →
      (∀ signed hooks flag htab, importLine signed hooks sep flag ⟨text, htab, s.localvars⟩ =
          (runCalls signed hooks flag new htab).map fun htab =>
            .parsed ⟨rest, htab, s'.localvars⟩) →
      LineTwin sep s text (.next s')
  | emptyKey (s' : Parser) : s'.data.length = s.data.length → s'.calls = s.calls →
      (∀ signed hooks flag htab,
        importLine signed hooks sep flag ⟨text, htab, s.localvars⟩ = some (.emptyKey htab)) →
      LineTwin sep s text (.emptyKey s')

theorem deletesAt_of_at
    {data text : List UInt8} {dp : Nat} (hAt : At data dp text) (hText : Terminated text) :
    deletesAt sep data dp = some (isDelete sep text) := by
  rcases exists_cons_of_ne_nil hText.ne_nil with ⟨c, rest, rfl⟩
  unfold deletesAt
  rw [hAt.peek]
  dsimp only
  cases rest with
  | nil =>
    have hZero := hText.zero_mem
    rw [mem_singleton] at hZero
    rw [← hZero, if_pos rfl]
    rfl
  | cons d rest =>
    unfold isDelete
    dsimp only
    by_cases hNul : c = 0
    · rw [if_pos hNul, hNul]
      rfl
    · rw [if_neg hNul, hAt.succ.peek, map_some, beq_eq_false_iff_ne.mpr hNul, Bool.false_or]

theorem tail_ends (hText : Terminated text) :
    text.tail = [] ∨ Terminated text.tail := by
  cases text with
  | nil => exact Or.inl rfl
  | cons c rest =>
    by_cases hNil : rest = []
    · exact Or.inl hNil
    · exact Or.inr (Terminated.of_append [c] hText hNil)

theorem At.tail {data text : List UInt8} {dp : Nat} (hAt : At data dp text) (hNe : text ≠ []) :
    At data (dp + 1) text.tail := by
  cases text with
  | nil => exact absurd rfl hNe
  | cons c rest => exact hAt.succ

/- A byte is overwritten, what lies before it is not. -/
theorem set_eq_take (hLt : i < data.length) (c : UInt8) :
    data.set i c = data.take i ++ c :: data.drop (i + 1) := by
  rw [set_eq_take_append_cons_drop, if_pos hLt]

/- The name is terminated, and the rest follows. -/
theorem endName_of_at
    {data text : List UInt8} {dp : Nat} (hAt : At data dp text) (hText : Terminated text) :
    ∃ data' dp' more, endName data dp = some (data', dp') ∧ At data' dp'
        (if text.head? = some 61 then text.tail
          else text).tail ∧
      data'.length = data.length ∧ dp < dp' ∧ data' = data.take dp ++ 0 :: more := by
  rcases exists_cons_of_ne_nil hText.ne_nil with ⟨c, rest, rfl⟩
  have hLength := hAt.length
  rw [length_cons] at hLength
  have hLt : dp < data.length := by omega
  unfold endName
  rw [hAt.peek, head?_cons]
  dsimp only
  by_cases hEquals : c = 61
  · rw [hEquals, if_pos rfl, if_pos rfl]
    have hRest : rest ≠ [] := by
      rintro rfl
      have hZero := hText.zero_mem
      rw [mem_singleton, hEquals] at hZero
      cases hZero
    have hPos := length_pos_iff.mpr hRest
    have hSecond : dp + 1 < (data.set dp 0).length := by
      rw [length_set]
      omega
    refine ⟨(data.set dp 0).set (dp + 1) 0, dp + 2,
      (data.drop (dp + 1)).set 0 0, ?_, ?_, ?_, by omega, ?_⟩
    · rw [poke_of_lt hLt, bind_some, poke_of_lt hSecond]
      rfl
    · rw [tail_cons]
      exact ((hAt.succ.tail hRest).set (by omega) 0).set (by omega) 0
    · rw [length_set, length_set]
    · rw [set_eq_take hLt, set_append_right _ _ (by
        rw [length_take]; omega), length_take]
      have hIndex : dp + 1 - min dp data.length = 1 := by omega
      rw [hIndex]
      rfl
  · have hNot : ¬ some c = some (61 : UInt8) := by
      intro hEq
      exact hEquals (Option.some.inj hEq)
    rw [if_neg hEquals, if_neg hNot]
    refine ⟨data.set dp 0, dp + 1, data.drop (dp + 1), ?_, ?_,
      length_set, by omega, set_eq_take hLt 0⟩
    · rw [poke_of_lt hLt]
      rfl
    · exact hAt.succ.set (by omega) 0

theorem take_name {data nm text : List UInt8} {name : Nat} (hAt : At data name (nm ++ text)) :
    data.take (name + nm.length) = data.take name ++ nm := by
  rw [take_add, hAt.eq, take_left]

theorem length_take_name {data text : List UInt8} {name : Nat} (hAt : At data name text) :
    (data.take name).length = name := by
  rw [length_take]
  exact Nat.min_eq_left hAt.le

/- The calls for a name, if it is one of the list. -/
def newCalls (localvars : List (Option CString)) (name : CString) (call : LineCall) :
    List LineCall :=
  if (dropVarFromSet name localvars).1 then [call] else []

theorem Parser.call_calls (s : Parser) (name : CString) (call : LineCall) :
    (s.call name call).calls = s.calls ++ newCalls s.localvars name call := by
  unfold Parser.call newCalls
  dsimp only
  split
  · rfl
  · exact (append_nil s.calls).symm

theorem runCalls_delete (signed : Bool) (hooks : Hooks) (flag : Nat) (name : CString) (p : Parse) :
    deleteVar signed hooks flag name p = (runCalls signed hooks flag
        (newCalls p.localvars name (.delete name)) p.htab).map
          fun htab => .parsed ⟨p.dp, htab, (dropVarFromSet name p.localvars).2⟩ := by
  unfold deleteVar newCalls
  dsimp only
  split
  · unfold runCalls LineCall.run
    dsimp only
    cases hdeleteR signed hooks name p.htab flag with
    | none => rfl
    | some r => rfl
  · rfl

theorem runCalls_insert
    (signed : Bool) (hooks : Hooks) (flag : Nat) (name value : CString) (p : Parse) :
    insertVar signed hooks flag name value p =
      (runCalls signed hooks flag (newCalls p.localvars name (.insert name value))
        p.htab).map fun htab => .parsed ⟨p.dp, htab, (dropVarFromSet name p.localvars).2⟩ := by
  unfold insertVar newCalls
  dsimp only
  split
  · unfold runCalls LineCall.run
    dsimp only
    cases hsearchR signed hooks ⟨name, some value⟩ .enter p.htab flag with
    | none => rfl
    | some r => rfl
  · rfl

variable {s : Parser} {nm text : List UInt8} {name : Nat}

theorem deleteLine_twin
    (hAt : At s.data name (nm ++ text)) (hText : Terminated text) (hLater : s.dp ≤ name) :
    ∃ s', deleteLine s name (name + nm.length) = some (.next s') ∧
      LineRead s s' (if text.head? = some 61 then text.tail else text).tail
        (newCalls s.localvars (CString.ofBytes nm) (.delete (CString.ofBytes nm))) ∧
      s'.localvars = (dropVarFromSet (CString.ofBytes nm) s.localvars).2 := by
  rcases endName_of_at hAt.append hText with ⟨data', dp', more, hRun, hThere, hLength, hLt, hData⟩
  rw [take_name hAt, append_assoc] at hData
  have hName := stringAt_of_eq hData (length_take_name hAt)
  refine ⟨({ s with data := data', dp := dp' } :
    Parser).call (CString.ofBytes nm) (.delete (CString.ofBytes nm)), ?_, ?_, rfl⟩
  · unfold deleteLine
    rw [hRun, bind_some]
    dsimp only
    rw [hName]
    rfl
  · refine ⟨hThere, ?_, hLength, ?_, Parser.call_calls ..⟩
    · split
      · rcases tail_ends hText with hNil | hTail
        · rw [hNil]
          exact Or.inl rfl
        · exact tail_ends hTail
      · exact tail_ends hText
    · exact Nat.lt_of_le_of_lt (Nat.le_trans hLater (Nat.le_add_right _ _)) hLt

/- What the import that reads lists does with a value. -/
def insertText
    (signed : Bool) (hooks : Hooks) (sep : UInt8) (flag : Nat) (nm : List UInt8) (p : Parse) :
    Option Line :=
  if nm = [] then
    some (.emptyKey p.htab)
  else
    insertVar signed hooks flag (CString.ofBytes nm) (CString.ofBytes (parseValue sep p.dp).1)
      { p with dp := (parseValue sep p.dp).2.tail }

theorem insertLine_twin
    {c : UInt8} (hAt : At s.data name (nm ++ c :: text)) (hText : Terminated text)
    (hName : 0 ∉ nm) (hLater : s.dp ≤ name) :
    (nm = [] ∧ ∃ s', insertLine sep s name (name + nm.length) = some (.emptyKey s') ∧
      s'.data.length = s.data.length ∧ s'.calls = s.calls) ∨
    (nm ≠ [] ∧ ∃ s', insertLine sep s name (name + nm.length) = some (.next s') ∧
      LineRead s s' (parseValue sep text).2.tail
        (newCalls s.localvars (CString.ofBytes nm)
          (.insert (CString.ofBytes nm) (CString.ofBytes (parseValue sep text).1))) ∧
      s'.localvars = (dropVarFromSet (CString.ofBytes nm) s.localvars).2) := by
  have hEnd := hAt.append
  have hLength := hEnd.length
  rw [length_cons] at hLength
  have hLt : name + nm.length < s.data.length := by omega
  have hValueAt := hEnd.succ.set (show name + nm.length < name + nm.length + 1 by omega) 0
  rcases @valueLoop_of_at sep _ _ _ _ (s.data.set (name + nm.length) 0).length hValueAt hText
    (Nat.le_refl _) (by rw [length_set]; omega) with ⟨data, dp, hRun, hRead⟩
  generalize (parseValue sep text).1 = value at hRun hRead ⊢
  generalize (parseValue sep text).2 = rest at hRead ⊢
  have hLengths := hRead.text.length
  have hSame := hRead.length
  rw [length_set] at hSame
  have hPos := length_pos_iff.mpr hRead.ends.ne_nil
  have hMoved := hRead.moved
  have hLess : name + nm.length + 1 + value.length < data.length := by omega
  have hRest := (hRead.text.tail hRead.ends.ne_nil).set
    (show name + nm.length + 1 + value.length < dp + 1 by omega) 0
  -- The buffer up to the end of the value.
  have hTaken := hRead.value
  rw [take_set_succ hLt, take_name hAt] at hTaken
  have hData := set_eq_take hLess 0
  rw [hTaken] at hData
  have hAtName :
      data.set (name + nm.length + 1 + value.length) 0 =
        s.data.take name ++ (nm ++ 0 :: (value ++ 0 ::
          data.drop (name + nm.length + 1 + value.length + 1))) := by
    rw [hData]
    simp only [append_assoc, cons_append, nil_append]
  have hAtValue :
      data.set (name + nm.length + 1 + value.length) 0 =
        (s.data.take name ++ nm ++ [0]) ++ (value ++ 0 ::
          data.drop (name + nm.length + 1 + value.length + 1)) := by
    rw [hData]
    simp only [append_assoc]
  have hFront := length_take_name hAt
  have hFirst :
      peek (data.set (name + nm.length + 1 + value.length) 0) name = some (nm.headD 0) := by
    unfold peek
    rw [hAtName, getElem?_append_right (by omega), hFront, Nat.sub_self]
    cases nm with
    | nil => rfl
    | cons d nm => rfl
  unfold insertLine
  rw [poke_of_lt hLt, bind_some]
  dsimp only
  rw [hRun, bind_some]
  rw [poke_of_lt hLess, bind_some, hFirst, bind_some]
  cases nm with
  | nil =>
    refine Or.inl ⟨rfl, _, if_pos rfl, ?_, rfl⟩
    rw [length_set, hSame]
  | cons d nm =>
    have hNe : ¬ (d :: nm).headD 0 = 0 := by
      intro hZero
      have hd : d = 0 := hZero
      exact hName (hd ▸ mem_cons_self)
    refine Or.inr ⟨cons_ne_nil d nm, ({ s with
          data := data.set (name + (d :: nm).length + 1 + value.length) 0
          dp := dp + 1 } : Parser).call
        (CString.ofBytes (d :: nm))
        (.insert (CString.ofBytes (d :: nm)) (CString.ofBytes value)), ?_, ?_, ?_⟩
    · rw [if_neg hNe, stringAt_of_eq hAtName hFront, bind_some, stringAt_of_eq hAtValue ?_]
      · rfl
      · rw [length_append, length_append, hFront, length_singleton]
    · refine ⟨hRest, tail_ends hRead.ends, ?_, ?_, Parser.call_calls ..⟩
      · exact (length_set ..).trans hSame
      · show s.dp < dp + 1
        omega
    · rfl

theorem inName_ne_zero : 0 ∉ text.takeWhile (inName sep) := by
  intro hZero
  have hTest := mem_takeWhile_imp hZero
  unfold inName at hTest
  rw [show ((0 : UInt8) != 0) = false from rfl, Bool.and_false, Bool.false_and] at hTest
  cases hTest

/- The line that is read in place is the one read from lists. -/
theorem parseLine_twin (sep : UInt8) (hAt : At s.data s.dp text) (hText : Terminated text) :
    ∃ out, parseLine sep s = some out ∧ LineTwin sep s text out := by
  have hLength := hAt.length
  rcases skipWhile_of_at isblank rfl hAt hText
    (show text.length ≤ s.data.length by omega) with ⟨hBlanks, hAt', hText'⟩
  generalize hStart : s.dp + (text.takeWhile isblank).length = start at hBlanks hAt'
  generalize hLine : text.dropWhile isblank = line at hAt' hText'
  have hLater : s.dp ≤ start := by omega
  have hLength' := hAt'.length
  rcases exists_cons_of_ne_nil hText'.ne_nil with ⟨c, rest, hCons⟩
  have hPeek : peek s.data start = some c := by
    rw [hCons] at hAt'
    exact hAt'.peek
  have hHead : line.head? = some c := by
    rw [hCons]
    rfl
  unfold parseLine
  dsimp only
  rw [hBlanks, bind_some, hPeek, bind_some]
  by_cases hComment : c = 35
  · have hEnd : ((0 : UInt8) != 0 && (0 : UInt8) != sep) = false := rfl
    rcases skipWhile_of_at (fun c => c != 0 && c != sep) hEnd hAt' hText'
      (show line.length ≤ s.data.length by omega) with ⟨hRun, hThere, hEnds⟩
    rw [if_pos hComment, hRun]
    refine ⟨_, rfl, .next _ _ [] ⟨hThere.tail hEnds.ne_nil,
      tail_ends hEnds, rfl, ?_, (append_nil _).symm⟩ ?_⟩
    · dsimp only
      omega
    · intro signed hooks flag htab
      unfold importLine
      dsimp only
      rw [hLine, hHead, hComment, if_pos rfl]
      rfl
  rw [if_neg hComment]
  have hNul : inName sep 0 = false := by
    unfold inName
    rw [show ((0 : UInt8) != 0) = false from rfl, Bool.and_false, Bool.false_and]
  rcases skipWhile_of_at (inName sep) hNul hAt' hText'
    (show line.length ≤ s.data.length by omega) with ⟨hRun, hThere, hEnds⟩
  rw [hRun, bind_some, deletesAt_of_at hThere hEnds, bind_some]
  have hSplit : line.takeWhile (inName sep) ++ line.dropWhile (inName sep) = line :=
    takeWhile_append_dropWhile
  have hNm : 0 ∉ line.takeWhile (inName sep) := inName_ne_zero
  generalize hName : line.takeWhile (inName sep) = nm at hThere hSplit hNm ⊢
  generalize hTail : line.dropWhile (inName sep) = behind at hThere hEnds hSplit ⊢
  rw [← hSplit] at hAt'
  have hNotComment : line.head? ≠ some 35 := by
    rw [hHead]
    intro hEq
    exact hComment (Option.some.inj hEq)
  cases hDelete : isDelete sep behind with
  | true =>
    rcases deleteLine_twin hAt' hEnds hLater with ⟨s', hDone, hRead, hVars⟩
    rw [if_pos rfl]
    refine ⟨_, hDone, .next s' _ _ hRead ?_⟩
    intro signed hooks flag htab
    unfold importLine
    dsimp only
    rw [hLine, if_neg hNotComment, hName, hTail, hDelete, if_pos rfl, runCalls_delete, hVars]
  | false =>
    rcases exists_cons_of_ne_nil hEnds.ne_nil with ⟨c', value, rfl⟩
    have hValue : Terminated value := by
      refine Terminated.of_append [c'] hEnds ?_
      rintro rfl
      have hZero := hEnds.zero_mem
      rw [mem_singleton] at hZero
      rw [← hZero] at hDelete
      cases hDelete
    rw [if_neg Bool.false_ne_true]
    have hImport : ∀ signed hooks flag htab,
        importLine signed hooks sep flag ⟨text, htab, s.localvars⟩ =
          insertText signed hooks sep flag nm ⟨value, htab, s.localvars⟩ := by
      intro signed hooks flag htab
      unfold importLine
      dsimp only
      rw [hLine, if_neg hNotComment, hName, hTail, hDelete, if_neg Bool.false_ne_true]
      rfl
    rcases @insertLine_twin sep s nm value start c' hAt'
      hValue hNm hLater with ⟨hEmpty, s', hDone, hSame, hCalls⟩ | ⟨hNe, s', hDone, hRead, hVars⟩
    · refine ⟨_, hDone, .emptyKey s' hSame hCalls ?_⟩
      intro signed hooks flag htab
      rw [hImport]
      exact if_pos hEmpty
    · refine ⟨_, hDone, .next s' _ _ hRead ?_⟩
      intro signed hooks flag htab
      rw [hImport]
      unfold insertText
      rw [if_neg hNe, runCalls_insert, hVars]

----
-- All Lines
----

theorem runCalls_append (signed : Bool) (hooks : Hooks) (flag : Nat)
    (calls calls' : List LineCall) (htab : HsearchData) :
    runCalls signed hooks flag (calls ++ calls') htab =
      (runCalls signed hooks flag calls htab).bind (runCalls signed hooks flag calls') := by
  induction calls generalizing htab with
  | nil => rfl
  | cons call calls ih =>
    have hStep :
        ∀ rest, runCalls signed hooks flag (call :: rest) htab =
            (call.run signed hooks flag htab).bind (runCalls signed hooks flag rest) :=
      fun _ => rfl
    rw [cons_append, hStep, hStep, bind_assoc]
    exact bind_congr fun htab' _ => ih htab'

/- What counts of the end of the loop. -/
def loopEnd (ok : Bool) (p : Parse) : Bool × List (Option CString) × HsearchData :=
  (ok, if ok then p.localvars else [], p.htab)

/-
  The loop ends, as each line moves `dp`, and makes the calls
  that the import of lists does.
-/
theorem parseLoop_twin
    (sep : UInt8) {size fuel : Nat} (hAt : At s.data s.dp text) (hText : Terminated text)
    (hSize : size < s.data.length) (hFuel : text.length ≤ fuel) :
    ∃ ok s' new, parseLoop sep size fuel s = some (ok, s') ∧ s'.data.length = s.data.length ∧
      s'.calls = s.calls ++ new ∧ ∀ signed hooks flag htab,
        (importLoop signed hooks sep flag (s.data.length - size) fuel
          ⟨text, htab, s.localvars⟩).map (fun r => loopEnd r.1 r.2) =
        (runCalls signed hooks flag new htab).map fun htab =>
          loopEnd ok ⟨[], htab, s'.localvars⟩ := by
  induction fuel generalizing s text with
  | zero =>
    have hEmpty : text = [] := length_eq_zero_iff.mp (by omega)
    exact absurd hEmpty hText.ne_nil
  | succ fuel ih =>
    rcases parseLine_twin sep hAt hText with ⟨out, hRun, hTwin⟩
    have hLength := hAt.length
    unfold parseLoop
    rw [hRun]
    cases hTwin with
    | emptyKey s' hSame hCalls hImport =>
      refine ⟨false, s', [], rfl, hSame, hCalls.trans (append_nil _).symm, ?_⟩
      intro signed hooks flag htab
      unfold importLoop
      rw [hImport]
      rfl
    | next s' rest new hRead hImport =>
      have hRest := hRead.text.length
      have hSame := hRead.length
      have hLater := hRead.later
      dsimp only
      by_cases hMore : s'.dp < size
      · have hEnds : Terminated rest := by
          rcases hRead.ends with hNil | hEnds
          · rw [hNil, length_nil] at hRest
            omega
          · exact hEnds
        rcases exists_cons_of_ne_nil hEnds.ne_nil with ⟨c, rest', hCons⟩
        have hPeek : peek s'.data s'.dp = some c := by
          have hThere := hRead.text
          rw [hCons] at hThere
          exact hThere.peek
        have hHead : rest.head? = some c := by
          rw [hCons]
          rfl
        rw [if_pos hMore, hPeek]
        dsimp only
        by_cases hNul : c = 0
        · rw [if_pos hNul]
          refine ⟨true, s', new, rfl, hSame, hRead.calls, ?_⟩
          intro signed hooks flag htab
          have hZero : rest.head? = some 0 := hHead.trans (congrArg some hNul)
          unfold importLoop
          rw [hImport]
          cases runCalls signed hooks flag new htab with
          | none => rfl
          | some htab' =>
            dsimp only [map_some]
            rw [if_neg fun h => h.2 hZero]
            rfl
        · rw [if_neg hNul]
          rcases ih hRead.text hEnds (by omega) (by omega)
            with ⟨ok, s'', new', hRun', hSame', hCalls', hImport'⟩
          refine ⟨ok, s'', new ++ new', hRun', hSame'.trans hSame, ?_, ?_⟩
          · rw [hCalls', hRead.calls, append_assoc]
          · intro signed hooks flag htab
            unfold importLoop
            rw [hImport, runCalls_append]
            cases runCalls signed hooks flag new htab with
            | none => rfl
            | some htab' =>
              have hGo : s.data.length - size < rest.length ∧ rest.head? ≠ some 0 := by
                refine ⟨by omega, ?_⟩
                rw [hHead]
                intro hEq
                exact hNul (Option.some.inj hEq)
              dsimp only [map_some, bind_some]
              rw [if_pos hGo, ← hSame]
              exact hImport' signed hooks flag htab'
      · rw [if_neg hMore]
        refine ⟨true, s', new, rfl, hSame, hRead.calls, ?_⟩
        intro signed hooks flag htab
        unfold importLoop
        rw [hImport]
        cases runCalls signed hooks flag new htab with
        | none => rfl
        | some htab' =>
          dsimp only [map_some]
          rw [if_neg fun h => absurd h.1 (by omega)]
          rfl

----
-- Carriage Returns
----

theorem terminated_of_last
    {size : Nat} (hLength : data.length = size + 1) (hLast : data[size]? = some 0) :
    Terminated data := by
  refine ⟨data.take size, ?_⟩
  have hTake := take_add_one (l := data) (i := size)
  rw [hLast, take_of_length_le (by omega)] at hTake
  exact hTake

/-
  The conversion moves bytes down in front of the last NUL,
  however the count of bytes left out wraps.
-/
theorem crlfLoop_ends {size fuel dp ignoredCrs : Nat}
    (hLength : data.length = size + 1) (hLast : data[size]? = some 0)
    (hLe : dp ≤ size) (hFuel : size < dp + fuel) :
    ∃ data' ignored, crlfLoop size fuel data dp ignoredCrs = some (data', ignored) ∧
      data'.length = size + 1 ∧ data'[size]? = some 0 := by
  induction fuel generalizing data dp ignoredCrs with
  | zero => omega
  | succ fuel ih =>
    unfold crlfLoop
    by_cases hEnd : size ≤ dp
    · rw [if_pos hEnd]
      exact ⟨data, ignoredCrs, rfl, hLength, hLast⟩
    rw [if_neg hEnd]
    have hRead : ∀ i, i ≤ size → ∃ c, peek data i = some c :=
      fun i hi => ⟨_, getElem?_eq_getElem (by omega)⟩
    rcases hRead dp (by omega) with ⟨c, hPeek⟩
    rw [hPeek]
    dsimp only
    by_cases hNul : c = 0
    · rw [if_pos hNul]
      exact ⟨data, ignoredCrs, rfl, hLength, hLast⟩
    rw [if_neg hNul]
    have hIgnored : ∃ ignored, (if c = 13 ∧ dp < size - 1 then
          (peek data (dp + 1)).map fun d => d == 10
        else some false) = some ignored := by
      split
      · rcases hRead (dp + 1) (by omega) with ⟨d, hNext⟩
        rw [hNext]
        exact ⟨_, rfl⟩
      · exact ⟨false, rfl⟩
    rcases hIgnored with ⟨ignored, hIgnored⟩
    rw [hIgnored]
    cases ignored with
    | true => exact ih hLength hLast (by omega) (by omega)
    | false =>
      rw [poke_of_lt (by omega), bind_some]
      refine ih ?_ ?_ (by omega) (by omega)
      · rw [length_set]
        exact hLength
      · rw [getElem?_set_ne (by omega)]
        exact hLast

/- The buffer at the start, with the NUL behind the text. -/
theorem length_append_zero (env : List UInt8) :
    (env ++ [0]).length = env.length + 1 := by
  rw [length_append, length_singleton]

theorem last_append_zero (env : List UInt8) :
    (env ++ [0])[env.length]? = some 0 := by
  rw [getElem?_append_right (Nat.le_refl _), Nat.sub_self]
  rfl

theorem parseLoop_buffer (sep : UInt8) {length size : Nat}
    (hData : data.length = length + 1) (hZero : data[length]? = some 0)
    (hSize : size ≤ length) (localvars : List (Option CString)) :
    ∃ ok s', parseLoop sep size (data.length + 1) ⟨data, 0, localvars, []⟩ = some (ok, s') ∧
      s'.data.length = length + 1 ∧ ∀ signed hooks flag htab,
        (importLoop signed hooks sep flag (data.length - size) (data.length + 1)
          ⟨data, htab, localvars⟩).map (fun r => loopEnd r.1 r.2) =
        (runCalls signed hooks flag s'.calls htab).map
          fun htab => loopEnd ok ⟨[], htab, s'.localvars⟩ := by
  rcases @parseLoop_twin ⟨data, 0, localvars, []⟩ data sep
    size (data.length + 1) ⟨Nat.zero_le _, rfl⟩
    (terminated_of_last hData hZero)
    (show size < data.length by omega) (by omega) with ⟨ok, s', new, hRun, hSame, hCalls, hImport⟩
  rw [nil_append] at hCalls
  rw [← hCalls] at hImport
  exact ⟨ok, s', hRun, hSame.trans hData, hImport⟩

/-
  For every buffer, separator and list of variables the parser
  has a result: all that it reads and writes lies in the
  buffer with the NUL behind it, its strings end there, and
  its loops end.
-/
theorem himport_parser_safe
    (env : List UInt8) (sep : UInt8) (crlfIsLf : Bool) (vars : List CString) :
    ∃ ok s, himportParser env sep crlfIsLf vars = some (ok, s) ∧
      s.data.length = env.length + 1 := by
  have hLength := length_append_zero env
  have hLast := last_append_zero env
  unfold himportParser
  dsimp only
  cases crlfIsLf with
  | false =>
    rcases parseLoop_buffer sep hLength hLast
      (Nat.le_refl _) (vars.map some) with ⟨ok, s, hRun, hSame, -⟩
    rw [if_neg Bool.false_ne_true, bind_some]
    exact ⟨ok, s, hRun, hSame⟩
  | true =>
    rcases @crlfLoop_ends _ _ (env.length + 1) 0 0 hLength
      hLast (Nat.zero_le _) (by omega) with ⟨data, ignored, hConvert, hData, hZero⟩
    rcases parseLoop_buffer sep hData hZero
      (Nat.sub_le env.length ignored) (vars.map some) with ⟨ok, s, hRun, hSame, -⟩
    rw [if_pos rfl, hConvert, map_some, bind_some]
    exact ⟨ok, s, hRun, hSame⟩

end Uboot.Env
