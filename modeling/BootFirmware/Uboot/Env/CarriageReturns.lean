import BootFirmware.Uboot.Env.ImportInPlace
import BootFirmware.Uboot.Env.RoundTrip

/-
  Importing a text with CRLF as one with LF.

  The conversion moves the text down in the buffer, but puts
  no NUL behind it, so that a last line without its LF goes on
  in the bytes that the text has left there.

  Key definitions include:
    * `withoutCr`
    * `lineRest` and `EndsLine`
    * `CrlfAsLf`

  The main result is `himport_crlf_as_lf`.
-/

----
-- The Condition
----

namespace Uboot.Env

open List

/- A text without each CR that LF follows. -/
def withoutCr : List UInt8 → List UInt8
  | [] => []
  | c :: text =>
    if c = 13 ∧ text.head? = some 10 then withoutCr text
    else c :: withoutCr text

/-
  What follows the first line of a text whose separator is LF,
  if the line ends in the text: a comment and a name end at a
  LF, and a value ends at one that no backslash quotes.
-/
def lineRest (text : List UInt8) : Option (List UInt8) :=
  let line := text.dropWhile isblank
  if line.head? = some 35 then
    match line.dropWhile fun c => c != 0 && c != 10 with
    | [] => none
    | _ :: rest => some rest
  else
    match line.dropWhile (inName 10) with
    | [] => none
    | [c] => if c = 10 then some [] else none
    | c :: d :: rest =>
      if c = 10 then
        some (d :: rest)
      else if d = 10 then
        some rest
      else
        match (parseValue 10 (d :: rest)).2 with
        | [] => none
        | _ :: rest => some rest

/-
  A text that ends with a line or in a comment, or has a line
  with a value and no name, where the import gives up.
-/
inductive EndsLine : List UInt8 → Prop
  | nil : EndsLine []
  | comment (text : List UInt8) : (text.dropWhile isblank).head? = some 35 → 10 ∉ text →
      EndsLine text
  | emptyKey (text : List UInt8) (c : UInt8) (value : List UInt8) :
      text.dropWhile isblank = 61 :: c :: value → c ≠ 10 → EndsLine text
  | line (text rest : List UInt8) : lineRest text = some rest → EndsLine rest → EndsLine text

/-
  The condition.  There is no CR in front of a LF; or fewer of
  them than an `unsigned int` counts, the table to import into
  is the same for the shorter size, and the last line that is
  imported is a comment, has no name or ends with its LF.
-/
def CrlfAsLf (config : Config) (htab : Option HsearchData) (env : List UInt8)
    (flag : Nat) : Prop :=
  withoutCr env = env ∨ (env.length - (withoutCr env).length < 2 ^ 32 ∧
      importTable config htab env.length flag =
        importTable config htab (withoutCr env).length flag ∧
      EndsLine (withoutCr env))

variable {text : List UInt8}

theorem not_mem_withoutCr {c : UInt8} (hNot : c ∉ text) :
    c ∉ withoutCr text := by
  induction text with
  | nil => exact not_mem_nil
  | cons d text ih =>
    have hRest := ih fun h => hNot (mem_cons_of_mem d h)
    unfold withoutCr
    split
    · exact hRest
    · intro hIn
      rcases mem_cons.mp hIn with rfl | hIn
      · exact hNot mem_cons_self
      · exact hRest hIn

theorem length_withoutCr_le (text : List UInt8) :
    (withoutCr text).length ≤ text.length := by
  induction text with
  | nil => exact Nat.le_refl _
  | cons c text ih =>
    unfold withoutCr
    split
    · exact Nat.le_succ_of_le ih
    · rw [length_cons, length_cons]
      omega

/- A text with something in it keeps something. -/
theorem withoutCr_ne_nil (hNe : text ≠ []) :
    withoutCr text ≠ [] := by
  induction text with
  | nil => exact absurd rfl hNe
  | cons c text ih =>
    unfold withoutCr
    split
    · rename_i hCr
      refine ih ?_
      rintro rfl
      cases hCr.2
    · exact cons_ne_nil _ _

/- The conversion keeps these bytes of a text without NUL. -/
theorem dropCr_eq_withoutCr (hNul : 0 ∉ text) (more : List UInt8) :
    dropCr text.length (text ++ more) = withoutCr text := by
  induction text with
  | nil => rfl
  | cons c text ih =>
    have hRest := ih fun h => hNul (mem_cons_of_mem c h)
    have hc : c ≠ 0 := by
      rintro rfl
      exact hNul mem_cons_self
    have hSame : (c = 13 ∧ 0 < text.length ∧ (text ++ more).head? = some 10) ↔
        (c = 13 ∧ text.head? = some 10) := by
      cases text with
      | nil =>
        refine Iff.intro (fun h => ?_) fun h => nomatch h.2
        exact absurd h.2.1 (Nat.lt_irrefl 0)
      | cons d text =>
        refine Iff.intro (fun h => ⟨h.1, h.2.2⟩) fun h => ⟨h.1, Nat.zero_lt_succ _, h.2⟩
    rw [length_cons, cons_append]
    unfold dropCr withoutCr
    rw [if_neg hc, hRest]
    simp only [hSame]

theorem readBytes_eq (hNul : 0 ∉ text) (more : List UInt8) :
    readBytes text.length (text ++ more) = text := by
  unfold readBytes
  rw [take_left, takeWhile_eq_self_iff]
  intro c hc
  rw [bne_iff_ne]
  rintro rfl
  exact hNul hc

variable {env : List UInt8}

/- The buffer after the conversion. -/
theorem crlfToLf_eq (hNul : 0 ∉ env) :
    crlfToLf (env ++ [0]) env.length = (withoutCr env ++ (env ++ [0]).drop (withoutCr env).length,
      (withoutCr env).length) := by
  have hRead := readBytes_eq hNul [0]
  unfold readBytes at hRead
  have hLe := length_withoutCr_le env
  unfold crlfToLf
  dsimp only
  rw [dropCr_eq_withoutCr hNul, hRead]
  congr 1
  omega

theorem ignoredCrs_eq (hNul : 0 ∉ env) :
    ignoredCrs env = env.length - (withoutCr env).length := by
  unfold ignoredCrs
  rw [readBytes_eq hNul, dropCr_eq_withoutCr hNul]

----
-- A Line And What Follows The Text
----

variable {test : UInt8 → Bool}

theorem dropWhile_append_of_ne (hNe : text.dropWhile test ≠ []) (more : List UInt8) :
    (text ++ more).dropWhile test = text.dropWhile test ++ more := by
  rw [dropWhile_append, if_neg]
  rw [List.isEmpty_iff]
  exact hNe

theorem takeWhile_append_of_ne (hNe : text.dropWhile test ≠ []) (more : List UInt8) :
    (text ++ more).takeWhile test = text.takeWhile test := by
  rw [takeWhile_append, if_neg]
  intro hAll
  have hSplit := congrArg List.length (takeWhile_append_dropWhile (p := test) (l := text))
  rw [length_append, hAll] at hSplit
  exact hNe (length_eq_zero_iff.mp (by omega))

/- What a line does, apart from the bytes that follow it. -/
def lineResult (htab : HsearchData) (rest : List UInt8) :
    Option (Option (HsearchData × List (Option CString))) → Option Line
  | none => none
  | some none => some (.emptyKey htab)
  | some (some (htab', localvars)) => some (.parsed ⟨rest, htab', localvars⟩)

variable {signed : Bool} {hooks : Hooks} {flag : Nat}
variable {htab : HsearchData}
variable {localvars : List (Option CString)}

theorem deleteVar_result (signed : Bool) (hooks : Hooks) (flag : Nat) (htab : HsearchData)
    (localvars : List (Option CString)) (name : CString) :
    ∃ r, ∀ dp, deleteVar signed hooks flag name ⟨dp, htab, localvars⟩ = lineResult htab dp r := by
  refine ⟨(runCalls signed hooks flag
    (newCalls localvars name (.delete name)) htab).map
      fun htab => some (htab, (dropVarFromSet name localvars).2), ?_⟩
  intro dp
  rw [runCalls_delete]
  cases runCalls signed hooks flag (newCalls localvars name (.delete name)) htab with
  | none => rfl
  | some htab' => rfl

theorem insertVar_result (signed : Bool) (hooks : Hooks) (flag : Nat) (htab : HsearchData)
    (localvars : List (Option CString)) (name value : CString) :
    ∃ r, ∀ dp,
      insertVar signed hooks flag name value ⟨dp, htab, localvars⟩ = lineResult htab dp r := by
  refine ⟨(runCalls signed hooks flag
    (newCalls localvars name (.insert name value)) htab).map
      fun htab => some (htab, (dropVarFromSet name localvars).2), ?_⟩
  intro dp
  rw [runCalls_insert]
  cases runCalls signed hooks flag (newCalls localvars name (.insert name value)) htab with
  | none => rfl
  | some htab' => rfl

variable {text rest : List UInt8}

theorem eq_equals_of_name
    {c : UInt8} (hNul : 0 ∉ text) (hEnd : text.dropWhile (inName 10) = c :: rest) (hNot : c ≠ 10) :
    c = 61 := by
  have hIn : c ∈ text := (dropWhile_suffix (inName 10)).subset (hEnd ▸ mem_cons_self)
  have hc : c ≠ 0 := by
    rintro rfl
    exact hNul hIn
  have hTest := head?_dropWhile_not (inName 10) text
  rw [hEnd] at hTest
  unfold inName at hTest
  simpa [hc, hNot] using hTest

/-
  A line that ends in the text is read alike whatever follows
  the text.
-/
theorem importLine_of_lineRest (hNul : 0 ∉ text) (hRest : lineRest text = some rest)
    (signed : Bool) (hooks : Hooks) (flag : Nat) (htab : HsearchData)
    (localvars : List (Option CString)) :
    ∃ r, ∀ more, more ≠ [] → importLine signed hooks 10 flag ⟨text ++ more, htab, localvars⟩ =
        lineResult htab (rest ++ more) r := by
  unfold lineRest at hRest
  have hBlanks : text.dropWhile isblank ≠ [] := by
    intro hNil
    rw [hNil] at hRest
    cases hRest
  have hLineNul : 0 ∉ text.dropWhile isblank := fun h => hNul ((dropWhile_suffix isblank).subset h)
  have hText : ∀ more, (text ++ more).dropWhile isblank = text.dropWhile isblank ++ more :=
    dropWhile_append_of_ne hBlanks
  generalize text.dropWhile isblank = line at hRest hBlanks hLineNul hText
  have hHead : ∀ more, (line ++ more).head? = line.head? :=
    fun more => head?_append_of_ne_nil _ hBlanks
  by_cases hComment : line.head? = some 35
  · rw [if_pos hComment] at hRest
    refine ⟨some (some (htab, localvars)), ?_⟩
    intro more _
    cases hEnd : line.dropWhile fun c => c != 0 && c != 10 with
    | nil =>
      rw [hEnd] at hRest
      cases hRest
    | cons c behind =>
      rw [hEnd] at hRest
      cases hRest
      unfold importLine
      dsimp only
      rw [hText, hHead, if_pos hComment, dropWhile_append_of_ne (by rw [hEnd]; exact nofun), hEnd]
      rfl
  rw [if_neg hComment] at hRest
  have hName : line.dropWhile (inName 10) ≠ [] := by
    intro hNil
    rw [hNil] at hRest
    cases hRest
  have hDrop := dropWhile_append_of_ne hName
  have hTake := takeWhile_append_of_ne hName
  cases hEnd : line.dropWhile (inName 10) with
  | nil => exact absurd hEnd hName
  | cons c behind =>
    rw [hEnd] at hRest hDrop
    have hEquals := eq_equals_of_name hLineNul hEnd
    by_cases hLf : c = 10
    · rcases deleteVar_result signed hooks flag htab
        localvars (CString.ofBytes (line.takeWhile (inName 10))) with ⟨r, hDelete⟩
      refine ⟨r, ?_⟩
      intro more hMore
      have hBehind : behind = rest := by
        cases behind with
        | nil =>
          dsimp only at hRest
          rw [if_pos hLf] at hRest
          exact Option.some.inj hRest
        | cons d behind =>
          dsimp only at hRest
          rw [if_pos hLf] at hRest
          exact Option.some.inj hRest
      have hDeletes : isDelete 10 (c :: behind ++ more) = true := by
        rcases exists_cons_of_ne_nil hMore with ⟨m, more, rfl⟩
        rw [hLf]
        cases behind with
        | nil =>
          unfold isDelete
          simp
        | cons d behind =>
          unfold isDelete
          simp
      unfold importLine
      dsimp only
      rw [hText, hHead, if_neg hComment, hDrop, hTake, hDeletes, if_pos rfl, hDelete, hLf, hBehind]
      rfl
    have hIs := hEquals hLf
    cases behind with
    | nil =>
      dsimp only at hRest
      rw [if_neg hLf] at hRest
      cases hRest
    | cons d behind =>
      dsimp only at hRest
      rw [if_neg hLf] at hRest
      have hd : d ≠ 0 := by
        rintro rfl
        refine hLineNul ((dropWhile_suffix (inName 10)).subset ?_)
        rw [hEnd]
        exact mem_cons_of_mem c mem_cons_self
      by_cases hDeletes : d = 10
      · rw [if_pos hDeletes] at hRest
        cases hRest
        rcases deleteVar_result signed hooks flag htab
          localvars (CString.ofBytes (line.takeWhile (inName 10))) with ⟨r, hDelete⟩
        refine ⟨r, ?_⟩
        intro more _
        unfold importLine
        dsimp only
        rw [hText, hHead, if_neg hComment, hDrop, hTake, hDeletes, hIs, hDelete]
        rfl
      · rw [if_neg hDeletes] at hRest
        have hInsert : ∀ more, isDelete 10 (c :: d :: behind ++ more) = false := by
          intro more
          rw [hIs]
          unfold isDelete
          dsimp only [cons_append]
          rw [beq_eq_false_iff_ne.mpr hd, beq_eq_false_iff_ne.mpr hDeletes]
          rfl
        cases hValue : (parseValue 10 (d :: behind)).2 with
        | nil =>
          rw [hValue] at hRest
          cases hRest
        | cons e behind' =>
          rw [hValue] at hRest
          cases hRest
          have hRead : ∀ more, parseValue 10 (d :: behind ++ more) =
                ((parseValue 10 (d :: behind)).1, e :: rest ++ more) := by
            intro more
            rw [← hValue]
            refine Escaping.scan_append _ _ _ _ more ?_
            show (parseValue 10 (d :: behind)).2 ≠ []
            rw [hValue]
            exact cons_ne_nil _ _
          by_cases hEmpty : line.takeWhile (inName 10) = []
          · refine ⟨some none, ?_⟩
            intro more _
            unfold importLine
            dsimp only
            rw [hText, hHead, if_neg hComment, hDrop, hTake, hInsert, if_neg Bool.false_ne_true]
            dsimp only [cons_append, tail_cons]
            rw [if_pos hEmpty]
            rfl
          · rcases insertVar_result signed hooks flag htab localvars
              (CString.ofBytes (line.takeWhile (inName 10)))
              (CString.ofBytes (parseValue 10 (d :: behind)).1) with ⟨r, hCall⟩
            refine ⟨r, ?_⟩
            intro more _
            have hMore := hRead more
            rw [cons_append] at hMore
            unfold importLine
            dsimp only
            rw [hText, hHead, if_neg hComment, hDrop, hTake, hInsert, if_neg Bool.false_ne_true]
            dsimp only [cons_append, tail_cons]
            rw [hMore, if_neg hEmpty, hCall]
            rfl

/- What follows a line is the end of the text. -/
theorem lineRest_suffix (hRest : lineRest text = some rest) :
    rest <:+ text ∧ rest.length < text.length := by
  have hProper : ∀ c : UInt8, ∀ xs : List UInt8,
      c :: xs <:+ text → xs <:+ text ∧ xs.length < text.length := by
    intro c xs hSuffix
    have hLength := hSuffix.length_le
    rw [length_cons] at hLength
    exact ⟨(suffix_cons c xs).trans hSuffix, by omega⟩
  have hLine := dropWhile_suffix isblank (l := text)
  unfold lineRest at hRest
  generalize text.dropWhile isblank = line at hRest hLine
  by_cases hComment : line.head? = some 35
  · rw [if_pos hComment] at hRest
    cases hEnd : line.dropWhile fun c => c != 0 && c != 10 with
    | nil =>
      rw [hEnd] at hRest
      cases hRest
    | cons c behind =>
      rw [hEnd] at hRest
      cases hRest
      refine hProper c rest ?_
      rw [← hEnd]
      exact (dropWhile_suffix _).trans hLine
  rw [if_neg hComment] at hRest
  have hName := (dropWhile_suffix (inName 10) (l := line)).trans hLine
  generalize line.dropWhile (inName 10) = behind at hRest hName
  cases behind with
  | nil => cases hRest
  | cons c behind =>
    have hBehind := hProper c behind hName
    cases behind with
    | nil =>
      dsimp only at hRest
      split at hRest
      · cases hRest
        exact hBehind
      · cases hRest
    | cons d behind =>
      dsimp only at hRest
      split at hRest
      · cases hRest
        exact hBehind
      split at hRest
      · cases hRest
        exact hProper d rest hBehind.1
      cases hValue : (parseValue 10 (d :: behind)).2 with
      | nil =>
        rw [hValue] at hRest
        cases hRest
      | cons e behind' =>
        rw [hValue] at hRest
        cases hRest
        refine hProper e rest ?_
        rw [← hValue]
        exact (Escaping.scan_suffix _ _ _ _).trans hBehind.1

----
-- The Loop And What Follows The Text
----

theorem length_tail_dropWhile (test : UInt8 → Bool) {more : List UInt8} (hMore : more ≠ []) :
    (more.dropWhile test).tail.length < more.length := by
  have hLe := (dropWhile_suffix test (l := more)).length_le
  have hPos := length_pos_iff.mpr hMore
  rw [length_tail]
  omega

/- A comment without its LF takes in what follows. -/
theorem importLine_comment (hNul : 0 ∉ text) (hComment : (text.dropWhile isblank).head? = some 35)
    (hLf : 10 ∉ text) (more : List UInt8) :
    importLine signed hooks 10 flag ⟨text ++ more, htab, localvars⟩ =
      some (.parsed ⟨(more.dropWhile fun c => c != 0 && c != 10).tail, htab, localvars⟩) := by
  have hLine : text.dropWhile isblank ≠ [] := by
    intro hNil
    rw [hNil] at hComment
    cases hComment
  have hSub := (dropWhile_suffix isblank (l := text)).subset
  have hAll : ∀ c ∈ text.dropWhile isblank, (c != 0 && c != 10) = true := by
    intro c hc
    rw [Bool.and_eq_true, bne_iff_ne, bne_iff_ne]
    refine ⟨?_, ?_⟩
    · rintro rfl
      exact hNul (hSub hc)
    · rintro rfl
      exact hLf (hSub hc)
  unfold importLine
  dsimp only
  rw [dropWhile_append_of_ne hLine, head?_append_of_ne_nil _ hLine, if_pos hComment,
    dropWhile_append_of_pos hAll]

/- A value without a name ends the import, whatever follows. -/
theorem importLine_emptyKey {c : UInt8} {value : List UInt8}
    (hNul : 0 ∉ text) (hLine : text.dropWhile isblank = 61 :: c :: value)
    (hLf : c ≠ 10) (more : List UInt8) :
    importLine signed hooks 10 flag ⟨text ++ more, htab, localvars⟩ = some (.emptyKey htab) := by
  have hNe : text.dropWhile isblank ≠ [] := by
    rw [hLine]
    exact cons_ne_nil _ _
  have hc : c ≠ 0 := by
    rintro rfl
    refine hNul ((dropWhile_suffix isblank).subset ?_)
    rw [hLine]
    exact mem_cons_of_mem 61 mem_cons_self
  have hDelete : isDelete 10 (61 :: c :: (value ++ more)) = false := by
    unfold isDelete
    dsimp only
    rw [beq_eq_false_iff_ne.mpr hc, beq_eq_false_iff_ne.mpr hLf]
    rfl
  have hTake : (61 :: c :: (value ++ more)).takeWhile (inName 10) = [] := rfl
  have hDrop : (61 :: c :: (value ++ more)).dropWhile (inName 10) = 61 :: c :: (value ++ more) := rfl
  unfold importLine
  dsimp only
  rw [dropWhile_append_of_ne hNe, hLine, cons_append, cons_append, hTake, hDrop, hDelete]
  rfl

/-
  A text that ends with such a line is imported alike whatever
  follows it.
-/
theorem importLoop_of_endsLine (signed : Bool) (hooks : Hooks) (flag : Nat) (hEnds : EndsLine text)
    (hNul : 0 ∉ text) (hNe : text ≠ []) (htab : HsearchData) (localvars : List (Option CString)) :
    ∃ ended, ∀ more fuel, more ≠ [] → text.length < fuel →
      (importLoop signed hooks 10 flag more.length fuel
        ⟨text ++ more, htab, localvars⟩).map (fun r => loopEnd r.1 r.2) = ended := by
  induction hEnds generalizing htab localvars with
  | nil => exact absurd rfl hNe
  | comment text hComment hLf =>
    refine ⟨some (loopEnd true ⟨[], htab, localvars⟩), ?_⟩
    intro more fuel hMore hFuel
    cases fuel with
    | zero => omega
    | succ fuel =>
      have hLess := length_tail_dropWhile (fun c => c != 0 && c != 10) hMore
      unfold importLoop
      rw [importLine_comment hNul hComment hLf]
      dsimp only
      rw [if_neg fun h => absurd h.1 (by omega)]
      rfl
  | emptyKey text c value hLine hLf =>
    refine ⟨some (loopEnd false ⟨[], htab, []⟩), ?_⟩
    intro more fuel _ hFuel
    cases fuel with
    | zero => omega
    | succ fuel =>
      unfold importLoop
      rw [importLine_emptyKey hNul hLine hLf]
      rfl
  | line text rest hRest _ ih =>
    have hSuffix := lineRest_suffix hRest
    rcases importLine_of_lineRest hNul hRest signed hooks flag htab localvars with ⟨r, hLine⟩
    cases r with
    | none =>
      refine ⟨none, ?_⟩
      intro more fuel hMore hFuel
      cases fuel with
      | zero => omega
      | succ fuel =>
        unfold importLoop
        rw [hLine more hMore]
        rfl
    | some done =>
      cases done with
      | none =>
        refine ⟨some (loopEnd false ⟨[], htab, []⟩), ?_⟩
        intro more fuel hMore hFuel
        cases fuel with
        | zero => omega
        | succ fuel =>
          unfold importLoop
          rw [hLine more hMore]
          rfl
      | some after =>
        rcases after with ⟨htab', localvars'⟩
        by_cases hEmpty : rest = []
        · refine ⟨some (loopEnd true ⟨[], htab', localvars'⟩), ?_⟩
          intro more fuel hMore hFuel
          cases fuel with
          | zero => omega
          | succ fuel =>
            unfold importLoop
            rw [hLine more hMore, hEmpty]
            dsimp only [lineResult, nil_append]
            rw [if_neg fun h => absurd h.1 (Nat.lt_irrefl _)]
            rfl
        · rcases ih (fun h => hNul (hSuffix.1.subset h))
            hEmpty htab' localvars' with ⟨ended, hMore'⟩
          refine ⟨ended, ?_⟩
          intro more fuel hMore hFuel
          cases fuel with
          | zero => omega
          | succ fuel =>
            have hPos := length_pos_iff.mpr hEmpty
            have hGo : more.length < (rest ++ more).length ∧ (rest ++ more).head? ≠ some 0 := by
              rw [length_append, head?_append_of_ne_nil _ hEmpty]
              refine ⟨by omega, ?_⟩
              intro hHead
              exact hNul (hSuffix.1.subset (mem_of_head? hHead))
            unfold importLoop
            rw [hLine more hMore]
            dsimp only [lineResult]
            rw [if_pos hGo]
            exact hMore' more fuel hMore (by omega)

----
-- The Import
----

variable {old : Option HsearchData} {vars : List CString}

/- Without such a CR the conversion changes nothing. -/
theorem himportR_of_free {config : Config} (hNul : 0 ∉ env) (hFree : withoutCr env = env) :
    himportR config signed hooks old env env.length 10 flag true vars =
      himportR config signed hooks old env env.length 10 flag false vars := by
  have hBuffer : importBuffer env true = importBuffer env false := by
    unfold importBuffer
    rw [if_pos rfl, if_neg Bool.false_ne_true, crlfToLf_eq hNul, hFree, drop_left]
  rw [himportR_loop, himportR_loop, hBuffer]

theorem himportR_of_endsLine {config : Config} (hNul : 0 ∉ env)
    (hTable :
      importTable config old env.length flag = importTable config old (withoutCr env).length flag)
    (hEnds : EndsLine (withoutCr env)) :
    himportR config signed hooks old env env.length 10 flag true vars =
      himportR config signed hooks old (withoutCr env)
        (withoutCr env).length 10 flag false vars := by
  rw [himportR_loop, himportR_loop, hTable]
  refine Option.bind_congr fun htab _ => ?_
  by_cases hEmpty : env = []
  · rw [hEmpty]
    rfl
  have hKept := withoutCr_ne_nil hEmpty
  rw [if_neg fun h => hEmpty (length_eq_zero_iff.mp h),
    if_neg fun h => hKept (length_eq_zero_iff.mp h)]
  rcases importLoop_of_endsLine signed hooks flag hEnds
    (not_mem_withoutCr hNul) hKept htab (vars.map some) with
      ⟨ended, hEnded⟩
  have hLe := length_withoutCr_le env
  unfold importBuffer
  rw [if_pos rfl, if_neg Bool.false_ne_true, crlfToLf_eq hNul]
  -- The bytes that the text has left behind it.
  generalize hMore : (env ++ [0]).drop (withoutCr env).length = more
  have hLong := congrArg List.length hMore
  rw [length_drop, length_append, length_singleton] at hLong
  have hMoreNe : more ≠ [] := by
    rintro rfl
    rw [length_nil] at hLong
    omega
  have hStale := hEnded more ((withoutCr env ++ more).length + 1) hMoreNe
    (by rw [length_append]; omega)
  have hZero := hEnded [0] ((withoutCr env ++ [0]).length + 1) (cons_ne_nil _ _)
    (by rw [length_append]; omega)
  have hAfter : ∀ xs : List UInt8,
      (withoutCr env ++ xs).length - (withoutCr env).length = xs.length := by
    intro xs
    rw [length_append, Nat.add_sub_cancel_left]
  rw [hAfter, hAfter, hStale, hZero]

/-
  Under the condition a text with CRLF is imported as the one
  with LF, with the same result and the same table.
-/
theorem himport_crlf_as_lf
    (config : Config) (signed : Bool) (hooks : Hooks) (old : Option HsearchData) {env : List UInt8}
    (hNul : 0 ∉ env) (flag : Nat) (hWhen : CrlfAsLf config old env flag) (vars : List CString) :
    himportInPlace config signed hooks old env 10 flag true vars =
      himportInPlace config signed hooks old (withoutCr env) 10 flag false vars := by
  have hPlain : himportInPlace config signed hooks old (withoutCr env) 10 flag false vars =
      himportR config signed hooks old (withoutCr env) (withoutCr env).length 10 flag false vars :=
    (himportR_eq_inPlace config signed hooks old (fun hCr => absurd hCr Bool.false_ne_true) 10 flag
      vars).symm
  have hCount : ignoredCrs env < 2 ^ 32 := by
    rw [ignoredCrs_eq hNul]
    rcases hWhen with hFree | ⟨hFew, -⟩
    · rw [hFree, Nat.sub_self]
      exact Nat.two_pow_pos 32
    · exact hFew
  rw [hPlain, ← himportR_eq_inPlace config signed hooks old (fun _ => hCount) 10 flag vars]
  rcases hWhen with hFree | ⟨-, hTable, hEnds⟩
  · rw [hFree]
    exact himportR_of_free hNul hFree
  · exact himportR_of_endsLine hNul hTable hEnds

/- The text "a=b" with CRLF. -/
def oneLine : List UInt8 := [97, 61, 98, 13, 10]

theorem himport_crlf_as_lf_one_line :
    himportInPlace defaultConfig false noHooks (some ⟨fun _ => .free, 5, 0⟩) oneLine 10 1 true [] =
      himportInPlace defaultConfig false noHooks
        (some ⟨fun _ => .free, 5, 0⟩) [97, 61, 98, 10] 10 1 false
        [] := by
  refine himport_crlf_as_lf defaultConfig false noHooks (some ⟨fun _ => .free, 5, 0⟩) (by decide) 1
    (Or.inr ⟨by decide, by simp [importTable, hNoclear], ?_⟩) []
  exact .line _ [] (by decide) .nil

/- The text "a=b" with CRLF, and "c=d" without. -/
def twoLines : List UInt8 := [97, 61, 98, 13, 10, 99, 61, 100]

/- Its import into an empty table, and that with LF alone. -/
def crlfImport : Option (Int × HsearchData) :=
  himportInPlace defaultConfig false noHooks (some ⟨fun _ => .free, 5, 0⟩) twoLines 10 1 true []

def lfImport : Option (Int × HsearchData) :=
  himportInPlace defaultConfig false noHooks
    (some ⟨fun _ => .free, 5, 0⟩) (withoutCr twoLines) 10 1 false
    []

/-
  The last byte of the text is read twice, so that the value
  of c is "dd".
-/
theorem himport_crlf_reads_stale_byte :
    crlfImport.map (fun r => r.2.entryAt 1) = some (some ⟨varC, ⟨[100, 100], by decide⟩⟩) ∧
    lfImport.map (fun r => r.2.entryAt 1) = some (some ⟨varC, ⟨[100], by decide⟩⟩) ∧
    crlfImport ≠ lfImport := by
  have hStale :
      crlfImport.map (fun r => r.2.entryAt 1) = some (some ⟨varC, ⟨[100, 100], by decide⟩⟩) := by
    decide +kernel
  have hClean : lfImport.map (fun r => r.2.entryAt 1) = some (some ⟨varC, ⟨[100], by decide⟩⟩) := by
    decide +kernel
  refine ⟨hStale, hClean, ?_⟩
  intro hSame
  rw [hSame, hClean] at hStale
  exact absurd hStale (by decide)

end Uboot.Env
