import BootFirmware.Uboot.Env.AttrLists

/-
  The look-up of a name in a list of attributes finds the last
  element of the name that the walk of the list visits.

  The look-up by a search from entry to entry is the one of a
  configuration without regular expressions.  It may read the
  byte before the list.

  Key definitions include:
    * `reverseNameSearch` and `plainLookup`
    * `Word`, `Entry` and `listOf`

  The main results are:
    * `env_attr_lookup_last`
    * `env_attr_lookup_other_name`
-/

----
-- The Search
----

namespace Uboot.Env.Attr

open List Option

def isBlank (c : UInt8) : Bool :=
  c == 32

/-
  Whether the entry's name ends where a match does, and begins
  with it.  The bytes of the list before the match are in
  `seen`, the last one first, and `before` is the byte before
  the list.
-/
def exactMatch (before : UInt8) (seen nextch : List UInt8) :
    Bool :=
  let prevch := seen.dropWhile isBlank
  let nextch := nextch.dropWhile isBlank
  (seen.isEmpty || prevch.headD before == 44 || prevch.isEmpty) &&
    (nextch.headD 0 == 58 || nextch.headD 0 == 44 || nextch.isEmpty)

/- The calls of `strstr`, each from past the last match on. -/
def searchFrom (before : UInt8) (searchFor : List UInt8) (result : Option (List UInt8)) :
    List UInt8 → List UInt8 → Option (List UInt8)
  | _, [] => result
  | seen, c :: rest =>
    let curSearched := c :: rest
    let nextch := curSearched.drop searchFor.length
    searchFrom before searchFor
      (if searchFor.isPrefixOf curSearched && exactMatch before seen nextch then
        some curSearched
      else result)
      (c :: seen) rest

/- A length, and the list from the match on. -/
def reverseNameSearch (before : UInt8) (searched searchFor : List UInt8) :
    Nat × Option (List UInt8) :=
  if searchFor = [] then (searched.length, some searched)
  else
    match searchFrom before searchFor none [] searched with
    | none => (0, none)
    | some found => (searchFor.length, some found)

/- What is copied from an entry past its name. -/
def copied (entry : List UInt8) : List UInt8 :=
  match entry.dropWhile isBlank with
  | 58 :: entry => (entry.dropWhile isBlank).takeWhile fun c => !(c == 44 || c == 32)
  | _ => []

/- `env_attr_lookup` without CONFIG_REGEX. -/
def plainLookup (before : UInt8) (attrList : Option (List UInt8)) (name : List UInt8) :
    Int × List UInt8 :=
  match attrList with
  | none => (-22, [])
  | some attrList =>
    match reverseNameSearch before attrList name with
    | (_, none) => (-2, [])
    | (entryLen, some entry) => (0, copied (entry.drop entryLen))

----
-- The Grammar
----

/- Free of comma, colon and white space. -/
def IsText (s : List UInt8) : Prop :=
  ∀ c ∈ s, c ≠ 44 ∧ c ≠ 58 ∧ isspace c = false

instance : Decidable (IsText s) :=
  List.decidableBAll _ s

def blanks (n : Nat) : List UInt8 :=
  List.replicate n 32

/- A name or attributes, with spaces around them. -/
structure Word where
  left : Nat
  text : List UInt8
  right : Nat
  isText : IsText text

def Word.bytes (w : Word) : List UInt8 :=
  blanks w.left ++ (w.text ++ blanks w.right)

structure Entry where
  name : Word
  attributes : Option Word

def Entry.bytes (e : Entry) : List UInt8 :=
  e.name.bytes ++
    match e.attributes with
    | none => []
    | some attributes => 58 :: attributes.bytes

/- The entries with a comma between them. -/
def listOf (entries : List Entry) : List UInt8 :=
  [44].intercalate (entries.map Entry.bytes)

/- Nothing for an entry without a name. -/
def Entry.element (e : Entry) : Option Element :=
  if e.name.text = [] then none
  else some ⟨e.name.text, e.attributes.map Word.text⟩

----
-- The Walk Of A List Of The Grammar
----

theorem dropWhile_blanks {p : UInt8 → Bool} (hBlank : p 32 = true) (n : Nat) (rest : List UInt8) :
    (blanks n ++ rest).dropWhile p = rest.dropWhile p := by
  refine dropWhile_append_of_pos fun c hMem => ?_
  rw [(mem_replicate.mp hMem).2]
  exact hBlank

variable {rest : List UInt8}

theorem IsText.dropWhile {text : List UInt8} (hText : IsText text) (hRest : text ≠ [] ∨ rest = []) :
    (text ++ rest).dropWhile isspace = text ++ rest := by
  cases text with
  | nil =>
    rw [hRest.resolve_left fun hNe => hNe rfl]
    rfl
  | cons c text =>
    rw [cons_append, dropWhile_cons, (hText c mem_cons_self).2.2]
    rfl

theorem strim_word (w : Word) : strim w.bytes = w.text := by
  have hReverse : IsText w.text.reverse := fun c hMem => w.isText c (mem_reverse.mp hMem)
  have hBack := hReverse.dropWhile (Or.inr rfl)
  rw [append_nil] at hBack
  unfold strim Word.bytes
  rw [dropWhile_blanks rfl]
  by_cases hNil : w.text = []
  · have hBlanks := dropWhile_blanks (p := isspace) rfl
      w.right []
    rw [append_nil] at hBlanks
    rw [hNil, nil_append, hBlanks]
    rfl
  · rw [w.isText.dropWhile (Or.inl hNil), reverse_append,
      blanks, reverse_replicate, ← blanks, dropWhile_blanks rfl, hBack, reverse_reverse]

variable {c : UInt8}

theorem mem_bytes {w : Word} (hMem : c ∈ w.bytes) :
    c ≠ 44 ∧ c ≠ 58 := by
  rcases mem_append.mp hMem with hLeft | hMem
  · rw [(mem_replicate.mp hLeft).2]
    decide
  rcases mem_append.mp hMem with hText | hRight
  · exact ⟨(w.isText c hText).1, (w.isText c hText).2.1⟩
  · rw [(mem_replicate.mp hRight).2]
    decide

theorem elementOf_bytes (e : Entry) : elementOf e.bytes = e.element := by
  have hName : ∀ c ∈ e.name.bytes, (c != 58) = true :=
    fun c hMem => bne_iff_ne.mpr (mem_bytes hMem).2
  unfold elementOf Entry.bytes Entry.element
  rw [takeWhile_append_of_pos hName, dropWhile_append_of_pos hName]
  cases e.attributes with
  | none =>
    have hNone : 58 ∉ e.name.bytes ++ [] := fun hMem => (mem_bytes (append_nil _ ▸ hMem)).2 rfl
    simp only [takeWhile_nil, append_nil, strim_word, if_neg (append_nil _ ▸ hNone)]
    rfl
  | some attributes => simp [strim_word]

theorem attrEntries_listOf (entries : List Entry) :
    attrEntries (listOf entries) = entries.filterMap Entry.element := by
  by_cases hNil : entries = []
  · rw [hNil]
    rfl
  unfold attrEntries listOf
  rw [splitOn_intercalate, filterMap_map]
  · exact congrArg (fun f => entries.filterMap f) (funext elementOf_bytes)
  · intro bytes hBytes hComma
    rcases mem_map.mp hBytes with ⟨e, _, hEq⟩
    rw [← hEq] at hComma
    rcases mem_append.mp hComma with hName | hRest
    · exact (mem_bytes hName).1 rfl
    · cases hAttributes : e.attributes with
      | none => simp [hAttributes] at hRest
      | some attributes =>
        rw [hAttributes] at hRest
        rcases mem_cons.mp hRest with hColon | hMem
        · exact absurd hColon (by decide)
        · exact (mem_bytes hMem).1 rfl
  · exact fun hMap => hNil (map_eq_nil_iff.mp hMap)

----
-- The Search In A List Of The Grammar
----

/- No name goes on here. -/
def Stops (rest : List UInt8) : Prop :=
  ∀ c ∈ rest.head?, ¬ IsText [c]

/- An end of the list, or a comma. -/
def AtComma (s : List UInt8) : Prop :=
  s = [] ∨ ∃ rest, s = 44 :: rest

theorem stops_cons (hOther : ¬ IsText [c]) (rest : List UInt8) :
    Stops (c :: rest) := by
  intro d hHead
  cases hHead
  exact hOther

theorem AtComma.stops (hComma : AtComma rest) :
    Stops rest := by
  rcases hComma with rfl | ⟨rest, rfl⟩
  · exact fun c hHead => nomatch hHead
  · exact stops_cons (by decide) rest

theorem Stops.blanks (hStops : Stops rest) (n : Nat) :
    Stops (blanks n ++ rest) := by
  cases n with
  | zero => exact hStops
  | succ n => exact stops_cons (by decide) _

theorem isText_singleton {s : List UInt8} (hText : IsText s) (hMem : c ∈ s) :
    IsText [c] := by
  intro d hSingle
  rw [mem_singleton.mp hSingle]
  exact hText c hMem

theorem dropWhile_text (hText : IsText [c]) (rest : List UInt8) :
    (c :: rest).dropWhile isBlank = c :: rest := by
  have hNe : isBlank c = false := by
    refine beq_false_of_ne fun hBlank => ?_
    rw [hBlank] at hText
    exact absurd hText (by decide)
  rw [dropWhile_cons, hNe]
  rfl

section Search

variable {before : UInt8} {name : List UInt8}

variable {c : UInt8}

theorem exactMatch_inside (hText : IsText [c]) (seen nextch : List UInt8) :
    exactMatch before (c :: seen) nextch = false := by
  have hComma := (hText c mem_cons_self).1
  unfold exactMatch
  rw [dropWhile_text hText]
  simp [hComma]

/- A match that a word goes on after does not end a name. -/
theorem exactMatch_partial (hText : IsText [c]) (seen nextch : List UInt8) :
    exactMatch before seen (c :: nextch) = false := by
  have hComma := hText c mem_cons_self
  unfold exactMatch
  rw [dropWhile_text hText]
  simp [hComma.1, hComma.2.1]

/- Only the start of a word can begin the name. -/
theorem searchFrom_inside {text : List UInt8} (hText : IsText text) (hChar : IsText [c])
    (result : Option (List UInt8)) (seen rest : List UInt8) :
    searchFrom before name result (c :: seen) (text ++ rest) =
      searchFrom before name result (text.reverse ++ c :: seen) rest := by
  induction text generalizing c seen with
  | nil => rfl
  | cons d text ih =>
    rw [cons_append, searchFrom, exactMatch_inside hChar, Bool.and_false,
      if_neg (by decide), ih (fun c' hMem => hText c' (mem_cons_of_mem d hMem))
        (isText_singleton hText mem_cons_self),
      reverse_cons, append_assoc]
    rfl

variable (hName : IsText name)
include hName

variable {text rest : List UInt8}

theorem isPrefixOf_word (hText : IsText text) (hStops : Stops rest) (seen : List UInt8) :
    (name.isPrefixOf (text ++ rest) && exactMatch before seen ((text ++ rest).drop name.length)) =
      (decide (text = name) && exactMatch before seen rest) := by
  by_cases hEq : text = name
  · rw [hEq, decide_eq_true rfl, drop_left, isPrefixOf_iff_prefix.mpr (prefix_append _ _)]
  · rw [decide_eq_false hEq, Bool.false_and]
    refine Bool.eq_false_iff.mpr fun hMatch => ?_
    rcases Bool.and_eq_true_iff.mp hMatch with ⟨hPrefix, hExact⟩
    rcases isPrefixOf_iff_prefix.mp hPrefix with ⟨nextch, hAppend⟩
    rw [← hAppend, drop_left] at hExact
    rcases append_eq_append_iff.mp hAppend with ⟨more, hWord, hNext⟩ | ⟨more, hWord, hRest⟩
    · cases more with
      | nil => exact hEq (by rw [hWord, append_nil])
      | cons c more =>
        have hMem : c ∈ text := by
          rw [hWord]
          exact mem_append_right _ mem_cons_self
        rw [hNext, cons_append, exactMatch_partial (isText_singleton hText hMem)] at hExact
        exact Bool.noConfusion hExact
    · cases more with
      | nil => exact hEq (by rw [hWord, append_nil])
      | cons c more =>
        have hMem : c ∈ name := by
          rw [hWord]
          exact mem_append_right _ mem_cons_self
        rw [hRest] at hStops
        exact hStops c rfl (isText_singleton hName hMem)

variable (hNe : name ≠ [])
include hNe

theorem searchFrom_other
    (hOther : ¬ IsText [c]) (result : Option (List UInt8)) (seen rest : List UInt8) :
    searchFrom before name result seen (c :: rest) =
      searchFrom before name result (c :: seen) rest := by
  have hPrefix : name.isPrefixOf (c :: rest) = false := by
    cases name with
    | nil => exact absurd rfl hNe
    | cons d name =>
      have hDiffers : (d == c) = false :=
        beq_false_of_ne fun hEq => hOther (hEq ▸ isText_singleton hName mem_cons_self)
      rw [List.isPrefixOf, hDiffers, Bool.false_and]
  rw [searchFrom, hPrefix, Bool.false_and, if_neg (by decide)]

theorem searchFrom_blanks (n : Nat) (result : Option (List UInt8)) (seen rest : List UInt8) :
    searchFrom before name result seen (blanks n ++ rest) =
      searchFrom before name result (blanks n ++ seen)
        rest := by
  induction n generalizing seen with
  | zero => rfl
  | succ n ih =>
    have hSeen : blanks (n + 1) ++ seen = blanks n ++ 32 :: seen := by
      unfold blanks
      rw [replicate_succ', append_assoc]
      rfl
    rw [hSeen, ← ih]
    exact searchFrom_other hName hNe (by decide) _ _ _

theorem searchFrom_word
    (hText : IsText text) (hStops : Stops rest) (result : Option (List UInt8)) (seen : List UInt8) :
    searchFrom before name result seen (text ++ rest) = searchFrom before name
        (if decide (text = name) && exactMatch before seen rest then
          some (text ++ rest)
        else result)
        (text.reverse ++ seen) rest := by
  cases text with
  | nil =>
    rw [decide_eq_false hNe.symm, Bool.false_and, if_neg (by decide)]
    rfl
  | cons c text =>
    have hMatch := @isPrefixOf_word before _ hName _
      _ hText hStops seen
    rw [cons_append] at hMatch ⊢
    rw [searchFrom, hMatch, searchFrom_inside (fun d hMem => hText d (mem_cons_of_mem c hMem))
        (isText_singleton hText mem_cons_self),
      reverse_cons, append_assoc]
    rfl

/- The list from behind the name of an entry on. -/
def Entry.after (e : Entry) (rest : List UInt8) : List UInt8 :=
  blanks e.name.right ++
    match e.attributes with
    | none => rest
    | some attributes => 58 :: (attributes.bytes ++ rest)

theorem searchFrom_entry (e : Entry) {seen rest : List UInt8}
    (hSeen : AtComma seen) (hRest : AtComma rest) (result : Option (List UInt8)) :
    ∃ seen', searchFrom before name result seen (e.bytes ++ rest) = searchFrom before name
        (if e.name.text = name then
          some (name ++ e.after rest)
        else result)
        seen' rest := by
  have hBytes : e.bytes ++ rest = blanks e.name.left ++ (e.name.text ++ e.after rest) := by
    unfold Entry.bytes Entry.after Word.bytes
    cases e.attributes <;> simp
  have hExact : exactMatch before (blanks e.name.left ++ seen) (e.after rest) = true := by
    unfold exactMatch Entry.after
    rw [dropWhile_blanks rfl, dropWhile_blanks rfl]
    rcases hSeen with rfl | ⟨seen, rfl⟩ <;>
      rcases hRest with rfl | ⟨rest, rfl⟩ <;>
      cases e.attributes <;> simp [isBlank]
  have hAfter : Stops (e.after rest) := by
    unfold Entry.after
    cases e.attributes with
    | none => exact hRest.stops.blanks _
    | some attributes => exact (stops_cons (by decide) _).blanks _
  rw [hBytes, searchFrom_blanks hName hNe, searchFrom_word
    hName hNe e.name.isText hAfter, hExact, Bool.and_true]
  have hFound : (if decide (e.name.text = name) then
        some (e.name.text ++ e.after rest)
      else result) =
      if e.name.text = name then some (name ++ e.after rest)
      else result := by
    by_cases hEq : e.name.text = name
    · rw [if_pos hEq, hEq, if_pos (decide_eq_true rfl)]
    · rw [if_neg hEq, if_neg (by simpa using hEq)]
  rw [hFound]
  unfold Entry.after
  rw [searchFrom_blanks hName hNe]
  cases e.attributes with
  | none => exact ⟨_, rfl⟩
  | some attributes =>
    -- the attributes are a word behind a ':'
    unfold Word.bytes
    rw [searchFrom_other hName hNe (by decide), append_assoc, append_assoc,
      searchFrom_blanks hName hNe, searchFrom_word hName hNe
        attributes.isText (hRest.stops.blanks _),
      searchFrom_blanks hName hNe]
    have hColon : exactMatch before
        (blanks attributes.left ++ 58 ::
          (blanks e.name.right ++ (e.name.text.reverse ++ (blanks e.name.left ++ seen))))
        (blanks attributes.right ++ rest) = false := by
      unfold exactMatch
      rw [dropWhile_blanks rfl]
      simp [isBlank]
    rw [hColon, Bool.and_false, if_neg (by decide)]
    exact ⟨_, rfl⟩

end Search

/- The attributes end at a space, a comma or the list's end. -/
theorem takeWhile_word (w : Word) (hRest : AtComma rest) :
    ((w.bytes ++ rest).dropWhile isBlank).takeWhile (fun c => !(c == 44 || c == 32)) = w.text := by
  have hEnd : (blanks w.right ++ rest).takeWhile (fun c => !(c == 44 || c == 32)) = [] := by
    cases w.right with
    | zero => rcases hRest with rfl | ⟨rest, rfl⟩ <;> rfl
    | succ n => rfl
  unfold Word.bytes
  rw [append_assoc, dropWhile_blanks rfl, append_assoc]
  by_cases hNil : w.text = []
  · rw [hNil, nil_append, dropWhile_blanks rfl]
    rcases hRest with rfl | ⟨rest, rfl⟩ <;> rfl
  · have hDrop : (w.text ++ (blanks w.right ++ rest)).dropWhile
        isBlank = w.text ++ (blanks w.right ++ rest) := by
      have hText := w.isText
      cases hCons : w.text with
      | nil => exact absurd hCons hNil
      | cons c text =>
        rw [hCons] at hText
        exact dropWhile_text (isText_singleton hText mem_cons_self) _
    rw [hDrop, takeWhile_append_of_pos, hEnd, append_nil]
    intro c hMem
    have hText := w.isText c hMem
    have hBlank : c ≠ 32 := fun hEq => absurd (hEq ▸ hText.2.2) (by decide)
    simp [hText.1, hBlank]

theorem copied_after (e : Entry) (hRest : AtComma rest) :
    copied (e.after rest) = (e.attributes.map Word.text).getD [] := by
  unfold copied Entry.after
  rw [dropWhile_blanks rfl]
  cases e.attributes with
  | none => rcases hRest with rfl | ⟨rest, rfl⟩ <;> rfl
  | some attributes => exact takeWhile_word attributes hRest

/- What the look-up gives for an element, if there is one. -/
def found : Option Element → Int × List UInt8
  | none => (-2, [])
  | some e => (0, e.attributes.getD [])

section Entries

variable {before : UInt8} {name : List UInt8}

/- What is copied for a match. -/
def copiedAt (name entry : List UInt8) : List UInt8 :=
  copied (entry.drop name.length)

def lastAttributes (name : List UInt8) (entries : List Element) :
    Option (List UInt8) :=
  (lastOf (spelled name) entries).map fun e => e.attributes.getD []

theorem copiedAt_entry (hNe : name ≠ []) (e : Entry) {rest : List UInt8}
    (hRest : AtComma rest) (result : Option (List UInt8)) :
    (if e.name.text = name then some (name ++ e.after rest)
      else result).map (copiedAt name) =
      (lastAttributes name e.element.toList).or (result.map (copiedAt name)) := by
  unfold Entry.element lastAttributes lastOf
  by_cases hEq : e.name.text = name
  · rw [if_pos hEq, if_neg (hEq ▸ hNe), hEq]
    simp [copiedAt, copied_after e hRest, spelled]
  · rw [if_neg hEq]
    by_cases hNil : e.name.text = [] <;>
      simp [hNil, hEq, spelled]

theorem listOf_cons (e : Entry) (entries : List Entry) :
    ∃ rest, listOf (e :: entries) = e.bytes ++ rest ∧
      (rest = [] ∧ entries = [] ∨ rest = 44 :: listOf entries) := by
  cases entries with
  | nil => exact ⟨[], by simp [listOf], Or.inl ⟨rfl, rfl⟩⟩
  | cons e' entries => exact ⟨_, by simp [listOf], Or.inr rfl⟩

theorem searchFrom_listOf
    (hName : IsText name) (hNe : name ≠ []) (entries : List Entry) {seen : List UInt8}
    (hSeen : AtComma seen) (result : Option (List UInt8)) :
    (searchFrom before name result seen (listOf entries)).map (copiedAt name) =
      (lastAttributes name (entries.filterMap Entry.element)).or (result.map (copiedAt name)) := by
  induction entries generalizing seen result with
  | nil => rfl
  | cons e entries ih =>
    rcases listOf_cons e entries with ⟨rest, hList, hRest⟩
    have hComma : AtComma rest := hRest.imp And.left fun hCons => ⟨_, hCons⟩
    have hElements : (e :: entries).filterMap
        Entry.element = e.element.toList ++ entries.filterMap Entry.element := by
      cases hElement : e.element <;> simp [hElement]
    have hLast : lastAttributes name ((e :: entries).filterMap Entry.element) =
        (lastAttributes name (entries.filterMap Entry.element)).or
          (lastAttributes name e.element.toList) := by
      unfold lastAttributes
      rw [hElements, lastOf_append, map_or]
    rcases @searchFrom_entry before _ hName hNe e _ _ hSeen hComma result with ⟨seen', hSearch⟩
    rw [hList, hSearch, hLast, Option.or_assoc, ← copiedAt_entry hNe e hComma]
    rcases hRest with ⟨rfl, rfl⟩ | rfl
    · rfl
    · rw [searchFrom_other hName hNe (by decide)]
      exact ih (Or.inr ⟨_, rfl⟩) _

theorem plainLookup_listOf (hName : IsText name) (hNe : name ≠ []) (entries : List Entry) :
    plainLookup before (some (listOf entries)) name =
      found (lastOf (spelled name) (attrEntries (listOf entries))) := by
  have hSearch := @searchFrom_listOf before _ hName hNe entries _ (Or.inl rfl) none
  rw [← attrEntries_listOf, map_none, or_none] at hSearch
  unfold plainLookup reverseNameSearch
  dsimp only
  rw [if_neg hNe]
  cases hFound : searchFrom before name none [] (listOf entries) with
  | none =>
    rw [hFound] at hSearch
    rw [map_eq_none_iff.mp hSearch.symm]
    rfl
  | some entry =>
    rw [hFound] at hSearch
    rcases map_eq_some_iff.mp hSearch.symm with ⟨e, hLast, hCopied⟩
    rw [hLast]
    exact congrArg (Prod.mk 0) hCopied.symm

end Entries

----
-- Regular Expressions
----

section Regex

variable {cfg : Config} {name : List UInt8} {entries : List Element}

theorem walkEntries_unreadable
    (hUnreadable : ¬ ∀ e ∈ entries, Readable cfg name e) (priv : Option (List UInt8)) :
    (walkEntries (regexCallback cfg.slre name) entries priv).1 = -22 := by
  induction entries generalizing priv with
  | nil => exact absurd (fun e hMem => nomatch hMem) hUnreadable
  | cons e entries ih =>
    have hRest : Readable cfg name e → ¬ ∀ e' ∈ entries, Readable cfg name e' :=
      fun hFirst hAll => hUnreadable (forall_mem_cons.mpr ⟨hFirst, hAll⟩)
    unfold Readable matchesName at hRest
    unfold walkEntries regexCallback
    cases hSlre : cfg.slre (whole e.name) with
    | none => rfl
    | some isMatch =>
      rw [hSlre] at hRest
      cases hMatch : isMatch name with
      | false =>
        simp only [hMatch, Bool.false_eq_true, if_false, ne_eq, not_true_eq_false]
        exact ih (hRest ⟨rfl, fun hSome =>
          absurd (hMatch.symm.trans hSome) (by decide)⟩)
          priv
      | true =>
        cases hAttributes : e.attributes with
        | none => simp [hMatch]
        | some attributes =>
          simp only [hMatch, if_true, ne_eq, not_true_eq_false, if_false]
          exact ih (hRest ⟨rfl, fun _ => by
            rw [hAttributes]
            rfl⟩) (some attributes)

theorem envAttrLookup_list (attrList : List UInt8) :
    envAttrLookup cfg.slre (some attrList) name =
      if ∀ e ∈ attrEntries attrList, Readable cfg name e then
        found (lastOf (matchesName cfg name) (attrEntries attrList))
      else (-22, []) := by
  by_cases hReadable : ∀ e ∈ attrEntries attrList, Readable cfg name e
  · rw [if_pos hReadable, envAttrLookup_eq hReadable]
    rfl
  · have hWalk := walkEntries_unreadable hReadable none
    rw [if_neg hReadable]
    unfold envAttrLookup envAttrWalk
    dsimp only
    rw [hWalk]
    rfl

theorem envAttrLookup_compiled {attrList : List UInt8}
    (hAttributes : ∀ e ∈ attrEntries attrList,
      matchesName cfg name e = true → e.attributes.isSome = true) :
    envAttrLookup cfg.slre (some attrList) name =
      if ∀ e ∈ attrEntries attrList, (cfg.slre (whole e.name)).isSome = true then
        found (lastOf (matchesName cfg name) (attrEntries attrList))
      else (-22, []) := by
  have hReadable : (∀ e ∈ attrEntries attrList, Readable cfg name e) ↔
      ∀ e ∈ attrEntries attrList, (cfg.slre (whole e.name)).isSome = true :=
    ⟨fun hAll e hMem => (hAll e hMem).1, fun hAll e hMem => ⟨hAll e hMem, hAttributes e hMem⟩⟩
  rw [envAttrLookup_list]
  exact if_congr hReadable rfl rfl

/- A name without metacharacters matches itself alone. -/
theorem lastOf_literal
    (hLiteral : ∀ e ∈ entries, cfg.slre (whole e.name) = some fun s => s == e.name) :
    lastOf (matchesName cfg name) entries = lastOf (spelled name) entries := by
  unfold lastOf
  rw [← head?_filter, ← head?_filter]
  refine congrArg head? (filter_congr fun e hMem => ?_)
  unfold matchesName spelled
  rw [hLiteral e (mem_reverse.mp hMem)]
  exact Bool.beq_comm

end Regex

/-
  Without regular expressions the look-up finds the last
  element that the walk visits with the name.  With them, if
  every element that matches has a ':', it finds the last one
  whose name as an expression matches, and fails where an
  element does not compile.
-/
theorem env_attr_lookup_last
    (cfg : Config) (before : UInt8) (entries : List Entry) {name : List UInt8}
    (hName : IsText name) (hNe : name ≠ []) :
    plainLookup before (some (listOf entries)) name =
        found (lastOf (spelled name) (attrEntries (listOf entries))) ∧
      ((∀ e ∈ attrEntries (listOf entries),
          matchesName cfg name e = true → e.attributes.isSome = true) →
        envAttrLookup cfg.slre (some (listOf entries)) name =
          if ∀ e ∈ attrEntries (listOf entries), (cfg.slre (whole e.name)).isSome = true then
            found (lastOf (matchesName cfg name) (attrEntries (listOf entries)))
          else (-22, [])) ∧
      ((∀ e ∈ attrEntries (listOf entries), cfg.slre (whole e.name) = some fun s => s == e.name) →
        lastOf (matchesName cfg name) (attrEntries (listOf entries)) =
          lastOf (spelled name) (attrEntries (listOf entries))) :=
  ⟨plainLookup_listOf hName hNe entries, envAttrLookup_compiled, lastOf_literal⟩

def wordOf (text : List UInt8) (hText : IsText text) : Word :=
  ⟨0, text, 0, hText⟩

/- The list "ab:x, ab :y,a". -/
def threeEntries : List Entry :=
  let ab := [97, 98]
  [⟨wordOf ab (by decide), some (wordOf [120] (by decide))⟩,
    ⟨⟨1, ab, 1, by decide⟩, some (wordOf [121] (by decide))⟩, ⟨wordOf [97] (by decide), none⟩]

/- The list ".*:x". -/
def anyName : List Entry :=
  [⟨wordOf [46, 42] (by decide), some (wordOf [120] (by decide))⟩]

/- The expression "^.*$", and names that match themselves. -/
def someSlre : Slre := fun regex =>
  some fun s => regex == whole [46, 42] || regex == whole s

theorem env_attr_lookup_last_three :
    plainLookup 32 (some (listOf threeEntries)) [97, 98] = (0, [121]) ∧
      envAttrLookup plainConfig.slre (some (listOf threeEntries)) [97, 98] = (0, [121]) :=
  have hLast := env_attr_lookup_last plainConfig 32 threeEntries (by decide) (by decide)
  ⟨hLast.1.trans (by decide), (hLast.2.1 (by decide)).trans (by decide)⟩

/-
  A name of the list can match other names, and the name
  "a,b" is found without regular expressions in the list of
  "a" and "b".
-/
theorem env_attr_lookup_other_name :
    envAttrLookup someSlre (some (listOf anyName)) [97] = (0, [120]) ∧
      plainLookup 32 (some [97, 44, 98]) [97, 44, 98] = (0, []) ∧
      lastOf (spelled [97]) (attrEntries (listOf anyName)) = none ∧
      lastOf (spelled [97, 44, 98]) (attrEntries [97, 44, 98]) = none := by
  decide

end Uboot.Env.Attr
