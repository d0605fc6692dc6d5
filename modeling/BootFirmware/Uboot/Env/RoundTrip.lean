import BootFirmware.Uboot.Env.FiniteMap
import BootFirmware.Uboot.Env.Transfer

/-
  Import of an exported table gives the same variables.

  With a separator other than NUL this is so for every table.
  With NUL the export does not count the characters that it
  escapes in the values, and writes past the end of its
  buffer where these are more than the room it has to spare,
  which is two characters for each entry.

  Key definitions include:
    * `IsTable`
    * `GoodKey`
    * `RoundTrips`
    * `Survives`

  The main results are:
    * `importLine_entry`
    * `importLoop_entries`
    * `hexport_himport_round_trip`
-/

----
-- Tables
----

namespace Uboot.Env

open List Function

variable {signed : Bool} {hooks : Hooks} {htab : HsearchData} {vars : CString → Option CString}
  {sep : UInt8}

/- A table whose live entries are the given variables. -/
structure IsTable
    (htab : HsearchData)
    (vars : CString → Option CString) : Prop where
  used : ∀ i used entry, htab.table i = .live used entry → 1 ≤ used ∧ used ≤ htab.size
  unique : ∀ i j entry entry', htab.entryAt i = some entry →
    htab.entryAt j = some entry' → entry.key = entry'.key → i = j
  vars : ∀ key data,
    vars key = some data ↔ ∃ i, 1 ≤ i ∧ i ≤ htab.size ∧ htab.entryAt i = some ⟨key, data⟩

/- The tables that keep their map are such tables. -/
theorem Kept.isTable {t : Tracked} (hKept : Kept signed t) :
    IsTable t.htab t.vars where
  used i used entry hAt := by
    rw [hKept.hashed i used entry hAt]
    exact firstIdx_mem signed hKept.size entry.key
  unique i j entry entry' hi hj hKey := by
    rcases entryAt_eq_some_iff.mp hi with ⟨used, hAt⟩
    rcases entryAt_eq_some_iff.mp hj with ⟨used', hAt'⟩
    refine hKept.sound.unique i j entry.key entry.data
      entry'.data (content_eq_live_iff.mpr ⟨used, hAt⟩) ?_
    rw [hKey]
    exact content_eq_live_iff.mpr ⟨used', hAt'⟩
  vars key data := by
    rw [← hKept.vars key data]
    constructor
    · rintro ⟨i, h⟩
      rcases hKept.sound.reachable i key data h with ⟨j, hj, hTried, -⟩
      have hMem := tried_range signed hKept.size key hj
      rw [hTried] at hMem
      rcases content_eq_live_iff.mp h with ⟨used, hAt⟩
      exact ⟨i, hMem.1, hMem.2, entryAt_eq_some_iff.mpr ⟨used, hAt⟩⟩
    · rintro ⟨i, -, -, hEntry⟩
      rcases entryAt_eq_some_iff.mp hEntry with ⟨used, hAt⟩
      exact ⟨i, content_eq_live_iff.mpr ⟨used, hAt⟩⟩

/-
  A table without deleted slots that is not full has a free
  slot.
-/
theorem Kept.exists_free
    {t : Tracked} (hKept : Kept signed t) (hFresh : ∀ i, t.htab.table i ≠ .deleted)
    (hRoom : t.htab.filled ≠ t.htab.size) :
    ∃ i, 1 ≤ i ∧ i ≤ t.htab.size ∧ t.htab.table i = .free := by
  by_contra hNone
  have hLive : ∀ i, 1 ≤ i ∧ i ≤ t.htab.size → ∃ entry, t.htab.entryAt i = some entry := by
    intro i hi
    unfold HsearchData.entryAt
    cases hSlot : t.htab.table i with
    | free => exact absurd ⟨i, hi.1, hi.2, hSlot⟩ hNone
    | deleted => exact absurd hSlot (hFresh i)
    | live used entry => exact ⟨entry, rfl⟩
  have hCard :
      (Finset.Icc 1 t.htab.size : Set Nat).ncard ≤ t.live.ncard := by
    refine Set.ncard_le_ncard_of_injOn
      (fun i => ((t.htab.entryAt i).map Entry.key).getD ⟨[], not_mem_nil⟩) ?_ ?_ hKept.finite
    · intro i hi
      rcases hLive i (Finset.mem_Icc.mp hi) with ⟨entry, hEntry⟩
      rw [hEntry]
      intro hAbsent
      rw [Option.map_some, Option.getD_some, hKept.mem_live_of_entryAt hEntry] at hAbsent
      cases hAbsent
    · intro i hi j hj hKey
      rcases hLive i (Finset.mem_Icc.mp hi) with ⟨entry, hi'⟩
      rcases hLive j (Finset.mem_Icc.mp hj) with ⟨entry', hj'⟩
      dsimp only at hKey
      rw [hi', hj'] at hKey
      exact hKept.isTable.unique i j entry entry' hi' hj' hKey
  rw [Set.ncard_coe_finset, Nat.card_Icc, ← hKept.filled] at hCard
  have hLe := hKept.filled_le
  omega

/- A new key in a table without deleted slots. -/
theorem Kept.enter_fresh (hKept : Kept signed ⟨htab, vars⟩) (hAccept : hooks.Accepting)
    (hFresh : ∀ i, htab.table i ≠ .deleted) {key : CString}
    (hAbsent : vars key = none) (hRoom : htab.filled < htab.size) (data : CString) (flag : Nat) :
    ∃ r, hsearchR signed hooks ⟨key, some data⟩ .enter htab flag = some r ∧
      Kept signed ⟨r.htab, update vars key (some data)⟩ ∧
      (∀ i, r.htab.table i ≠ .deleted) ∧ r.htab.filled = htab.filled + 1 ∧
      r.htab.size = htab.size := by
  have hNe : htab.filled ≠ htab.size := Nat.ne_of_lt hRoom
  have hLt := hKept.size.lt
  dsimp only at hLt
  rcases hKept.enter_new hAccept data flag hAbsent hNe with ⟨idx, idx', -, hRun, -⟩
  have hKeeps : Keeps signed ⟨htab, vars⟩ (.enter key data flag) :=
    fun _ _ => Or.inl (hKept.exists_free hFresh hNe)
  rcases hKept.apply hAccept hKeeps with ⟨t', hApply, hAfter⟩
  unfold Tracked.apply at hApply
  dsimp only at hApply hRun
  rw [hRun] at hApply
  cases hApply
  refine ⟨_, hRun, hAfter, ?_, ?_, rfl⟩
  · intro i
    unfold HsearchData.put
    by_cases hi : i = idx'
    · rw [hi, set_self]
      exact nofun
    · rw [set_of_ne _ _ hi]
      exact hFresh i
  · exact u32_of_lt (by omega)

----
-- Reading One Entry
----

/- A key that can be written and read with the separator. -/
structure GoodKey
    (sep : UInt8)
    (key : CString) : Prop where
  nonempty : key.bytes ≠ []
  no_equals : 61 ∉ key.bytes
  no_sep : sep ∉ key.bytes
  first : ∀ c, key.bytes.head? = some c → isblank c = false ∧ c ≠ 35

theorem ofBytes_bytes (text : CString) :
    CString.ofBytes text.bytes = text := by
  unfold CString.ofBytes
  congr
  refine takeWhile_eq_self_iff.mpr ?_
  intro c hc
  rw [bne_iff_ne]
  rintro rfl
  exact text.no_nul hc

theorem GoodKey.inName {key : CString} (hGood : GoodKey sep key) :
    ∀ c ∈ key.bytes, inName sep c = true := by
  intro c hc
  have hEquals : c ≠ 61 := fun h => hGood.no_equals (h ▸ hc)
  have hNul : c ≠ 0 := fun h => key.no_nul (h ▸ hc)
  have hSep : c ≠ sep := fun h => hGood.no_sep (h ▸ hc)
  unfold Env.inName
  rw [Bool.and_eq_true, Bool.and_eq_true, bne_iff_ne, bne_iff_ne, bne_iff_ne]
  exact ⟨⟨hEquals, hNul⟩, hSep⟩

section

variable (hSep : sep = 0 ∨ sep = 10)
include hSep

/- Both separators differ from the other special bytes. -/
theorem sep_ne : sep ≠ 61 ∧ sep ≠ 92 ∧ sep ≠ 35 := by
  rcases hSep with rfl | rfl
  · decide
  · decide

/- No value starts with what would end it. -/
theorem escape_first {data : CString} (hData : data.bytes ≠ []) :
    ∃ c text, Escaping.escape 92 (escaped sep) data.bytes = c :: text ∧ c ≠ 0 ∧ c ≠ sep := by
  rcases exists_cons_of_ne_nil hData with ⟨c, text, hBytes⟩
  have hNul : c ≠ 0 := by
    rintro rfl
    exact data.no_nul (hBytes ▸ mem_cons_self)
  rw [hBytes]
  unfold Escaping.escape
  by_cases hEscaped : escaped sep c = true
  · rw [if_pos hEscaped]
    exact ⟨92, _, rfl, by decide, (sep_ne hSep).2.1.symm⟩
  · rw [if_neg hEscaped]
    refine ⟨c, _, rfl, hNul, ?_⟩
    rintro rfl
    exact hEscaped (by unfold escaped; rw [beq_self_eq_true]; rfl)

/- A value is read back up to the separator. -/
theorem parseValue_escape (data : CString) (rest : List UInt8) :
    parseValue sep (Escaping.escape 92 (escaped sep) data.bytes ++ sep :: rest) =
      (data.bytes, sep :: rest) := by
  refine Escaping.scan_escape ?_ ?_ ?_ ?_ ?_ rest
  · unfold escaped
    rw [beq_self_eq_true, Bool.or_true]
  · rw [Bool.or_eq_false_iff]
    exact ⟨rfl, beq_eq_false_iff_ne.mpr (sep_ne hSep).2.1.symm⟩
  · intro c hc hEnds
    unfold escaped
    rcases Bool.or_eq_true_iff.mp hEnds with hNul | hIsSep
    · rw [beq_iff_eq.mp hNul] at hc
      exact absurd hc data.no_nul
    · rw [hIsSep, Bool.true_or]
  · intro c hc _
    rw [bne_iff_ne]
    rintro rfl
    exact data.no_nul hc
  · rw [beq_self_eq_true, Bool.or_true]

end

/-
  A text of a name and a value that is not empty is entered,
  if it has a name.
-/
theorem importLine_insert (signed : Bool) (hooks : Hooks) (hSep : sep = 0 ∨ sep = 10)
    {name value text dp rest : List UInt8} {d : UInt8}
    (hName : ∀ c ∈ name, inName sep c = true) (hComment : name.head? ≠ some 35)
    (hDp : dp.dropWhile isblank = name ++ 61 :: d :: text) (hNul : d ≠ 0) (hNotSep : d ≠ sep)
    (hValue : parseValue sep (d :: text) = (value, sep :: rest)) (flag : Nat) (htab : HsearchData) :
    importLine signed hooks sep flag ⟨dp, htab, []⟩ =
      if name = [] then some (.emptyKey htab)
      else
        (hsearchR signed hooks ⟨CString.ofBytes name, some (CString.ofBytes value)⟩
          .enter htab flag).map fun r => .parsed ⟨rest, r.htab, []⟩ := by
  have hSepNe := sep_ne hSep
  have hStop : inName sep 61 = false := by
    unfold inName
    rw [show ((61 : UInt8) != 61) = false from rfl, Bool.false_and, Bool.false_and]
  have hHead : (name ++ 61 :: d :: text).head? ≠ some 35 := by
    cases name with
    | nil => exact nofun
    | cons c name => exact hComment
  have hTake :
      (name ++ 61 :: d :: text).takeWhile (inName sep) = name := by
    rw [takeWhile_append_of_pos hName, takeWhile_cons_of_neg (Bool.eq_false_iff.mp hStop),
      append_nil]
  have hDrop : (name ++ 61 :: d :: text).dropWhile (inName sep) = 61 :: d :: text := by
    rw [dropWhile_append_of_pos hName, dropWhile_cons_of_neg (Bool.eq_false_iff.mp hStop)]
  have hInsert : isDelete sep (61 :: d :: text) = false := by
    unfold isDelete
    dsimp only
    rw [beq_eq_false_iff_ne.mpr hNul, beq_eq_false_iff_ne.mpr hNotSep,
      beq_eq_false_iff_ne.mpr hSepNe.1.symm]
    rfl
  unfold importLine
  dsimp only
  rw [hDp, if_neg hHead, hTake, hDrop, hInsert, if_neg nofun]
  dsimp only [tail_cons]
  rw [hValue]
  rfl

variable {entry : Entry}

theorem importLine_entry (signed : Bool) (hooks : Hooks) (hSep : sep = 0 ∨ sep = 10)
    (hGood : GoodKey sep entry.key) (hData : entry.data.bytes ≠ [])
    (flag : Nat) (htab : HsearchData) (rest : List UInt8) :
    importLine signed hooks sep flag ⟨entryText sep entry ++ rest, htab, []⟩ =
      (hsearchR signed hooks ⟨entry.key, some entry.data⟩
        .enter htab flag).map fun r => .parsed ⟨rest, r.htab, []⟩ := by
  rcases exists_cons_of_ne_nil hGood.nonempty with ⟨c, name, hName⟩
  have hFirst := hGood.first c (by rw [hName]; rfl)
  rcases escape_first hSep hData with ⟨d, text, hText, hNul, hNotSep⟩
  have hBlanks :
      (entryText sep entry ++ rest).dropWhile isblank =
        entry.key.bytes ++ 61 :: d :: (text ++ sep :: rest) := by
    unfold entryText
    rw [hText, hName, append_assoc, cons_append,
      dropWhile_cons_of_neg (Bool.eq_false_iff.mp hFirst.1)]
    simp only [append_assoc, cons_append, nil_append]
  have hValue := parseValue_escape hSep entry.data rest
  rw [hText, cons_append] at hValue
  have hComment : entry.key.bytes.head? ≠ some 35 := by
    rw [hName]
    intro hHead
    cases hHead
    exact hFirst.2 rfl
  rw [importLine_insert signed hooks hSep hGood.inName hComment
    hBlanks hNul hNotSep hValue, if_neg hGood.nonempty, ofBytes_bytes, ofBytes_bytes]

----
-- Reading All Entries
----

/- Variables with the entries of a list. -/
def WithEntries (vars vars' : CString → Option CString)
    (list : List Entry) : Prop :=
  ∀ key data, vars' key = some data ↔ vars key = some data ∨ ⟨key, data⟩ ∈ list

variable {list : List Entry} {vars' : CString → Option CString}

theorem WithEntries.cons (hNew : vars entry.key = none)
    (hRest : WithEntries (update vars entry.key (some entry.data)) vars' list) :
    WithEntries vars vars' (entry :: list) := by
  intro key data
  rw [hRest key data, update_eq_some_iff, mem_cons]
  constructor
  · rintro ((⟨rfl, hData⟩ | ⟨-, hOld⟩) | hIn)
    · cases hData
      exact Or.inr (Or.inl rfl)
    · exact Or.inl hOld
    · exact Or.inr (Or.inr hIn)
  · rintro (hOld | rfl | hIn)
    · refine Or.inl (Or.inr ⟨?_, hOld⟩)
      rintro rfl
      rw [hNew] at hOld
      cases hOld
    · exact Or.inl (Or.inl ⟨rfl, rfl⟩)
    · exact Or.inr hIn

variable {last : List UInt8}

/-
  The loop enters the exported entries one by one, and stops
  at the bytes after them.
-/
theorem importLoop_entries
    (hAccept : hooks.Accepting) (hSep : sep = 0 ∨ sep = 10) (flag : Nat) {after : Nat}
    (hAfter : after ≤ last.length) (hLast : last.head? = some 0)
    (hGood : ∀ e ∈ entry :: list, GoodKey sep e.key ∧ e.data.bytes ≠ [])
    (hDistinct : (entry :: list).Pairwise fun e e' => e.key ≠ e'.key)
    (hNew : ∀ e ∈ entry :: list, vars e.key = none) (hKept : Kept signed ⟨htab, vars⟩)
    (hFresh : ∀ i, htab.table i ≠ .deleted)
    (hRoom : htab.filled + list.length < htab.size) (fuel : Nat) (hFuel : list.length < fuel) :
    ∃ htab' vars', importLoop signed hooks sep flag after fuel
        ⟨(entry :: list).flatMap (entryText sep) ++ last,
          htab, []⟩ = some (true, ⟨last, htab', []⟩) ∧
      Kept signed ⟨htab', vars'⟩ ∧ WithEntries vars vars' (entry :: list) := by
  induction list generalizing entry htab vars fuel with
  | nil =>
    cases fuel with
    | zero => omega
    | succ fuel =>
      have hEntry := hGood entry mem_cons_self
      rcases hKept.enter_fresh hAccept hFresh (hNew entry mem_cons_self) (by simpa using hRoom)
        entry.data flag with ⟨r, hRun, hAfterKept, -⟩
      refine ⟨r.htab, _, ?_, hAfterKept, ?_⟩
      · unfold importLoop
        rw [flatMap_singleton, importLine_entry signed hooks hSep hEntry.1 hEntry.2, hRun]
        dsimp only [Option.map_some]
        rw [if_neg fun h => h.2 hLast]
      · refine WithEntries.cons (hNew entry mem_cons_self) ?_
        intro key data
        exact (or_iff_left not_mem_nil).symm
  | cons next list ih =>
    cases fuel with
    | zero => omega
    | succ fuel =>
      have hEntry := hGood entry mem_cons_self
      have hApart := pairwise_cons.mp hDistinct
      rw [length_cons] at hRoom hFuel
      rcases hKept.enter_fresh hAccept hFresh (hNew entry mem_cons_self) (by omega)
        entry.data flag with ⟨r, hRun, hAfterKept, hStill, hFilled, hSize⟩
      have hStillNew :
          ∀ e ∈ next :: list, update vars entry.key (some entry.data) e.key = none := by
        intro e he
        rw [update_of_ne (hApart.1 e he).symm]
        exact hNew e (mem_cons_of_mem _ he)
      rcases ih (fun e he => hGood e (mem_cons_of_mem _ he))
        hApart.2 hStillNew hAfterKept hStill (by omega)
        fuel (by omega) with ⟨htab', vars', hLoop, hEnd, hWith⟩
      refine ⟨htab', vars', ?_, hEnd, WithEntries.cons (hNew entry mem_cons_self) hWith⟩
      have hNext := hGood next (mem_cons_of_mem _ mem_cons_self)
      rcases exists_cons_of_ne_nil hNext.1.nonempty with ⟨c, name, hName⟩
      have hNul : c ≠ 0 := by
        rintro rfl
        exact next.key.no_nul (hName ▸ mem_cons_self)
      unfold importLoop
      rw [flatMap_cons, append_assoc, importLine_entry signed hooks hSep hEntry.1 hEntry.2, hRun]
      dsimp only [Option.map_some]
      rw [if_pos]
      · exact hLoop
      · constructor
        · rw [flatMap_cons, entryText, hName]
          simp only [length_append, length_cons]
          omega
        · rw [flatMap_cons, entryText, hName]
          simpa using hNul

----
-- What Is Exported
----

variable {matchEntry : Entry → Bool} {flag : Nat}

section

variable (hTable : IsTable htab vars) (hSize : htab.size < 2 ^ 31 - 1)
  (hHide : hHideDot flag = false)
include hTable hSize hHide

/- Pass 1 selects all entries of such a table. -/
theorem exported_eq :
    exported matchEntry htab flag 0 = (List.range' 1 htab.size).filterMap htab.entryAt := by
  unfold exported
  congr
  funext i
  unfold HsearchData.entryAt
  cases hAt : htab.table i with
  | free => rfl
  | deleted => rfl
  | live used entry =>
    have hUsed := hTable.used i used entry hAt
    dsimp only
    rw [toInt_of_lt (by omega), if_neg (by omega), if_neg (fun h => absurd h.1 (Nat.lt_irrefl 0)),
      if_neg (fun h => by rw [hHide] at h; exact nomatch h.1)]

theorem mem_exported (entry : Entry) :
    entry ∈ exported matchEntry htab flag 0 ↔ vars entry.key = some entry.data := by
  rw [exported_eq hTable hSize hHide, mem_filterMap, hTable.vars]
  constructor
  · rintro ⟨i, hi, hEntry⟩
    rw [mem_range'_1] at hi
    exact ⟨i, hi.1, by omega, hEntry⟩
  · rintro ⟨i, hLow, hHigh, hEntry⟩
    exact ⟨i, mem_range'_1.mpr ⟨hLow, by omega⟩, hEntry⟩

theorem exported_distinct :
    (exported matchEntry htab flag 0).Pairwise fun e e' => e.key ≠ e'.key := by
  rw [exported_eq hTable hSize hHide, pairwise_filterMap]
  refine List.Pairwise.imp ?_ (pairwise_lt_range' 1)
  intro i j hLt e he e' he' hKey
  have hEq := hTable.unique i j e e' he he' hKey
  omega

end

/- The backslashes in the values of a list. -/
def backslashes : List Entry → Nat
  | [] => 0
  | entry :: list => entry.data.bytes.count 92 + backslashes list

theorem countP_escaped_nul (data : CString) :
    data.bytes.countP (escaped 0) = data.bytes.count 92 := by
  refine countP_congr ?_
  intro c hc
  have hNul : (c == 0) = false := by
    rw [beq_eq_false_iff_ne]
    rintro rfl
    exact data.no_nul hc
  unfold escaped
  rw [hNul, Bool.false_or]

theorem length_entryText (sep : UInt8) (entry : Entry) :
    (entryText sep entry).length + 2 =
      entryLen sep entry + (if sep = 0 then entry.data.bytes.count 92 else 0) := by
  have hText :
      (entryText sep entry).length = entry.key.bytes.length +
          (entry.data.bytes.length + entry.data.bytes.countP (escaped sep)) + 2 := by
    unfold entryText
    rw [length_append, length_cons, length_append, Escaping.length_escape, length_singleton]
    omega
  rw [hText]
  unfold entryLen
  dsimp only
  by_cases hNul : sep = 0
  · rw [if_pos hNul, if_pos hNul, hNul, countP_escaped_nul]
    omega
  · rw [if_neg hNul, if_neg hNul]
    omega

/- The text has two characters to spare for each entry. -/
theorem length_text (sep : UInt8) (list : List Entry) :
    (list.flatMap (entryText sep)).length + 2 * list.length =
      totlen sep list + (if sep = 0 then backslashes list else 0) := by
  induction list with
  | nil =>
    split
    · rfl
    · rfl
  | cons entry list ih =>
    have hEntry := length_entryText sep entry
    rw [flatMap_cons, length_append, length_cons]
    unfold totlen backslashes
    by_cases hNul : sep = 0
    · rw [if_pos hNul] at ih hEntry ⊢
      omega
    · rw [if_neg hNul] at ih hEntry ⊢
      omega

/- The text of the entries in their order. -/
def exportText (matchEntry : Entry → Bool) (htab : HsearchData) (sep : UInt8) (flag : Nat) :
    List UInt8 :=
  (qsort cmpkey (exported matchEntry htab flag 0)).flatMap (entryText sep)

/- The size that is returned for the whole table. -/
def exportSize (matchEntry : Entry → Bool) (htab : HsearchData) (sep : UInt8) (flag : Nat) :
    Nat :=
  totlen sep (exported matchEntry htab flag 0) + 1

/-
  With NUL, the values have no more backslashes than there is
  room to spare.
-/
def Spares (matchEntry : Entry → Bool) (htab : HsearchData) (sep : UInt8)
    (flag : Nat) : Prop :=
  sep = 0 →
    backslashes (exported matchEntry htab flag 0) ≤ 2 * (exported matchEntry htab flag 0).length

theorem spares_iff (matchEntry : Entry → Bool) (htab : HsearchData) (sep : UInt8) (flag : Nat) :
    Spares matchEntry htab sep flag ↔
      (exportText matchEntry htab sep flag).length + 1 ≤ exportSize matchEntry htab sep flag := by
  have hPerm := (qsort_perm cmpkey (exported matchEntry htab flag 0)).flatMap_right (entryText sep)
  have hText := length_text sep (exported matchEntry htab flag 0)
  unfold Spares exportText exportSize
  rw [hPerm.length_eq]
  by_cases hNul : sep = 0
  · rw [if_pos hNul] at hText
    constructor
    · intro hSpare
      have hLe := hSpare hNul
      omega
    · intro _ _
      omega
  · rw [if_neg hNul] at hText
    constructor
    · intro _
      omega
    · intro _ hEq
      exact absurd hEq hNul

/- Export writes the text and clears the rest. -/
theorem hexportR_spares (hSize : htab.size < 2 ^ 31 - 1) (hSpares : Spares matchEntry htab sep flag)
    (resp : Option (List UInt8))
    (hResp : ∀ res, resp = some res → exportSize matchEntry htab sep flag ≤ res.length) :
    ∃ buf : List UInt8, hexportR matchEntry htab sep flag resp 0 0 =
        some (↑(exportSize matchEntry htab sep flag), buf) ∧
      exportSize matchEntry htab sep flag ≤ buf.length ∧
      buf.take (exportSize matchEntry htab sep flag) = exportText matchEntry htab sep flag ++
          List.replicate
            (exportSize matchEntry htab sep flag - (exportText matchEntry htab sep flag).length)
            0 := by
  have hFits := (spares_iff matchEntry htab sep flag).mp hSpares
  have hClear :
      ∃ more, clearBuffer resp (exportSize matchEntry htab sep flag) =
          some (List.replicate (exportSize matchEntry htab sep flag) 0 ++ more)
      := by
    unfold clearBuffer
    cases resp with
    | none => exact ⟨[], by rw [append_nil]⟩
    | some res =>
      dsimp only
      rw [if_neg (Nat.not_lt.mpr (hResp res rfl))]
      exact ⟨_, rfl⟩
  rcases hClear with ⟨more, hClear⟩
  generalize hText : exportText matchEntry htab sep flag = text at hFits ⊢
  generalize hS : exportSize matchEntry htab sep flag = size at hFits hClear ⊢
  refine ⟨text ++ [0] ++ (List.replicate size 0 ++ more).drop (text.length + 1), ?_, ?_, ?_⟩
  · unfold hexportR
    rw [if_neg (by omega)]
    dsimp only
    rw [if_neg (fun h => h.1 rfl), if_pos rfl,
      show totlen sep (exported matchEntry htab flag 0) + 1 = size from hS, hClear]
    dsimp only
    unfold writeText
    rw [show (qsort cmpkey
        (exported matchEntry htab flag 0)).flatMap (entryText sep) = text from hText,
      length_append, length_append, length_replicate, length_singleton,
      if_neg (by omega)]
    rfl
  · rw [length_append, length_append, length_drop, length_append,
      length_replicate, length_singleton]
    omega
  · have hDrop :
        (List.replicate size (0 : UInt8) ++ more).drop (text.length + 1) =
          List.replicate (size - text.length - 1) 0 ++ more := by
      rw [drop_append_of_le_length (by
        rw [length_replicate]; omega), drop_replicate]
      congr 2
    rw [hDrop, append_assoc, ← append_assoc [0],
      show ([0] : List UInt8) = List.replicate 1 0 from rfl, replicate_append_replicate,
      show 1 + (size - text.length - 1) = size - text.length by omega, ← append_assoc]
    refine take_left' ?_
    rw [length_append, length_replicate]
    omega

/- Without spare room, the text is longer than the buffer. -/
theorem hexportR_overflows (hSpares : ¬ Spares matchEntry htab sep flag) :
    hexportR matchEntry htab sep flag none 0 0 = none := by
  have hLong :
      ¬ (exportText matchEntry htab sep flag).length + 1 ≤ exportSize matchEntry htab sep flag :=
    fun h => hSpares ((spares_iff matchEntry htab sep flag).mpr h)
  unfold exportText exportSize at hLong
  unfold hexportR
  by_cases hSize : 2 ^ 31 - 1 ≤ htab.size
  · rw [if_pos hSize]
  · rw [if_neg hSize]
    rw [if_neg (fun h => h.1 rfl), if_pos rfl]
    unfold clearBuffer writeText
    dsimp only
    rw [length_append, length_replicate, length_singleton, if_pos (by omega)]
    rfl

theorem hexportR_huge (hSize : ¬ htab.size < 2 ^ 31 - 1) (resp : Option (List UInt8)) :
    hexportR matchEntry htab sep flag resp 0 0 = none := by
  unfold hexportR
  rw [if_pos (by omega)]

----
-- The Round Trip
----

variable {config : Config} {old : Option HsearchData}

/- The old table, if there is one, can be destroyed. -/
def Destroyed (old : Option HsearchData) : Prop :=
  ∀ htab, old = some htab → htab.size < 2 ^ 31 - 1

theorem importTable_destroyed
    (config : Config) (size : Nat) (hClear : hNoclear flag = false) (hOld : Destroyed old) :
    ∃ new, importTable config old size flag = some ⟨fun _ => .free, new, 0⟩ ∧ TableSize new := by
  unfold importTable
  dsimp only
  generalize
    (if (config.envMaxEntries : Int) < toInt (config.envMinEntries + size / 8) then
      (config.envMaxEntries : Int)
    else
      toInt (config.envMinEntries + size / 8)) = nent
  rcases hcreateR_ends (nent % 2 ^ 32).toNat with ⟨new, hSize, hCreate⟩
  refine ⟨new, ?_, hSize⟩
  cases old with
  | none => exact hCreate
  | some htab =>
    have hFits := hOld htab rfl
    dsimp only
    rw [if_neg (by rw [hClear]; exact nofun)]
    unfold hdestroyR
    rw [if_neg (by omega)]
    exact hCreate

theorem importTable_huge
    (config : Config) (size : Nat) (hClear : hNoclear flag = false) (hOld : ¬ Destroyed old) :
    importTable config old size flag = none := by
  rcases not_forall.mp hOld with ⟨htab, hOld⟩
  rcases Classical.not_imp.mp hOld with ⟨rfl, hHuge⟩
  unfold importTable
  dsimp only
  rw [if_neg (by rw [hClear]; exact nofun)]
  unfold hdestroyR
  rw [if_pos (by omega)]
  rfl

/- The text of no entries names nothing. -/
theorem importLoop_empty
    (hooks : Hooks) (hKept : Kept signed ⟨htab, vars⟩) (hNone : vars (CString.ofBytes []) = none)
    (sep : UInt8) (flag after fuel : Nat) (hLast : last.head? = some 0) :
    importLoop signed hooks sep flag after (fuel + 1)
      ⟨0 :: last, htab, []⟩ = some (true, ⟨last, htab, []⟩) := by
  have hDelete := hKept.delete_absent hooks flag hNone
  rcases head?_eq_some_iff.mp hLast with ⟨more, hMore⟩
  have hLine :
      importLine signed hooks sep flag ⟨0 :: last, htab, []⟩ = some (.parsed ⟨last, htab, []⟩) := by
    unfold importLine
    dsimp only
    rw [dropWhile_cons_of_neg (by decide), if_neg (by rw [head?_cons]; decide),
      takeWhile_cons_of_neg (by simp [inName]), dropWhile_cons_of_neg (by simp [inName]),
      show isDelete sep (0 :: last) = true by
        rw [hMore]; simp [isDelete]]
    rw [if_pos rfl, if_neg (by rw [head?_cons]; decide)]
    unfold deleteVar dropVarFromSet
    dsimp only [tail_cons]
    rw [if_pos rfl]
    rw [if_pos rfl, hDelete]
    rfl
  unfold importLoop
  rw [hLine]
  exact if_neg (fun h => h.2 hLast)

theorem length_le_text (sep : UInt8) (list : List Entry) :
    list.length ≤ (list.flatMap (entryText sep)).length := by
  induction list with
  | nil => exact Nat.zero_le _
  | cons entry list ih =>
    rw [flatMap_cons, length_append, length_cons]
    have hText : 1 ≤ (entryText sep entry).length := by
      unfold entryText
      rw [length_append, length_cons]
      omega
    omega

/- The loop over the bytes of a list of such entries. -/
theorem importLoop_text (signed : Bool) (hAccept : hooks.Accepting)
    (hSep : sep = 0 ∨ sep = 10) (flag zeros : Nat) (hZeros : 1 ≤ zeros)
    (hGood : ∀ e ∈ list, GoodKey sep e.key ∧ e.data.bytes ≠ [])
    (hDistinct : list.Pairwise fun e e' => e.key ≠ e'.key) {size : Nat}
    (hSize : TableSize size) (hRoom : list.length ≤ size) (hEmpty : list = [] → zeros = 1) :
    ∃ htab vars', importLoop signed hooks sep flag 1
        ((list.flatMap (entryText sep) ++ List.replicate zeros 0 ++ [0]).length + 1)
        ⟨list.flatMap (entryText sep) ++ List.replicate zeros 0 ++ [0],
          ⟨fun _ => .free, size, 0⟩, []⟩ =
        some (true, ⟨if list = [] then [0]
          else List.replicate zeros 0 ++ [0], htab, []⟩) ∧
      Kept signed ⟨htab, vars'⟩ ∧ WithEntries (fun _ => none) vars' list := by
  have hKept : Kept signed ⟨⟨fun _ => .free, size, 0⟩, fun _ => none⟩ := Kept.created hSize
  cases list with
  | nil =>
    rw [hEmpty rfl]
    refine ⟨_, _, importLoop_empty hooks hKept rfl sep flag 1 _ rfl, hKept, ?_⟩
    intro key data
    exact (or_iff_left not_mem_nil).symm
  | cons entry list =>
    have hFuel := length_le_text sep (entry :: list)
    rw [if_neg nofun, append_assoc]
    refine importLoop_entries hAccept hSep flag ?_ ?_ hGood
      hDistinct (fun _ _ => rfl) hKept (fun _ => nofun) ?_ _
      ?_
    · rw [length_append]
      exact Nat.le_add_left 1 _
    · rcases Nat.exists_eq_succ_of_ne_zero (show zeros ≠ 0 by omega) with ⟨n, rfl⟩
      rfl
    · rw [length_cons] at hRoom
      dsimp only
      omega
    · rw [length_append]
      rw [length_cons] at hFuel
      omega

/- The table of such a map. -/
theorem WithEntries.eq (hWith : WithEntries (fun _ => none) vars' list)
    (hList : ∀ entry, entry ∈ list ↔ vars entry.key = some entry.data) :
    vars' = vars := by
  funext key
  refine Option.ext fun data => ?_
  rw [hWith key data, hList ⟨key, data⟩]
  exact or_iff_right nofun

/-
  The import of the exported bytes ends with a table of the
  same variables.
-/
theorem himportR_exported (config : Config) (hAccept : hooks.Accepting) (hSep : sep = 0 ∨ sep = 10)
    {expFlag impFlag : Nat} (hHide : hHideDot expFlag = false)
    (hClear : hNoclear impFlag = false) (hTable : IsTable htab vars)
    (hSize : htab.size < 2 ^ 31 - 1) (hOld : Destroyed old)
    (hGood : ∀ key data, vars key = some data → GoodKey sep key ∧ data.bytes ≠ [])
    (hRoom : ∀ new,
      importTable config old (exportSize matchEntry htab sep expFlag) impFlag = some new →
      (exported matchEntry htab expFlag 0).length ≤ new.size)
    (hSpares : Spares matchEntry htab sep expFlag) {buf : List UInt8}
    (hLong : exportSize matchEntry htab sep expFlag ≤ buf.length)
    (hBuf :
      buf.take (exportSize matchEntry htab sep expFlag) = exportText matchEntry htab sep expFlag ++
          List.replicate
            (exportSize matchEntry htab sep expFlag -
              (exportText matchEntry htab sep expFlag).length)
            0) :
    ∃ htab',
      himportR config signed hooks old buf (exportSize matchEntry htab sep expFlag) sep impFlag
        false [] = some (1, htab') ∧
      IsMap signed hooks ⟨htab', vars⟩ := by
  have hPerm := qsort_perm cmpkey (exported matchEntry htab expFlag 0)
  have hList : ∀ entry, entry ∈ qsort cmpkey (exported matchEntry htab expFlag 0)
        ↔ vars entry.key = some entry.data := fun entry =>
    hPerm.mem_iff.trans (mem_exported hTable hSize hHide entry)
  have hDistinct :
      (qsort cmpkey (exported matchEntry htab expFlag 0)).Pairwise fun e e' => e.key ≠ e'.key :=
    (hPerm.symm.pairwise_iff fun {a b} h => h.symm).mp (exported_distinct hTable hSize hHide)
  have hFits := (spares_iff matchEntry htab sep expFlag).mp hSpares
  rcases importTable_destroyed config
    (exportSize matchEntry htab sep expFlag) hClear hOld with ⟨new, hTableNew, hNew⟩
  have hEnough := hRoom _ hTableNew
  rw [← hPerm.length_eq] at hEnough
  have hEmpty :
      qsort cmpkey (exported matchEntry htab expFlag 0) = [] →
        exportSize matchEntry htab sep expFlag - (exportText matchEntry htab sep expFlag).length = 1
      := by
    intro hNil
    have hNone := hPerm.symm
    rw [hNil] at hNone
    unfold exportText exportSize
    rw [hNil, hNone.eq_nil]
    rfl
  rcases importLoop_text signed hAccept hSep impFlag
    (exportSize matchEntry htab sep expFlag - (exportText matchEntry htab sep expFlag).length)
    (by omega) (fun e he => hGood e.key e.data ((hList e).mp he))
    hDistinct hNew hEnough hEmpty with ⟨htab', vars', hLoop, hKept, hWith⟩
  have hVars := hWith.eq hList
  subst hVars
  refine ⟨htab', ?_, hKept.isMap hAccept⟩
  have hData :
      buf.take (exportSize matchEntry htab sep expFlag) ++ [0] =
        (qsort cmpkey (exported matchEntry htab expFlag 0)).flatMap (entryText sep) ++
          List.replicate
            (exportSize matchEntry htab sep expFlag -
              (exportText matchEntry htab sep expFlag).length)
            0 ++ [0] := by
    rw [hBuf]
    rfl
  have hAfter :
      (buf.take (exportSize matchEntry htab sep expFlag) ++
        [0]).length - exportSize matchEntry htab sep expFlag = 1 := by
    rw [length_append, length_take, length_singleton]
    omega
  unfold himportR
  rw [if_neg (Nat.not_lt.mpr hLong)]
  rw [hTableNew]
  dsimp only
  rw [if_neg (by unfold exportSize; omega), if_neg nofun]
  rw [hAfter, hData, map_nil, hLoop]
  rfl

/-
  Exporting the table and importing the bytes produced gives
  a table of the same variables.
-/
def RoundTrips (config : Config) (signed : Bool) (hooks : Hooks)
    (matchEntry : Entry → Bool) (htab : HsearchData)
    (vars : CString → Option CString) (sep : UInt8) (expFlag impFlag : Nat)
    (resp : Option (List UInt8))
    (old : Option HsearchData) : Prop :=
  ∃ size buf htab', hexportR matchEntry htab sep expFlag resp 0 0 = some (size, buf) ∧
    himportR config signed hooks old buf size.toNat sep impFlag false [] = some (1, htab') ∧
    IsMap signed hooks ⟨htab', vars⟩

/-
  The loops over both tables can count to their ends, and
  with NUL the values have at most two backslashes for each
  variable.
-/
def Survives (matchEntry : Entry → Bool) (htab : HsearchData) (sep : UInt8) (expFlag : Nat)
    (old : Option HsearchData) : Prop :=
  htab.size < 2 ^ 31 - 1 ∧ Destroyed old ∧ Spares matchEntry htab sep expFlag

/-
  Where the export allocates the buffer, a table makes the
  round trip if and only if it survives it.  In a buffer of
  the caller that is large enough, a table that survives it
  makes the round trip as well.
-/
theorem hexport_himport_round_trip
    (config : Config) (signed : Bool) (hooks : Hooks) (hAccept : hooks.Accepting)
    (matchEntry : Entry → Bool) (htab : HsearchData)
    (vars : CString → Option CString) (hTable : IsTable htab vars)
    (sep : UInt8) (hSep : sep = 0 ∨ sep = 10)
    (hGood : ∀ key data, vars key = some data → GoodKey sep key ∧ data.bytes ≠ [])
    (expFlag impFlag : Nat) (hHide : hHideDot expFlag = false)
    (hClear : hNoclear impFlag = false) (old : Option HsearchData)
    (hRoom : ∀ new,
      importTable config old (exportSize matchEntry htab sep expFlag) impFlag = some new →
      (exported matchEntry htab expFlag 0).length ≤ new.size) :
    (RoundTrips config signed hooks matchEntry htab vars sep expFlag impFlag none old ↔
      Survives matchEntry htab sep expFlag old) ∧
    ∀ res : List UInt8, exportSize matchEntry htab sep expFlag ≤ res.length →
      Survives matchEntry htab sep expFlag old →
        RoundTrips config signed hooks matchEntry htab vars sep expFlag impFlag (some res) old := by
  have hTrip :
      ∀ resp : Option (List UInt8),
        (∀ res, resp = some res → exportSize matchEntry htab sep expFlag ≤ res.length) →
        Survives matchEntry htab sep expFlag old →
          RoundTrips config signed hooks matchEntry htab vars sep expFlag impFlag resp old := by
    rintro resp hResp ⟨hSize, hOld, hSpares⟩
    rcases hexportR_spares hSize hSpares resp hResp with ⟨buf, hExport, hLong, hBuf⟩
    rcases himportR_exported config hAccept hSep hHide hClear
      hTable hSize hOld hGood hRoom hSpares hLong hBuf with ⟨htab', hImport, hMap⟩
    exact ⟨_, buf, htab', hExport, hImport, hMap⟩
  refine ⟨⟨?_, hTrip none nofun⟩, ?_⟩
  · rintro ⟨size, buf, htab', hExport, hImport, -⟩
    refine ⟨?_, ?_, ?_⟩
    · by_contra hHuge
      rw [hexportR_huge hHuge] at hExport
      cases hExport
    · by_contra hHuge
      unfold himportR at hImport
      rw [importTable_huge config _ hClear hHuge] at hImport
      dsimp only at hImport
      split at hImport
      · cases hImport
      · cases hImport
    · by_contra hSpares
      rw [hexportR_overflows hSpares] at hExport
      cases hExport
  · intro res hRes
    refine hTrip (some res) ?_
    rintro _ ⟨⟩
    exact hRes

/- A table of one variable. -/
def oneVariable (data : CString) : HsearchData :=
  ⟨update (fun _ => .free) 3 (.live 3 ⟨varA, data⟩), 5, 1⟩

def oneValue (data : CString) : CString → Option CString :=
  update (fun _ => none) varA (some data)

theorem oneVariable_isTable (data : CString) :
    IsTable (oneVariable data) (oneValue data) := by
  have hSlot : ∀ i entry,
      (oneVariable data).entryAt i = some entry ↔ i = 3 ∧ entry = ⟨varA, data⟩ := by
    intro i entry
    unfold HsearchData.entryAt oneVariable
    dsimp only
    by_cases hi : i = 3
    · rw [hi, update_self]
      rw [Option.some.injEq]
      exact ⟨fun h => ⟨rfl, h.symm⟩, fun h => h.2.symm⟩
    · rw [update_of_ne hi]
      exact ⟨nofun, fun h => absurd h.1 hi⟩
  refine ⟨?_, ?_, ?_⟩
  · intro i used entry hAt
    have hi := (hSlot i entry).mp (entryAt_eq_some_iff.mpr ⟨used, hAt⟩)
    rw [hi.1] at hAt
    cases hAt
    exact ⟨(by decide : 1 ≤ 3), (by decide : 3 ≤ 5)⟩
  · intro i j entry entry' hi hj _
    exact ((hSlot i entry).mp hi).1.trans ((hSlot j entry').mp hj).1.symm
  · intro key value
    unfold oneValue
    rw [update_eq_some_iff]
    constructor
    · rintro (⟨rfl, hValue⟩ | ⟨-, hNone⟩)
      · cases hValue
        exact ⟨3, by decide, (by decide : 3 ≤ 5), (hSlot 3 _).mpr ⟨rfl, rfl⟩⟩
      · cases hNone
    · rintro ⟨i, -, -, hEntry⟩
      cases ((hSlot i _).mp hEntry).2
      exact Or.inl ⟨rfl, rfl⟩

/- The sizes of the boards that do not set them. -/
def defaultConfig : Config := ⟨64, 512⟩

theorem letter_good
    {c : UInt8} {hc : 0 ∉ [c]} (h : c ≠ 61 ∧ sep ≠ c ∧ isblank c = false ∧ c ≠ 35) :
    GoodKey sep (letter c hc) where
  nonempty := nofun
  no_equals := fun hIn => h.1 (mem_singleton.mp hIn).symm
  no_sep := fun hIn => h.2.1 (mem_singleton.mp hIn)
  first _ hFirst := by
    cases hFirst
    exact h.2.2

theorem good_of_letter
    {key : CString} (hSep : sep ≠ 97 ∧ sep ≠ 102) (hKey : key = varA ∨ key = varF) :
    GoodKey sep key := by
  rcases hKey with rfl | rfl
  · exact letter_good ⟨by decide, hSep.1, by decide⟩
  · exact letter_good ⟨by decide, hSep.2, by decide⟩

/- The variables of a table, one slot after the other. -/
theorem IsTable.of_entries
    {P : CString → CString → Prop} (hTable : IsTable htab vars)
    (hEntries : ∀ i ≤ htab.size, ∀ entry ∈ htab.entryAt i, P entry.key entry.data)
    (key data : CString) (hVar : vars key = some data) : P key data := by
  rcases (hTable.vars key data).mp hVar with ⟨i, -, hLe, hAt⟩
  exact hEntries i hLe _ hAt

def backslashB : CString := ⟨[92, 98], by decide⟩

/- A value of two lines. -/
def twoLineValue : CString := ⟨[98, 10, 92, 99], by decide⟩

/- The keys a and f collide, and e was deleted between them. -/
theorem hexport_himport_collided :
    ∃ t : Tracked, t.vars varA = some backslashB ∧ t.vars varF = some twoLineValue ∧
      RoundTrips defaultConfig false noHooks (fun _ => false) t.htab t.vars 10 0 0 none none := by
  rcases TransitionSystem.exists_reachableBy (Tracked.apply false noHooks) HasFree
      ⟨⟨fun _ => .free, 5, 0⟩, fun _ => none⟩
      [.enter varE varB 0, .enter varA backslashB 0, .enter varF twoLineValue 0, .delete varE 0]
      (fun t => (t.vars varA = some backslashB ∧ t.vars varF = some twoLineValue) ∧ t.htab.size = 5 ∧
        (∀ i ≤ t.htab.size, ∀ entry ∈ t.htab.entryAt i,
          (entry.key = varA ∨ entry.key = varF) ∧ entry.data.bytes ≠ []) ∧ (importTable defaultConfig none (exportSize (fun _ => false) t.htab 10 0)
          0).all (fun new => (exported (fun _ => false) t.htab 0 0).length ≤ new.size))
      (by decide +kernel)
    with ⟨t, hReach, ⟨hA, hF⟩, hSize, hGood, hRoom⟩
  have hTable := (keeps_of_hasFree hReach).2.isTable
  have hEach := hTable.of_entries (P := fun key data => (key = varA ∨ key = varF) ∧ data.bytes ≠ [])
    hGood
  refine ⟨t, hA, hF, (hexport_himport_round_trip defaultConfig false noHooks noHooks_accepting
    (fun _ => false) t.htab t.vars hTable 10 (Or.inr rfl) (fun key data h =>
      ⟨good_of_letter (by decide) (hEach key data h).1, (hEach key data h).2⟩) 0 0 rfl rfl none ?_).1.mpr ⟨hSize ▸ by decide, nofun, nofun⟩⟩
  intro new hNew
  rw [hNew] at hRoom
  exact of_decide_eq_true hRoom

/- A value of three backslashes. -/
def threeBackslashes : CString := ⟨[92, 92, 92], by decide⟩

/-
  The text of this variable, with three escapes, does not fit
  the buffer that the export allocates for it.
-/
theorem hexport_overflows_buffer :
    IsTable (oneVariable threeBackslashes) (oneValue threeBackslashes) ∧ GoodKey 0 varA ∧
    hexportR (fun _ => false) (oneVariable threeBackslashes) 0 0 none 0 0 = none ∧
    ¬ RoundTrips defaultConfig false noHooks (fun _ => false) (oneVariable threeBackslashes)
      (oneValue threeBackslashes) 0 0 0 none none := by
  have hNot : ¬ Spares (fun _ => false) (oneVariable threeBackslashes) 0 0 :=
    fun h => absurd (h rfl) (by decide)
  have hNone := hexportR_overflows hNot
  refine ⟨oneVariable_isTable _, letter_good (by decide), hNone, ?_⟩
  rintro ⟨size, buf, htab', hExport, -⟩
  rw [hNone] at hExport
  cases hExport

end Uboot.Env
