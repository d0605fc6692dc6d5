import Mathlib.Data.List.Basic

/-
  Escaping of the special characters of a text, and reading
  an escaped text back up to the character that ends it.

  Key definitions include:
    * `Escaping.escape`
    * `Escaping.scan`
    * `Escaping.unescape`

  The rules used by the developments built on top are:
    * `scan_escape` and `scan_unescape`
    * `scan_suffix` and `scan_append`
    * `length_escape` and `escape_eq_self_iff`
    * `unescape_eq_self_iff`
-/

namespace Escaping

open List

variable {α : Type} [DecidableEq α]

/- Put the escape character before each special one. -/
def escape (esc : α) (special : α → Bool) :
    List α → List α
  | [] => []
  | c :: text =>
    if special c then esc :: c :: escape esc special text
    else c :: escape esc special text

/-
  The text up to a character that ends it, with the rest.  An
  escape character is left out where the next one is quoted.
-/
def scan (esc : α) (ends quoted : α → Bool) :
    List α → List α × List α
  | [] => ([], [])
  | [c] => if ends c then ([], [c]) else ([c], [])
  | c :: d :: text =>
    if ends c then
      ([], c :: d :: text)
    else if c = esc ∧ quoted d = true then
      let read := scan esc ends quoted text
      (d :: read.1, read.2)
    else
      let read := scan esc ends quoted (d :: text)
      (c :: read.1, read.2)

variable {esc : α} {special ends quoted : α → Bool}

variable {c : α}

theorem scan_end (hEnds : ends c = true) (text : List α) :
    scan esc ends quoted (c :: text) = ([], c :: text) := by
  cases text with
  | nil =>
    unfold scan
    rw [if_pos hEnds]
  | cons d text =>
    unfold scan
    rw [if_pos hEnds]

theorem scan_plain (hEnds : ends c = false) (hEsc : c ≠ esc) (text : List α) :
    scan esc ends quoted (c :: text) =
      (c :: (scan esc ends quoted text).1, (scan esc ends quoted text).2) := by
  cases text with
  | nil =>
    conv_lhs => unfold scan
    rw [if_neg (Bool.eq_false_iff.mp hEnds)]
    rfl
  | cons d text =>
    conv_lhs => unfold scan
    rw [if_neg (Bool.eq_false_iff.mp hEnds), if_neg fun h => hEsc h.1]

theorem scan_quoted {d : α} (hEnds : ends esc = false) (hQuoted : quoted d = true) (text : List α) :
    scan esc ends quoted (esc :: d :: text) =
      (d :: (scan esc ends quoted text).1, (scan esc ends quoted text).2) := by
  conv_lhs => unfold scan
  rw [if_neg (Bool.eq_false_iff.mp hEnds), if_pos ⟨rfl, hQuoted⟩]

theorem scan_suffix (esc : α) (ends quoted : α → Bool) (text : List α) :
    (scan esc ends quoted text).2 <:+ text := by
  fun_induction scan esc ends quoted text with
  | case1 => exact suffix_refl _
  | case2 => exact suffix_refl _
  | case3 c => exact nil_suffix
  | case4 => exact suffix_refl _
  | case5 c d text hEnds hQuoted read ih =>
    exact ih.trans ((suffix_cons d text).trans (suffix_cons c _))
  | case6 c d text hEnds hPlain read ih => exact ih.trans (suffix_cons c _)

/- What ends inside a text ends there in any longer one. -/
theorem scan_append (esc : α) (ends quoted : α → Bool) (text more : List α)
    (hEnds : (scan esc ends quoted text).2 ≠ []) :
    scan esc ends quoted (text ++ more) =
      ((scan esc ends quoted text).1, (scan esc ends quoted text).2 ++ more) := by
  fun_induction scan esc ends quoted text with
  | case1 => exact absurd rfl hEnds
  | case2 c hc => exact scan_end hc more
  | case3 => exact absurd rfl hEnds
  | case4 c d text hc => exact scan_end hc _
  | case5 c d text hc hQuoted read ih =>
    rw [hQuoted.1] at hc ⊢
    rw [cons_append, cons_append, scan_quoted (Bool.eq_false_iff.mpr hc) hQuoted.2, ih hEnds]
  | case6 c d text hc hPlain read ih =>
    rw [cons_append, cons_append]
    conv_lhs => unfold scan
    rw [if_neg hc, if_neg hPlain]
    rw [← cons_append, ih hEnds]

variable {text : List α}

/-
  An escaped text is read back if the escape character is
  special, what ends a text is special where it occurs in it,
  and what is special is quoted.
-/
theorem scan_escape (hEsc : special esc = true) (hEscEnds : ends esc = false)
    (hEnds : ∀ c ∈ text, ends c = true → special c = true)
    (hQuoted : ∀ c ∈ text, special c = true → quoted c = true)
    (hc : ends c = true) (rest : List α) :
    scan esc ends quoted (escape esc special text ++ c :: rest) = (text, c :: rest) := by
  induction text with
  | nil => exact scan_end hc rest
  | cons d text ih =>
    have hRead := ih (fun c hc => hEnds c (mem_cons_of_mem d hc))
      (fun c hc => hQuoted c (mem_cons_of_mem d hc))
    unfold escape
    by_cases hSpecial : special d = true
    · rw [if_pos hSpecial, cons_append, cons_append]
      have hd := hQuoted d mem_cons_self hSpecial
      exact (scan_quoted hEscEnds hd _).trans (by rw [hRead])
    · rw [if_neg hSpecial, cons_append]
      have hNotEnds : ends d = false := by
        rw [Bool.eq_false_iff]
        exact fun h => hSpecial (hEnds d mem_cons_self h)
      have hNe : d ≠ esc := by
        rintro rfl
        exact hSpecial hEsc
      exact (scan_plain hNotEnds hNe _).trans (by rw [hRead])

omit [DecidableEq α] in
theorem length_escape (text : List α) :
    (escape esc special text).length = text.length + text.countP special := by
  induction text with
  | nil => rfl
  | cons c text ih =>
    unfold escape
    by_cases hSpecial : special c = true
    · rw [if_pos hSpecial, countP_cons_of_pos hSpecial, length_cons, length_cons, length_cons, ih]
      omega
    · rw [if_neg hSpecial, countP_cons_of_neg hSpecial, length_cons, length_cons, ih]
      omega

omit [DecidableEq α] in
theorem escape_eq_self_iff (text : List α) :
    escape esc special text = text ↔ ∀ c ∈ text, special c = false := by
  constructor
  · intro hEq c hc
    have hLength : (escape esc special text).length = text.length + text.countP special :=
      length_escape text
    rw [hEq] at hLength
    have hNone : text.countP special = 0 := by omega
    exact Bool.eq_false_iff.mpr (countP_eq_zero.mp hNone c hc)
  · intro hPlain
    induction text with
    | nil => rfl
    | cons c text ih =>
      have hc := hPlain c mem_cons_self
      unfold escape
      rw [if_neg (Bool.eq_false_iff.mp hc), ih fun d hd => hPlain d (mem_cons_of_mem _ hd)]

omit [DecidableEq α] in
theorem mem_escape (hc : c ∈ escape esc special text) :
    c = esc ∨ c ∈ text := by
  induction text with
  | nil => cases hc
  | cons d text ih =>
    unfold escape at hc
    by_cases hSpecial : special d = true
    · rw [if_pos hSpecial] at hc
      rcases mem_cons.mp hc with hEsc | hRest
      · exact Or.inl hEsc
      · rcases mem_cons.mp hRest with hd | hText
        · exact Or.inr (hd ▸ mem_cons_self)
        · exact (ih hText).imp_right (mem_cons_of_mem _)
    · rw [if_neg hSpecial] at hc
      rcases mem_cons.mp hc with hd | hText
      · exact Or.inr (hd ▸ mem_cons_self)
      · exact (ih hText).imp_right (mem_cons_of_mem _)

----
-- Texts That Were Not Escaped
----

/- What is read from a text that ends after its characters. -/
def unescape (esc : α) : List α → List α
  | [] => []
  | [c] => [c]
  | c :: d :: text =>
    if c = esc then d :: unescape esc text
    else c :: unescape esc (d :: text)

theorem mem_unescape (hc : c ∈ unescape esc text) :
    c ∈ text := by
  induction text using unescape.induct esc with
  | case1 => cases hc
  | case2 d => exact hc
  | case3 d text ih =>
    unfold unescape at hc
    rw [if_pos rfl] at hc
    rcases mem_cons.mp hc with hd | hText
    · rw [hd]
      exact mem_cons_of_mem _ mem_cons_self
    · exact mem_cons_of_mem _ (mem_cons_of_mem _ (ih hText))
  | case4 e d text hEsc ih =>
    unfold unescape at hc
    rw [if_neg hEsc] at hc
    rcases mem_cons.mp hc with hEq | hText
    · rw [hEq]
      exact mem_cons_self
    · exact mem_cons_of_mem _ (ih hText)

/-
  A text that holds nothing that ends it is read up to its
  end, where its own last character quotes nothing.
-/
theorem scan_unescape (hText : ∀ c ∈ text, ends c = false ∧ quoted c = true)
    (hc : ends c = true) (hNot : quoted c = false) (rest : List α) :
    scan esc ends quoted (text ++ c :: rest) = (unescape esc text, c :: rest) := by
  induction text using unescape.induct esc with
  | case1 => exact scan_end hc rest
  | case2 d =>
    have hd := (hText d mem_cons_self).1
    have hPlain : ¬ (d = esc ∧ quoted c = true) := fun h => Bool.eq_false_iff.mp hNot h.2
    rw [singleton_append]
    unfold scan
    rw [if_neg (Bool.eq_false_iff.mp hd), if_neg hPlain, scan_end hc rest]
    rfl
  | case3 d text ih =>
    have hEsc := (hText esc mem_cons_self).1
    have hd := (hText d (mem_cons_of_mem _ mem_cons_self)).2
    rw [cons_append, cons_append, scan_quoted hEsc hd, ih fun c hc => hText c
        (mem_cons_of_mem _ (mem_cons_of_mem _ hc))]
    conv_rhs => unfold unescape
    rw [if_pos rfl]
  | case4 e d text hEsc ih =>
    have he := (hText e mem_cons_self).1
    rw [cons_append, scan_plain he hEsc, ih fun c hc => hText c (mem_cons_of_mem _ hc)]
    conv_rhs => unfold unescape
    rw [if_neg hEsc]

theorem length_unescape_le (text : List α) :
    (unescape esc text).length ≤ text.length := by
  induction text using unescape.induct esc with
  | case1 => exact Nat.le_refl _
  | case2 d => exact Nat.le_refl _
  | case3 d text ih =>
    unfold unescape
    rw [if_pos rfl]
    simp only [length_cons]
    omega
  | case4 e d text hEsc ih =>
    unfold unescape
    rw [if_neg hEsc]
    simp only [length_cons] at ih ⊢
    omega

/- Only an escape character at the end stays as it is. -/
theorem unescape_eq_self_iff (text : List α) :
    unescape esc text = text ↔ esc ∉ text.dropLast := by
  induction text using unescape.induct esc with
  | case1 => exact ⟨fun _ => not_mem_nil, fun _ => rfl⟩
  | case2 d => exact ⟨fun _ => not_mem_nil, fun _ => rfl⟩
  | case3 d text ih =>
    refine ⟨fun hEq => ?_, fun hNot => ?_⟩
    · have hLe : (unescape esc text).length ≤ text.length := length_unescape_le text
      unfold unescape at hEq
      rw [if_pos rfl] at hEq
      have hLength := congrArg List.length hEq
      simp only [length_cons] at hLength
      omega
    · rw [dropLast_cons_cons] at hNot
      exact absurd mem_cons_self hNot
  | case4 e d text hEsc ih =>
    conv_lhs => unfold unescape
    rw [if_neg hEsc, dropLast_cons_cons, mem_cons, List.cons.injEq, ih]
    constructor
    · rintro ⟨-, hNot⟩ (hEq | hIn)
      · exact hEsc hEq.symm
      · exact hNot hIn
    · intro hNot
      exact ⟨rfl, fun hIn => hNot (Or.inr hIn)⟩

end Escaping
