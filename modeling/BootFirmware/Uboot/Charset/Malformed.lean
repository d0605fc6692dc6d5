import BootFirmware.Uboot.Charset.RoundTrip

/-
  Conversion of text that is not well formed.

  A high surrogate without a low one costs a unit at the end
  of the text.  A first byte that is illegal is not eaten, so
  that whatever is behind it is lost.

  Key definitions include:
    * `repaired` and `HighPaired`
    * `CharAt` and `Required`
    * `Group` and `NothingBehind`
    * `Decodes`

  The main results are:
    * `utf16ToUtf8_iff`
    * `decodes_iff`
    * `charset_malformed`
-/

----
-- Unpaired Surrogates
----

namespace Uboot.Charset

open Unicode String List

/- The character of a unit that is not one of a pair. -/
def single (u : UInt16) : Char :=
  if isHigh u.toNat ∨ isLow u.toNat then '?'
  else Char.ofNat u.toNat

def pair (u v : UInt16) : Char :=
  Char.ofNat ((u.toNat - 0xd800) * 0x400 + (v.toNat - 0xdc00) + 0x10000)

/- The text, with a '?' for each unpaired surrogate. -/
def repaired : List UInt16 → List Char
  | [] => []
  | [u] => [single u]
  | u :: v :: rest =>
    if isHigh u.toNat ∧ isLow v.toNat then
      pair u v :: repaired rest
    else single u :: repaired (v :: rest)

/- Right behind a high surrogate is a low one. -/
def HighPaired : List UInt16 → Prop
  | [] => True
  | u :: rest => (isHigh u.toNat → ∃ v ∈ rest.head?, isLow v.toNat) ∧ HighPaired rest

/- The turns of the loop that the text needs. -/
def needed : List UInt16 → Nat
  | [] => 0
  | [u] => if isHigh u.toNat then 2 else 1
  | u :: v :: rest =>
    if isHigh u.toNat ∧ isLow v.toNat then 2 + needed rest
    else
      (if isHigh u.toNat then 2 else 1) + needed (v :: rest)

section Units

variable {u v : UInt16}

theorem isHigh_iff {code : Nat} : isHigh code ↔ 0xd800 ≤ code ∧ code ≤ 0xdbff := by
  simp only [isHigh, Bool.and_eq_true, decide_eq_true_eq]

theorem isLow_iff {code : Nat} : isLow code ↔ 0xdc00 ≤ code ∧ code ≤ 0xdfff := by
  simp only [isLow, Bool.and_eq_true, decide_eq_true_eq]

theorem toNat_ofNat_valid {n : Nat} (hValid : n < 0xd800 ∨ 0xdfff < n ∧ n < 0x110000) :
    (Char.ofNat n).toNat = n := by
  rw [Char.ofNat, dif_pos hValid]
  rfl

theorem utf16Loop_pair
    (hHigh : isHigh u.toNat) (hLow : isLow v.toNat) (size : Nat) (src : List UInt16) :
    utf16Loop (size + 2) 0 (u :: v :: src) =
      (utf16Loop size 0 src).map (utf8EncodeChar (pair u v) ++ ·) := by
  have hu := isHigh_iff.mp hHigh
  have hv := isLow_iff.mp hLow
  have hValue : (pair u v).toNat = _ := toNat_ofNat_valid (by omega)
  rw [utf16Loop, if_neg (not_not.mpr rfl), if_pos hHigh, utf16Loop, if_pos (by omega), if_pos hLow,
    Nat.shiftLeft_eq]
  change
    (utf16Loop size 0 src).map
        (fourBytes ((u.toNat - 0xd800) * 0x400 + (v.toNat - 0xdc00) + 0x10000) ++ ·) =
      _
  rw [← hValue, fourBytes_char (by omega)]

/- A unit that is not a high surrogate. -/
theorem utf16Loop_single (hHigh : ¬ isHigh u.toNat) (size : Nat) (src : List UInt16) :
    utf16Loop (size + 1) 0 (u :: src) =
      (utf16Loop size 0 src).map (utf8EncodeChar (single u) ++ ·) := by
  have hBytes : bytesOf u.toNat = utf8EncodeChar (single u) := by
    unfold single
    by_cases hLow : isLow u.toNat
    · have hu := isLow_iff.mp hLow
      rw [if_pos (Or.inr hLow)]
      unfold bytesOf
      rw [if_neg (by omega), if_neg (by omega), if_pos hLow]
      rfl
    · have hLt := u.toNat_lt
      rw [if_neg (not_or.mpr ⟨hHigh, hLow⟩)]
      rw [isHigh_iff] at hHigh
      rw [isLow_iff] at hLow
      have hValue := @toNat_ofNat_valid u.toNat (by omega)
      rw [← bytesOf_char (by omega), hValue]
  rw [utf16Loop, if_neg (not_not.mpr rfl), if_neg hHigh, hBytes]

/- An unpaired one costs a turn more. -/
theorem utf16Loop_unpaired
    (hHigh : isHigh u.toNat) (hLow : ¬ isLow v.toNat) (size : Nat) (src : List UInt16) :
    utf16Loop (size + 2) 0 (u :: v :: src) =
      (utf16Loop size 0 (v :: src)).map (utf8EncodeChar (single u) ++ ·) := by
  have hu := isHigh_iff.mp hHigh
  rw [utf16Loop, if_neg (not_not.mpr rfl), if_pos hHigh,
    utf16Loop, if_pos (by omega), if_neg hLow, single,
    if_pos (Or.inl hHigh)]
  rfl

theorem length_pos_utf8EncodeChar (c : Char) : 0 < (utf8EncodeChar c).length := by
  rw [utf8EncodeChar_eq]
  exact Nat.succ_pos _

end Units

theorem utf16Loop_of_highPaired (units : List UInt16) (hPaired : HighPaired units) :
    utf16Loop units.length 0 units = some ((repaired units).flatMap utf8EncodeChar) := by
  fun_induction repaired units with
  | case1 => rfl
  | case2 u =>
    have hHigh : ¬ isHigh u.toNat := by
      intro hHigh
      rcases hPaired.1 hHigh with ⟨v, hMem, -⟩
      cases hMem
    exact utf16Loop_single hHigh 0 []
  | case3 u v rest hBoth ih =>
    rw [length_cons, length_cons, utf16Loop_pair hBoth.1 hBoth.2, ih hPaired.2.2]
    rfl
  | case4 u v rest hNot ih =>
    have hHigh : ¬ isHigh u.toNat := by
      intro hHigh
      rcases hPaired.1 hHigh with ⟨w, hMem, hLow⟩
      cases hMem
      exact hNot ⟨hHigh, hLow⟩
    rw [length_cons, utf16Loop_single hHigh, ih hPaired.2]
    rfl

/- What is missing stays missing behind what is there. -/
theorem append_shorter {run : Option (List UInt8)} {c : Char} {full : List UInt8}
    (hShort : ∃ bytes, run = some bytes ∧ bytes.length < full.length) :
    ∃ bytes, run.map (utf8EncodeChar c ++ ·) = some bytes ∧
        bytes.length < (utf8EncodeChar c ++ full).length := by
  rcases hShort with ⟨bytes, rfl, hLt⟩
  refine ⟨_, rfl, ?_⟩
  rw [List.length_append, List.length_append]
  omega

/- With too few turns something is missing. -/
theorem utf16Loop_lt (units : List UInt16) {turns : Nat}
    (hFew : turns < needed units) (hLength : turns ≤ units.length) :
    ∃ bytes, utf16Loop turns 0 units = some bytes ∧
        bytes.length < ((repaired units).flatMap utf8EncodeChar).length := by
  have hNone : ∀ c cs, 0 < (List.flatMap utf8EncodeChar (c :: cs)).length := by
    intro c cs
    rw [flatMap_cons, List.length_append]
    exact Nat.add_pos_left (length_pos_utf8EncodeChar c) _
  have hOne : ∀ {u : UInt16} {src}, isHigh u.toNat → utf16Loop 1 0 (u :: src) = some [] := by
    intro u src hHigh
    rw [utf16Loop, if_neg (not_not.mpr rfl), if_pos hHigh]
    rfl
  fun_induction repaired units generalizing turns with
  | case1 => exact absurd hFew (Nat.not_lt_zero _)
  | case2 u =>
    unfold needed at hFew
    cases turns with
    | zero => exact ⟨[], rfl, hNone _ _⟩
    | succ turns =>
      split_ifs at hFew with hHigh
      · cases (by omega : turns = 0)
        exact ⟨[], hOne hHigh, hNone _ _⟩
      · omega
  | case3 u v rest hBoth ih =>
    rw [needed, if_pos hBoth] at hFew
    rcases turns with - | - | turns
    · exact ⟨[], rfl, hNone _ _⟩
    · exact ⟨[], hOne hBoth.1, hNone _ _⟩
    · rw [length_cons, length_cons] at hLength
      rw [utf16Loop_pair hBoth.1 hBoth.2]
      exact append_shorter (ih (by omega) (by omega))
  | case4 u v rest hNot ih =>
    rw [needed, if_neg hNot] at hFew
    rw [length_cons] at hLength
    by_cases hHigh : isHigh u.toNat
    · rw [if_pos hHigh] at hFew
      rcases turns with - | - | turns
      · exact ⟨[], rfl, hNone _ _⟩
      · exact ⟨[], hOne hHigh, hNone _ _⟩
      · rw [utf16Loop_unpaired hHigh fun hLow => hNot ⟨hHigh, hLow⟩]
        exact append_shorter (ih (by omega) (by omega))
    · rw [if_neg hHigh] at hFew
      rcases turns with - | turns
      · exact ⟨[], rfl, hNone _ _⟩
      · rw [utf16Loop_single hHigh]
        exact append_shorter (ih (by omega) (by omega))

/- Unpaired high surrogates need more turns than there are. -/
theorem length_lt_needed (units : List UInt16) :
    units.length ≤ needed units ∧ (¬ HighPaired units → units.length < needed units) := by
  fun_induction needed units with
  | case1 => exact ⟨Nat.le_refl _, fun h => absurd trivial h⟩
  | case2 u hHigh => exact ⟨Nat.le_succ 1, fun _ => Nat.lt_succ_self 1⟩
  | case3 u hHigh =>
    exact ⟨Nat.le_refl 1, fun h => absurd ⟨fun hHigh' => absurd hHigh' hHigh, trivial⟩ h⟩
  | case4 u v rest hBoth ih =>
    rw [length_cons, length_cons]
    refine ⟨by omega, fun h => ?_⟩
    have hv : ¬ isHigh v.toNat := by
      rw [isHigh_iff]
      have := isLow_iff.mp hBoth.2
      omega
    have := ih.2 fun hPaired => h
      ⟨fun _ => ⟨v, rfl, hBoth.2⟩, fun hHigh => absurd hHigh hv, hPaired⟩
    omega
  | case5 u v rest hNot ih =>
    rw [length_cons]
    by_cases hHigh : isHigh u.toNat
    · rw [if_pos hHigh]
      exact ⟨by omega, fun _ => by omega⟩
    · rw [if_neg hHigh]
      refine ⟨by omega, fun h => ?_⟩
      have := ih.2 fun hPaired => h ⟨fun hHigh' => absurd hHigh' hHigh, hPaired⟩
      omega

/- Exactly the text with paired high surrogates is converted. -/
theorem utf16ToUtf8_iff (units : List UInt16) :
    utf16ToUtf8 units units.length = some ((repaired units).flatMap utf8EncodeChar) ↔
      HighPaired units := by
  constructor
  · intro hRun
    by_contra hNot
    rcases utf16Loop_lt units ((length_lt_needed units).2 hNot)
      (Nat.le_refl _) with ⟨bytes, hBytes, hLt⟩
    rw [utf16ToUtf8, hBytes] at hRun
    cases hRun
    exact Nat.lt_irrefl _ hLt
  · exact utf16Loop_of_highPaired units

----
-- Characters Among Bytes
----

def CharAt (bytes : List UInt8) (i : Nat)
    (c : Char) : Prop :=
  utf8EncodeChar c <+: bytes.drop i

/- A character that no ill-formed byte is right before. -/
def Required (bytes : List UInt8) (i : Nat)
    (c : Char) : Prop :=
  CharAt bytes i c ∧ (i = 0 ∨ ∃ j c', CharAt bytes j c' ∧ j + (utf8EncodeChar c').length = i)

/- `(*src & 0xc0) == 0x80` -/
def IsTail (b : UInt8) : Prop :=
  b &&& 0xc0 = 0x80

/-
  What the decoder takes for one character: a first byte with
  the bytes that it needs, or with too few of them and the
  byte behind.
-/
inductive Group : List UInt8 → Prop
  | whole {b : UInt8} {code : Nat} {used : List UInt8} :
      firstByte b = some (code, used.length) → (∀ x ∈ used, IsTail x) → Group (b :: used)
  | cut {b x : UInt8} {code ext : Nat} {used : List UInt8} :
      firstByte b = some (code, ext) → used.length < ext →
        (∀ x ∈ used, IsTail x) → ¬ IsTail x → Group (b :: used ++ [x])

/- No required character is behind an illegal first byte. -/
def NothingBehind (bytes : List UInt8) : Prop :=
  ∀ (gs : List (List UInt8)) b rest, bytes = gs.flatten ++ b :: rest →
      (∀ g ∈ gs, Group g) → firstByte b = none → ∀ i c, gs.flatten.length < i → ¬ Required bytes i c

/- Each required character is decoded where it begins. -/
def Decodes (bytes : List UInt8) : Prop :=
  ∃ turns, utf8Turns 0 bytes bytes.length = some turns ∧
      utf8ToUtf16 bytes bytes.length = some (turns.flatMap fun turn => turn.2) ∧
      turns.Pairwise (fun t t' => t.1 ≤ t'.1) ∧ ∀ i c, Required bytes i c → (i, utf16 c) ∈ turns

section Bytes

variable {bytes : List UInt8}

variable {b : UInt8}

theorem firstByte_tail (hTail : IsTail b) :
    firstByte b = none := by
  have hAll : ∀ n < 256, UInt8.ofNat n &&& 0xc0 = 0x80 → firstByte (.ofNat n) = none := by
    decide +kernel
  have hEq := hAll b.toNat b.toNat_lt
  rw [UInt8.ofNat_toNat] at hEq
  exact hEq hTail

theorem isTail_of_mem_tails {v n : Nat} {x : UInt8} (hMem : x ∈ tails v n) :
    IsTail x := by
  have hAll : ∀ k < 64, UInt8.ofNat (k + 0x80) &&& 0xc0 = 0x80 := by decide +kernel
  induction n with
  | zero => cases hMem
  | succ n ih =>
    rcases mem_cons.mp hMem with rfl | hMem
    · exact hAll _ (Nat.mod_lt _ (by decide))
    · exact ih hMem

theorem firstByte_char (c : Char) :
    firstByte (first c.toNat) = some (c.toNat / 64 ^ extra c.toNat, extra c.toNat) := by
  have hValid := toNat_cases c
  exact firstByte_first (by omega)

theorem length_utf8EncodeChar (c : Char) : (utf8EncodeChar c).length = extra c.toNat + 1 := by
  rw [utf8EncodeChar_eq, length_cons, Unicode.length_tails]

variable {c : Char}

/- The bytes of a character, where they are. -/
theorem CharAt.getElem? {i k : Nat} (hChar : CharAt bytes i c) (hk : k ≤ extra c.toNat) :
    bytes[i + k]? = (utf8EncodeChar c)[k]? := by
  rcases hChar with ⟨rest, hEq⟩
  rw [← getElem?_drop, ← hEq, getElem?_append_left]
  rw [length_utf8EncodeChar]
  omega

variable {i : Nat}

theorem CharAt.first (hChar : CharAt bytes i c) :
    bytes[i]? = some (Unicode.first c.toNat) := by
  have hGet := hChar.getElem? (Nat.zero_le _)
  rw [utf8EncodeChar_eq] at hGet
  exact hGet

theorem CharAt.tail {i k : Nat} (hChar : CharAt bytes i c) (hPos : 0 < k) (hk : k ≤ extra c.toNat) :
    ∃ x, bytes[i + k]? = some x ∧ IsTail x := by
  rcases Nat.exists_eq_add_of_le' hPos with ⟨k, rfl⟩
  rw [hChar.getElem? hk, utf8EncodeChar_eq, getElem?_cons_succ]
  have hIn : k < (tails c.toNat (extra c.toNat)).length := by
    rw [Unicode.length_tails]
    omega
  rw [getElem?_eq_getElem hIn]
  exact ⟨_, rfl, isTail_of_mem_tails (getElem_mem hIn)⟩

theorem CharAt.not_tail {x : UInt8} (hChar : CharAt bytes i c) (hGet : bytes[i]? = some x) :
    ¬ IsTail x := by
  intro hTail
  rw [hChar.first] at hGet
  cases hGet
  have hNone := firstByte_tail hTail
  rw [firstByte_char] at hNone
  cases hNone

/- What follows a first byte. -/
theorem split_tails (ext : Nat) (src : List UInt8) :
    ∃ used rest, src = used ++ rest ∧ (∀ x ∈ used, IsTail x) ∧ (used.length = ext ∨
          used.length < ext ∧ (rest = [] ∨ ∃ x rest', rest = x :: rest' ∧ ¬ IsTail x)) := by
  induction ext generalizing src with
  | zero => exact ⟨[], src, rfl, nofun, Or.inl rfl⟩
  | succ ext ih =>
    cases src with
    | nil => exact ⟨[], [], rfl, nofun, Or.inr ⟨Nat.succ_pos _, Or.inl rfl⟩⟩
    | cons b src =>
      by_cases hTail : IsTail b
      · rcases ih src with ⟨used, rest, rfl, hUsed, hForm⟩
        refine ⟨b :: used, rest, rfl, forall_mem_cons.mpr ⟨hTail, hUsed⟩, ?_⟩
        rw [length_cons]
        exact hForm.imp (congrArg (· + 1)) (And.imp_left Nat.succ_lt_succ)
      · exact ⟨[], b :: src, rfl, nofun, Or.inr ⟨Nat.succ_pos _, Or.inr ⟨b, src, rfl, hTail⟩⟩⟩

/- Right behind the byte that cuts a group nothing counts. -/
theorem not_required_cut {p ext : Nat} {code n : Nat}
    (hFirst : firstByte b = some (code, ext)) (hByte : bytes[p]? = some b)
    (hUsed : ∀ j, p < j → j ≤ p + n → ∃ x, bytes[j]? = some x ∧ IsTail x) (hCut : n < ext) :
    ¬ Required bytes (p + n + 1) c := by
  rintro ⟨-, hZero | ⟨j, c', hChar, hEnd⟩⟩
  · cases hZero
  rw [length_utf8EncodeChar] at hEnd
  rcases Nat.lt_trichotomy j p with hLt | rfl | hGt
  · -- the first byte would be one of the character
    rcases hChar.tail (k := p - j) (by omega) (by omega) with
      ⟨x, hGet, hTail⟩
    rw [Nat.add_sub_cancel' (Nat.le_of_lt hLt), hByte] at hGet
    cases hGet
    rw [firstByte_tail hTail] at hFirst
    cases hFirst
  · rw [hChar.first] at hByte
    cases hByte
    rw [firstByte_char] at hFirst
    cases hFirst
    omega
  · rcases hUsed j hGt (by omega) with ⟨x, hGet, hTail⟩
    exact hChar.not_tail hGet hTail

/- The decoder comes to where a required character begins. -/
theorem exists_groups (hBehind : NothingBehind bytes) (hRequired : Required bytes i c)
    (src : List UInt8) (gs : List (List UInt8))
    (hEq : bytes = gs.flatten ++ src) (hGroups : ∀ g ∈ gs, Group g) (hLe : gs.flatten.length ≤ i) :
    ∃ gs : List (List UInt8),
      (∀ g ∈ gs, Group g) ∧ gs.flatten.length = i ∧ bytes = gs.flatten ++ bytes.drop i := by
  have hChar := hRequired.1
  have hIn : i < bytes.length := by
    by_contra hOut
    have hGet := hChar.first
    rw [getElem?_eq_none (Nat.not_lt.mp hOut)] at hGet
    cases hGet
  induction hn : src.length using Nat.strong_induction_on generalizing src gs with
  | _ n ih =>
  rcases Nat.eq_or_lt_of_le hLe with hHere | hLt
  · refine ⟨gs, hGroups, hHere, ?_⟩
    rw [← hHere, hEq, drop_left]
  have hLength := congrArg List.length hEq
  rw [List.length_append] at hLength
  cases src with
  | nil =>
    rw [length_nil] at hLength
    omega
  | cons b rest =>
  cases hFirst : firstByte b with
  | none => exact absurd hRequired (hBehind gs b rest hEq hGroups hFirst i c hLt)
  | some r =>
  rcases r with ⟨code, ext⟩
  rcases split_tails ext rest with ⟨used, rest, rfl, hUsed, hForm⟩
  have hByte : bytes[gs.flatten.length]? = some b := by
    rw [hEq, getElem?_append_right (Nat.le_refl _), Nat.sub_self]
    rfl
  have hTails :
      ∀ j, gs.flatten.length < j →
        j ≤ gs.flatten.length + used.length → ∃ x, bytes[j]? = some x ∧ IsTail x := by
    intro j hj hjn
    rcases Nat.exists_eq_add_of_lt hj with ⟨k, rfl⟩
    have hk : k < used.length := by omega
    refine ⟨used[k], ?_, hUsed _ (getElem_mem hk)⟩
    rw [hEq, getElem?_append_right (by omega), Nat.add_assoc, Nat.add_sub_cancel_left,
      getElem?_cons_succ, getElem?_append_left hk, getElem?_eq_getElem hk]
  have hBeyond : gs.flatten.length + used.length < i := by
    by_contra hNot
    rcases hTails i hLt (Nat.not_lt.mp hNot) with ⟨x, hGet, hTail⟩
    exact hChar.not_tail hGet hTail
  have hNext :
      ∀ g rest', Group g → b :: (used ++ rest) = g ++ rest' → gs.flatten.length + g.length ≤ i →
          ∃ gs : List (List UInt8),
            (∀ g ∈ gs, Group g) ∧ gs.flatten.length = i ∧ bytes = gs.flatten ++ bytes.drop i := by
    intro g rest' hGroup hSplit hFits
    have hPos : 0 < g.length := by cases hGroup <;> simp
    have hShort := congrArg List.length hSplit
    rw [List.length_append] at hShort
    refine ih rest'.length (by omega) rest' (gs ++ [g]) ?_ ?_
      ?_ rfl
    · rw [hEq, hSplit]
      simp
    · exact forall_mem_append.mpr ⟨hGroups, forall_mem_singleton.mpr hGroup⟩
    · simpa using hFits
  rcases hForm with hWhole | ⟨hShort, rfl | ⟨x, rest, rfl, hx⟩⟩
  · subst hWhole
    exact hNext (b :: used) rest (.whole hFirst hUsed) rfl (by rw [length_cons]; omega)
  · rw [append_nil, length_cons] at hLength
    omega
  · rcases Nat.eq_or_lt_of_le (Nat.succ_le_of_lt hBeyond) with
      hHere | hPast
    · rw [← hHere] at hRequired
      exact absurd hRequired (not_required_cut hFirst hByte hTails hShort)
    · refine hNext (b :: used ++ [x]) rest (.cut hFirst hShort hUsed hx) (by simp) ?_
      rw [List.length_append, length_cons, List.length_singleton]
      omega

----
-- The Decoder
----

variable {used : List UInt8}

/- The continuation bytes of a group are taken. -/
theorem extend_used
    (hUsed : ∀ x ∈ used, IsTail x) {ext : Nat} (code : Nat) (hLe : used.length ≤ ext) :
    ∃ code', ∀ rest, extend code ext (used ++ rest) (used ++ rest).length =
        extend code' (ext - used.length) rest rest.length := by
  induction used generalizing code ext with
  | nil => exact ⟨code, fun rest => rfl⟩
  | cons x used ih =>
    rcases forall_mem_cons.mp hUsed with ⟨hx, hUsed⟩
    cases ext with
    | zero => exact absurd hLe (Nat.not_succ_le_zero _)
    | succ ext =>
      rw [length_cons] at hLe
      have hFits : used.length ≤ ext := by omega
      rcases ih hUsed (code <<< 6 ||| (x &&& 0x3f).toNat) hFits with ⟨code', hRest⟩
      refine ⟨code', fun rest => ?_⟩
      rw [cons_append, length_cons, length_cons, Nat.add_sub_add_right, ← hRest]
      exact if_pos hx

theorem not_nul {code ext : Nat} (hFirst : firstByte b = some (code, ext)) (hb : b ≠ 0) :
    ¬ (code = 0 ∧ b ≤ 0x7f) := by
  rintro ⟨rfl, hLe⟩
  rw [firstByte, if_pos hLe] at hFirst
  have hZero := (Prod.mk.inj (Option.some.inj hFirst)).1
  exact hb (UInt8.toNat_inj.mp hZero)

theorem utf8Turns_group {g : List UInt8} (hGroup : Group g) (hNul : 0 ∉ g) (pos : Nat) :
    ∃ units, ∀ rest, utf8Turns pos (g ++ rest) (g ++ rest).length =
        (utf8Turns (pos + g.length) rest rest.length).map ((pos, units) :: ·) := by
  cases hGroup with
  | @whole b code used hFirst hUsed =>
    rcases extend_used hUsed code (Nat.le_refl _) with ⟨code', hRun⟩
    refine ⟨unitsOf code', fun rest => ?_⟩
    have hEnd := hRun rest
    rw [Nat.sub_self, extend] at hEnd
    rw [cons_append, length_cons,
      utf8Turns_some hFirst (not_nul hFirst (ne_of_not_mem_cons hNul).symm) hEnd]
    congr 2
    simp
    omega
  | @cut b x code ext used hFirst hShort hUsed hx =>
    rcases extend_used hUsed code (Nat.le_of_lt hShort) with ⟨code', hRun⟩
    refine ⟨unitsOf questionMark, fun rest => ?_⟩
    have hEnd := hRun (x :: rest)
    unfold IsTail at hx
    rcases Nat.exists_eq_add_of_lt hShort with ⟨k, rfl⟩
    rw [Nat.add_assoc, Nat.add_sub_cancel_left, length_cons (a := x), extend, if_neg hx] at hEnd
    have hNe : b ≠ 0 := by
      rintro rfl
      exact hNul mem_cons_self
    rw [cons_append, cons_append, List.append_assoc,
      singleton_append, length_cons, utf8Turns_some hFirst (not_nul hFirst hNe) hEnd]
    congr 2
    simp
    omega

theorem utf8Turns_end {code ext : Nat} (hFirst : firstByte b = some (code, ext)) (hb : b ≠ 0)
    (hShort : used.length < ext) (hUsed : ∀ x ∈ used, IsTail x) (pos : Nat) :
    ∃ units, utf8Turns pos (b :: used) (b :: used).length = some [(pos, units)] := by
  rcases extend_used hUsed code (Nat.le_of_lt hShort) with ⟨code', hRun⟩
  have hEnd := hRun []
  rcases Nat.exists_eq_add_of_lt hShort with ⟨k, rfl⟩
  rw [Nat.add_assoc, Nat.add_sub_cancel_left, append_nil, length_nil, extend] at hEnd
  refine ⟨unitsOf code', ?_⟩
  rw [length_cons, utf8Turns_some hFirst (not_nul hFirst hb) hEnd]
  simp [utf8Turns]

theorem utf8Turns_illegal
    (hFirst : firstByte b = none) (pos : Nat) (rest : List UInt8) (size : Nat) :
    utf8Turns pos (b :: rest) size = some (List.replicate size (pos, unitsOf questionMark)) := by
  induction size with
  | zero => simp [utf8Turns]
  | succ size ih =>
    rw [utf8Turns, hFirst]
    rw [ih]
    rfl

/- Groups are taken one after the other. -/
theorem utf8Turns_groups
    (gs : List (List UInt8)) (hGroups : ∀ g ∈ gs, Group g) (hNul : 0 ∉ gs.flatten) (pos : Nat) :
    ∃ turns : List (Nat × List UInt16), (∀ t ∈ turns, t.1 < pos + gs.flatten.length) ∧ ∀ rest,
          utf8Turns pos (gs.flatten ++ rest) (gs.flatten ++ rest).length =
            (utf8Turns (pos + gs.flatten.length) rest rest.length).map (turns ++ ·) := by
  induction gs generalizing pos with
  | nil =>
    refine ⟨[], nofun, fun rest => ?_⟩
    simp
  | cons g gs ih =>
    rcases forall_mem_cons.mp hGroups with ⟨hg, hGroups⟩
    rw [flatten_cons, mem_append, not_or] at hNul
    rcases utf8Turns_group hg hNul.1 pos with ⟨units, hRun⟩
    rcases ih hGroups hNul.2 (pos + g.length) with ⟨turns, hBefore, hRest⟩
    have hPos : 0 < g.length := by cases hg <;> simp
    have hLength : pos + (g ++ gs.flatten).length = pos + g.length + gs.flatten.length := by
      rw [List.length_append, Nat.add_assoc]
    rw [flatten_cons, hLength]
    refine ⟨(pos, units) :: turns, ?_, fun rest => ?_⟩
    · rw [forall_mem_cons]
      exact ⟨by dsimp only; omega, hBefore⟩
    · rw [List.append_assoc, hRun, hRest, Option.map_map]
      rfl

/- The decoder reads its bytes only, and in order. -/
theorem utf8Turns_total (src : List UInt8) (hNul : 0 ∉ src) (pos : Nat) :
    ∃ turns, utf8Turns pos src src.length = some turns ∧ (∀ t ∈ turns, pos ≤ t.1) ∧
        turns.Pairwise fun t t' => t.1 ≤ t'.1 := by
  induction hn : src.length using Nat.strong_induction_on generalizing src pos with
  | _ n ih =>
  rw [← hn]
  cases src with
  | nil => exact ⟨[], by simp [utf8Turns], nofun, .nil⟩
  | cons b rest =>
  cases hFirst : firstByte b with
  | none =>
    refine ⟨_, utf8Turns_illegal hFirst pos rest _, ?_, ?_⟩
    · intro t ht
      rw [eq_of_mem_replicate ht]
    · exact pairwise_replicate.mpr (Or.inr (Nat.le_refl _))
  | some r =>
  rcases r with ⟨code, ext⟩
  rcases split_tails ext rest with ⟨used, rest, rfl, hUsed, hForm⟩
  have hb : b ≠ 0 := by
    rintro rfl
    exact hNul mem_cons_self
  have hNext :
      ∀ g rest', Group g → b :: (used ++ rest) = g ++ rest' → ∃ turns,
          utf8Turns pos (b :: (used ++ rest)) (b :: (used ++ rest)).length = some turns ∧
            (∀ t ∈ turns, pos ≤ t.1) ∧ turns.Pairwise fun t t' => t.1 ≤ t'.1 := by
    intro g rest' hGroup hSplit
    have hPos : 0 < g.length := by cases hGroup <;> simp
    rw [hSplit] at hNul hn ⊢
    rw [mem_append, not_or] at hNul
    rw [List.length_append] at hn
    rcases utf8Turns_group hGroup hNul.1 pos with ⟨units, hRun⟩
    rcases ih rest'.length (by omega) rest' hNul.2
      (pos + g.length) rfl with ⟨turns, hTurns, hLe, hOrder⟩
    refine ⟨(pos, units) :: turns, ?_, ?_, ?_⟩
    · rw [hRun, hTurns]
      rfl
    · rw [forall_mem_cons]
      exact ⟨Nat.le_refl _, fun t ht => Nat.le_trans (Nat.le_add_right _ _) (hLe t ht)⟩
    · exact .cons (fun t ht => Nat.le_trans (Nat.le_add_right _ _) (hLe t ht)) hOrder
  rcases hForm with hWhole | ⟨hShort, rfl | ⟨x, rest, rfl, hx⟩⟩
  · subst hWhole
    exact hNext (b :: used) rest (.whole hFirst hUsed) rfl
  · rcases utf8Turns_end hFirst hb hShort hUsed pos with ⟨units, hRun⟩
    rw [append_nil]
    exact ⟨_, hRun, forall_mem_singleton.mpr (Nat.le_refl _), pairwise_singleton _ _⟩
  · exact hNext (b :: used ++ [x]) rest (.cut hFirst hShort hUsed hx) (by simp)

/-
  Exactly the texts with nothing required behind an illegal
  first byte are decoded.
-/
theorem decodes_iff (hNul : 0 ∉ bytes) :
    Decodes bytes ↔ NothingBehind bytes := by
  constructor
  · rintro ⟨turns, hRun, -, -, hAll⟩ gs b rest rfl hGroups hFirst i c hLt hRequired
    rw [mem_append, not_or] at hNul
    rcases utf8Turns_groups gs hGroups hNul.1 0 with ⟨before, hBefore, hGo⟩
    rw [hGo, utf8Turns_illegal hFirst] at hRun
    cases hRun
    rcases mem_append.mp (hAll i c hRequired) with
      hMem | hMem
    · have := hBefore _ hMem
      omega
    · have := congrArg Prod.fst (eq_of_mem_replicate hMem)
      omega
  · intro hBehind
    rcases utf8Turns_total bytes hNul 0 with ⟨turns, hRun, -, hOrder⟩
    refine ⟨turns, hRun, ?_, hOrder, ?_⟩
    · rw [utf8ToUtf16, hRun]
      rfl
    · intro i c hRequired
      rcases exists_groups hBehind hRequired bytes [] rfl nofun
        (Nat.zero_le _) with ⟨gs, hGroups, rfl, hEq⟩
      rcases hRequired.1 with ⟨rest, hRest⟩
      rw [← hRest] at hEq
      rw [hEq, mem_append, mem_append, not_or, not_or] at hNul
      have hc : c ≠ '\x00' := by
        rintro rfl
        exact hNul.2.1 (mem_singleton.mpr rfl)
      rcases utf8Turns_groups gs hGroups hNul.1 0 with ⟨before, -, hGo⟩
      rw [hEq, hGo, utf8Turns_char hc, Option.map_map] at hRun
      rcases Option.map_eq_some_iff.mp hRun with ⟨behind, -, rfl⟩
      rw [Nat.zero_add]
      exact mem_append_right _ mem_cons_self

/-
  The conversions are right exactly on text whose high
  surrogates are paired, and on bytes that have nothing
  required behind an illegal first byte; and the second one
  never reads behind its bytes.
-/
theorem charset_malformed (units : List UInt16) (bytes : List UInt8) (hNul : 0 ∉ bytes) :
    (utf16ToUtf8 units units.length = some ((repaired units).flatMap utf8EncodeChar) ↔
      HighPaired units) ∧
    (∃ units, utf8ToUtf16 bytes bytes.length = some units) ∧
    (Decodes bytes ↔ NothingBehind bytes) := by
  refine ⟨utf16ToUtf8_iff units, ?_, decodes_iff hNul⟩
  rcases utf8Turns_total bytes hNul 0 with ⟨turns, hRun, -, -⟩
  rw [utf8ToUtf16, hRun]
  exact ⟨_, rfl⟩

/- A text with errors that both conversions get over. -/
theorem charset_malformed_mended :
    utf16ToUtf8 [0xdc00, 0x61] 2 = some ((repaired [0xdc00, 0x61]).flatMap utf8EncodeChar) ∧
      (∃ units, utf8ToUtf16 [0xc3, 0x61, 0x62] 3 = some units) ∧
        (Decodes [0xc3, 0x61, 0x62] ↔ NothingBehind [0xc3, 0x61, 0x62]) :=
  have hBoth := charset_malformed [0xdc00, 0x61] [0xc3, 0x61, 0x62] (by decide)
  ⟨hBoth.1.mpr ⟨fun h => absurd h (by decide), fun h => absurd h (by decide), trivial⟩, hBoth.2⟩

/-
  A high surrogate alone takes the letter behind it along,
  and an illegal byte all that is behind it.
-/
theorem charset_malformed_lost :
    utf16ToUtf8 [0xd800, 0x61] 2 = some [0x3f] ∧
      (repaired [0xd800, 0x61]).flatMap utf8EncodeChar = [0x3f, 0x61] ∧
      Required [0xff, 0x61, 0x62] 2 'b' ∧
      utf8ToUtf16 [0xff, 0x61, 0x62] 3 = some [0x3f, 0x3f, 0x3f] := by
  refine ⟨rfl, rfl, ⟨⟨[], rfl⟩, Or.inr ⟨1, 'a', ⟨[0x62], rfl⟩, rfl⟩⟩, ?_⟩
  rw [utf8ToUtf16, utf8Turns_illegal (by decide)]
  rfl

end Bytes

end Uboot.Charset
