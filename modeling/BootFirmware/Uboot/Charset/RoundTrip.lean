import BootFirmware.Lib.Unicode
import BootFirmware.Uboot.Charset.Model
import Mathlib.Data.List.Flatten

/-
  Conversion of text that is well formed.

  The main results are:
    * `utf16Loop_char` and `utf8Turns_char`
    * `utf16_utf8_round_trip`
-/

----
-- Characters
----

namespace Uboot.Charset

open Unicode String

variable {c : Char}

/- The bytes that a character below 0x10000 is put out as. -/
theorem bytesOf_char (hBasic : c.toNat < 0x10000) :
    bytesOf c.toNat = utf8EncodeChar c := by
  have hValid := toNat_cases c
  have hLow : isLow c.toNat = false := by
    simp only [isLow, Bool.and_eq_false_iff, decide_eq_false_iff_not]
    omega
  unfold bytesOf
  rw [hLow, if_neg Bool.false_ne_true, if_pos hBasic, utf8EncodeChar_eq]
  unfold first extra
  split_ifs with hOne hTwo hThree
  · simp [mark, tails]
  · have hMark : c.toNat / 2 ^ 6 ||| 0xc0 = _ := @or_mark 6 _ 3 (by omega)
    rw [Nat.shiftRight_eq_div_pow, hMark, tail_eq]
    simp [mark, tails]
  · have hMark : c.toNat / 2 ^ 12 ||| 0xe0 = _ := @or_mark 5 _ 7 (by omega)
    rw [Nat.shiftRight_eq_div_pow, hMark, tail_eq, tail_eq, Nat.shiftRight_eq_div_pow]
    simp [mark, tails]
  · omega

theorem fourBytes_char (hHigh : 0x10000 ≤ c.toNat) :
    fourBytes c.toNat = utf8EncodeChar c := by
  have hValid := toNat_cases c
  have hExtra : extra c.toNat = 3 := by
    unfold extra
    split_ifs <;> omega
  have hMark : c.toNat / 2 ^ 18 ||| 0xf0 = _ := @or_mark 4 _ 15 (by omega)
  rw [utf8EncodeChar_eq]
  unfold fourBytes first
  rw [hExtra, Nat.shiftRight_eq_div_pow, hMark, tail_eq,
    tail_eq, tail_eq, Nat.shiftRight_eq_div_pow, Nat.shiftRight_eq_div_pow]
  simp [mark, tails]

/- The units that a code is put out as. -/
theorem unitsOf_char (c : Char) : unitsOf c.toNat = utf16 c := by
  have hLow : c.toNat &&& 0x3ff ||| 0xdc00 = c.toNat % 0x400 + 0xdc00 := by
    have hAnd : c.toNat &&& 0x3ff = c.toNat % 0x400 := Nat.and_two_pow_sub_one_eq_mod c.toNat 10
    rw [hAnd]
    exact @or_mark 10 _ 55 (Nat.mod_lt _ (by decide))
  unfold unitsOf utf16
  split_ifs with hBasic
  · rfl
  · have hFirst : c.toNat / 2 ^ 10 + 0xd7c0 = 0xd800 + (c.toNat - 0x10000) / 0x400 := by
      omega
    have hSecond : c.toNat % 0x400 + 0xdc00 = 0xdc00 + (c.toNat - 0x10000) % 0x400 := by omega
    rw [hLow, Nat.shiftRight_eq_div_pow, hFirst, hSecond]

theorem firstByte_first {v : Nat} (hv : v < 0x110000) :
    firstByte (first v) = some (v / 64 ^ extra v, extra v) := by
  have hAll :
      (∀ n < 128, firstByte (.ofNat n) = some (n, 0)) ∧
        (∀ n < 32, firstByte (.ofNat (n + 0xc0)) = some (n, 1)) ∧
        (∀ n < 16, firstByte (.ofNat (n + 0xe0)) = some (n, 2)) ∧
        ∀ n < 8, firstByte (.ofNat (n + 0xf0)) = some (n, 3) := by
    decide +kernel
  rcases hAll with ⟨hOne, hTwo, hThree, hFour⟩
  unfold first extra
  split_ifs
  · have hZero : v / 64 ^ 0 = v := by
      rw [pow_zero, Nat.div_one]
    rw [hZero]
    exact hOne v (by omega)
  · exact hTwo _ (by omega)
  · exact hThree _ (by omega)
  · exact hFour _ (by omega)

/- The bytes after the first. -/
theorem extend_tails (v n : Nat) (rest : List UInt8) :
    extend (v / 64 ^ n) n (tails v n ++ rest) (n + rest.length) = some (v, rest, rest.length) := by
  induction n with
  | zero =>
    rw [pow_zero, Nat.div_one, Nat.zero_add]
    rfl
  | succ n ih =>
    have hTail :
        ∀ x < 64, (UInt8.ofNat (x + 0x80) &&& 0xc0 = 0x80) ∧
            (UInt8.ofNat (x + 0x80) &&& 0x3f).toNat = x := by
      decide +kernel
    rcases hTail (v / 64 ^ n % 64) (Nat.mod_lt _ (by decide)) with ⟨hCont, hSix⟩
    have hPow : v / 64 ^ (n + 1) = v / 64 ^ n / 64 := by rw [pow_succ, Nat.div_div_eq_div_mul]
    have hCode : (v / 64 ^ (n + 1)) <<< 6 ||| v / 64 ^ n % 64 = v / 64 ^ n := by
      have hOr := Nat.two_pow_add_eq_or_of_lt (Nat.mod_lt (v / 64 ^ n) (by decide : 0 < 2 ^ 6))
        (v / 64 ^ (n + 1))
      rw [Nat.shiftLeft_eq, Nat.mul_comm]
      refine hOr.symm.trans ?_
      rw [hPow]
      exact Nat.div_add_mod _ 64
    rw [tails, List.cons_append, Nat.add_right_comm, extend, if_pos hCont, hSix, hCode, ih]

/- What a character is put out as. -/
theorem utf16Loop_char (c : Char) (size : Nat) (src : List UInt16) :
    utf16Loop ((utf16 c).length + size) 0 (utf16 c ++ src) =
      (utf16Loop size 0 src).map (utf8EncodeChar c ++ ·) := by
  have hValid := toNat_cases c
  unfold utf16
  split_ifs with hBasic
  · have hUnit : (UInt16.ofNat c.toNat).toNat = c.toNat := toNat_unit hBasic
    have hHigh : isHigh c.toNat = false := by
      simp only [isHigh, Bool.and_eq_false_iff, decide_eq_false_iff_not]
      omega
    rw [List.singleton_append, List.length_singleton,
      Nat.add_comm, utf16Loop, if_neg (not_not.mpr rfl), hUnit,
      hHigh, if_neg Bool.false_ne_true, bytesOf_char hBasic]
  · have hFirst :
        (UInt16.ofNat (0xd800 + (c.toNat - 0x10000) / 0x400)).toNat =
          0xd800 + (c.toNat - 0x10000) / 0x400 :=
      toNat_unit (by omega)
    have hSecond :
        (UInt16.ofNat (0xdc00 + (c.toNat - 0x10000) % 0x400)).toNat =
          0xdc00 + (c.toNat - 0x10000) % 0x400 :=
      toNat_unit (by omega)
    have hHigh :
        isHigh (0xd800 + (c.toNat - 0x10000) / 0x400) = true := by
      simp only [isHigh, Bool.and_eq_true, decide_eq_true_eq]
      omega
    have hLow :
        isLow (0xdc00 + (c.toNat - 0x10000) % 0x400) = true := by
      simp only [isLow, Bool.and_eq_true, decide_eq_true_eq]
      omega
    have hCode :
        ((0xd800 + (c.toNat - 0x10000) / 0x400 - 0xd800) <<< 10) +
            (0xdc00 + (c.toNat - 0x10000) % 0x400 - 0xdc00) +
          0x10000 = c.toNat := by
      rw [Nat.shiftLeft_eq]
      omega
    change utf16Loop (2 + size) 0 (_ :: _ :: src) = _
    rw [Nat.add_comm, utf16Loop, if_neg (not_not.mpr rfl), hFirst, if_pos hHigh, utf16Loop, hSecond,
      if_pos (by omega), if_pos hLow, hCode, fourBytes_char (by omega)]

----
-- Turns
----

theorem utf8Turns_some {b : UInt8} {code ext code' size size' pos : Nat} {src src' : List UInt8}
    (hFirst : firstByte b = some (code, ext)) (hCode : ¬ (code = 0 ∧ b ≤ 0x7f))
    (hRun : extend code ext src size = some (code', src', size')) :
    utf8Turns pos (b :: src) (size + 1) =
      (utf8Turns (pos + ((b :: src).length - src'.length)) src' size').map
        ((pos, unitsOf code') :: ·) := by
  rw [utf8Turns, hFirst]
  dsimp only
  split
  · rename_i hNone
    rw [if_neg hCode, hRun] at hNone
    cases hNone
  · rename_i hSome
    rw [if_neg hCode, hRun] at hSome
    cases hSome
    rfl

/- The NUL character is the one that ends the text. -/
theorem first_ne_nul (hc : c ≠ '\x00') :
    ¬ (c.toNat / 64 ^ extra c.toNat = 0 ∧ first c.toNat ≤ 0x7f) := by
  rintro ⟨hZero, hLe⟩
  rw [UInt8.le_iff_toNat_le] at hLe
  unfold first at hLe
  rw [hZero, Nat.zero_add] at hLe
  unfold extra at hZero hLe
  split_ifs at hZero hLe
  · rw [pow_zero, Nat.div_one] at hZero
    exact hc (Char.toNat_inj.mp hZero)
  all_goals exact absurd hLe (by decide)

theorem utf8Turns_char (hc : c ≠ '\x00') (pos : Nat) (rest : List UInt8) :
    utf8Turns pos (utf8EncodeChar c ++ rest) (utf8EncodeChar c ++ rest).length =
      (utf8Turns (pos + (utf8EncodeChar c).length) rest rest.length).map ((pos, utf16 c) :: ·) := by
  have hRun := extend_tails c.toNat (extra c.toNat) rest
  have hLength : (tails c.toNat (extra c.toNat) ++ rest).length = extra c.toNat + rest.length := by
    rw [List.length_append, length_tails]
  have hValid := toNat_cases c
  rw [← hLength] at hRun
  rw [utf8EncodeChar_eq, List.cons_append, List.length_cons,
    utf8Turns_some (firstByte_first (by omega))
      (first_ne_nul hc) hRun, unitsOf_char, List.length_cons,
    List.length_cons, hLength, length_tails, Nat.add_right_comm, Nat.add_sub_cancel]

----
-- Texts
----

theorem utf16ToUtf8_text (cs : List Char) :
    utf16ToUtf8 (cs.flatMap utf16) (cs.flatMap utf16).length =
      some (cs.flatMap utf8EncodeChar) := by
  unfold utf16ToUtf8
  induction cs with
  | nil => rfl
  | cons c cs ih =>
    rw [List.flatMap_cons, List.length_append, utf16Loop_char, ih]
    rfl

theorem utf8Turns_text {cs : List Char} (hNul : '\x00' ∉ cs) (pos : Nat) :
    ∃ turns,
      utf8Turns pos (cs.flatMap utf8EncodeChar) (cs.flatMap utf8EncodeChar).length = some turns ∧
      (turns.flatMap fun turn => turn.2) = cs.flatMap utf16 := by
  induction cs generalizing pos with
  | nil => exact ⟨[], by simp [utf8Turns], rfl⟩
  | cons c cs ih =>
    rcases not_or.mp (mt List.mem_cons.mpr hNul) with ⟨hc, hRest⟩
    rcases ih hRest (pos + (utf8EncodeChar c).length) with ⟨turns, hTurns, hUnits⟩
    refine ⟨(pos, utf16 c) :: turns, ?_, ?_⟩
    · rw [List.flatMap_cons, utf8Turns_char (Ne.symm hc), hTurns]
      rfl
    · rw [List.flatMap_cons, List.flatMap_cons, hUnits]

theorem utf8ToUtf16_text {cs : List Char} (hNul : '\x00' ∉ cs) :
    utf8ToUtf16 (cs.flatMap utf8EncodeChar) (cs.flatMap utf8EncodeChar).length =
      some (cs.flatMap utf16) := by
  rcases utf8Turns_text hNul 0 with ⟨turns, hTurns, hUnits⟩
  unfold utf8ToUtf16
  rw [hTurns, Option.map_some, hUnits]

/- Each conversion undoes the other one. -/
theorem utf16_utf8_round_trip :
    (∀ units, WellFormedUtf16 units → 0 ∉ units → ∃ bytes,
        utf16ToUtf8 units units.length = some bytes ∧ utf8ToUtf16 bytes bytes.length = some units) ∧
    ∀ bytes, WellFormedUtf8 bytes → 0 ∉ bytes → ∃ units,
        utf8ToUtf16 bytes bytes.length = some units ∧
          utf16ToUtf8 units units.length = some bytes := by
  constructor
  · rintro units ⟨cs, rfl⟩ hZero
    have hNul : '\x00' ∉ cs := by
      intro hMem
      exact hZero (List.mem_flatMap.mpr ⟨_, hMem, List.mem_singleton.mpr rfl⟩)
    exact ⟨_, utf16ToUtf8_text cs, utf8ToUtf16_text hNul⟩
  · rintro bytes ⟨cs, rfl⟩ hZero
    have hNul : '\x00' ∉ cs := by
      intro hMem
      exact hZero (List.mem_flatMap.mpr ⟨_, hMem, List.mem_singleton.mpr rfl⟩)
    exact ⟨_, utf8ToUtf16_text hNul, utf16ToUtf8_text cs⟩

/- A letter, and a character that is a pair of surrogates. -/
theorem utf16_utf8_round_trip_pair :
    (∃ bytes, utf16ToUtf8 [0x61, 0xd83d, 0xde00] 3 = some bytes ∧
        utf8ToUtf16 bytes bytes.length = some [0x61, 0xd83d, 0xde00]) ∧
    ∃ units, utf8ToUtf16 [0x61, 0xf0, 0x9f, 0x98, 0x80] 5 = some units ∧
        utf16ToUtf8 units units.length = some [0x61, 0xf0, 0x9f, 0x98, 0x80] :=
  ⟨utf16_utf8_round_trip.1 _ ⟨[Char.ofNat 0x61, Char.ofNat 0x1f600], by decide⟩ (by decide),
    utf16_utf8_round_trip.2 _ ⟨[Char.ofNat 0x61, Char.ofNat 0x1f600], by decide⟩ (by decide)⟩

end Uboot.Charset
