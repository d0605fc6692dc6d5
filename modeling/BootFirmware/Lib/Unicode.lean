import Mathlib.Data.Nat.Bitwise

/-
  Characters in UTF-8 and in UTF-16.

  The bytes of a character are a first byte, which tells how
  many follow, and those, each with six bits of its value.

  Key definitions include:
    * `Unicode.utf16`
    * `Unicode.WellFormedUtf16` and `Unicode.WellFormedUtf8`
    * `Unicode.extra`, `Unicode.first` and `Unicode.tails`

  The rules used by the developments built on top are:
    * `utf8EncodeChar_eq`
    * `or_mark` and `tail_eq`
-/

namespace Unicode

/- The units of a character. -/
def utf16 (c : Char) : List UInt16 :=
  if c.toNat < 0x10000 then [.ofNat c.toNat]
  else
    [.ofNat (0xd800 + (c.toNat - 0x10000) / 0x400), .ofNat (0xdc00 + (c.toNat - 0x10000) % 0x400)]

def WellFormedUtf16 (units : List UInt16) : Prop :=
  ∃ cs : List Char, units = cs.flatMap utf16

def WellFormedUtf8 (bytes : List UInt8) : Prop :=
  ∃ cs : List Char, bytes = cs.flatMap String.utf8EncodeChar

/- How many bytes follow the first one. -/
def extra (v : Nat) : Nat :=
  if v ≤ 0x7f then 0
  else if v ≤ 0x7ff then 1
  else if v ≤ 0xffff then 2
  else 3

/- What marks a first byte that `n` bytes follow. -/
def mark : Nat → Nat
  | 0 => 0
  | 1 => 0xc0
  | 2 => 0xe0
  | _ => 0xf0

def first (v : Nat) : UInt8 :=
  .ofNat (v / 64 ^ extra v + mark (extra v))

/- The last `n` bytes of a value. -/
def tails (v : Nat) : Nat → List UInt8
  | 0 => []
  | n + 1 => .ofNat (v / 64 ^ n % 64 + 0x80) :: tails v n

theorem toNat_cases (c : Char) : c.toNat < 0xd800 ∨ 0xdfff < c.toNat ∧ c.toNat < 0x110000 :=
  c.valid

theorem toNat_unit {n : Nat} (hUnit : n < 0x10000) :
    (UInt16.ofNat n).toNat = n := by
  rw [UInt16.toNat_ofNat']
  exact Nat.mod_eq_of_lt hUnit

theorem length_tails (v n : Nat) :
    (tails v n).length = n := by
  induction n with
  | zero => rfl
  | succ n ih => exact congrArg (· + 1) ih

/- A character is its first byte and the ones after it. -/
theorem utf8EncodeChar_eq (c : Char) :
    String.utf8EncodeChar c = first c.toNat :: tails c.toNat (extra c.toNat) := by
  have hValid := toNat_cases c
  change
    (if c.toNat ≤ 0x7f then _
      else if c.toNat ≤ 0x7ff then _
      else if c.toNat ≤ 0xffff then _
      else _) = _
  unfold first extra
  split_ifs
  · simp [mark, tails]
  · have hFirst : c.toNat / 64 % 32 = c.toNat / 64 := Nat.mod_eq_of_lt (by omega)
    simp [mark, tails, hFirst]
  · have hFirst : c.toNat / 4096 % 16 = c.toNat / 4096 := Nat.mod_eq_of_lt (by omega)
    simp [mark, tails, hFirst]
  · have hFirst : c.toNat / 262144 % 8 = c.toNat / 262144 := Nat.mod_eq_of_lt (by omega)
    simp [mark, tails, hFirst]

theorem or_mark {k x : Nat} (m : Nat) (hSmall : x < 2 ^ k) :
    x ||| 2 ^ k * m = x + 2 ^ k * m := by
  rw [Nat.or_comm, ← Nat.two_pow_add_eq_or_of_lt hSmall, Nat.add_comm]

theorem tail_eq (x : Nat) : x &&& 0x3f ||| 0x80 = x % 64 + 0x80 := by
  have hAnd : x &&& 0x3f = x % 64 := Nat.and_two_pow_sub_one_eq_mod x 6
  rw [hAnd]
  exact @or_mark 6 _ 2 (Nat.mod_lt _ (by decide))

end Unicode
