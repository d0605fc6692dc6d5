import Mathlib.Algebra.Group.Int.Defs
import Mathlib.Algebra.Group.Nat.Defs
import Mathlib.Data.List.Basic

/-
  Values of C types that the modelled code converts between.

  Key definitions include:
    * `charValue`, `u32` and `toInt`
    * `CString`
-/

namespace Uboot

/- The value of a `char`, which may be signed or not. -/
def charValue (signed : Bool) (b : UInt8) : Int :=
  if signed && decide (128 ≤ b.toNat) then
    (b.toNat : Int) - 256
  else
    b.toNat

/- The value of an `unsigned int`. -/
def u32 (n : Nat) : Nat :=
  n % 2 ^ 32

/- A number as an `int`. -/
def toInt (n : Nat) : Int :=
  if n % 2 ^ 32 < 2 ^ 31 then (n % 2 ^ 32 : Nat)
  else ((n % 2 ^ 32 : Nat) : Int) - 2 ^ 32

/- The bytes of a string before its terminating NUL. -/
structure CString where
  bytes : List UInt8
  no_nul : 0 ∉ bytes
deriving DecidableEq, Repr

theorem u32_of_lt {n : Nat} (hLt : n < 2 ^ 32) :
    u32 n = n :=
  Nat.mod_eq_of_lt hLt

theorem toInt_of_lt {n : Nat} (hLt : n < 2 ^ 31) :
    toInt n = n := by
  unfold toInt
  split <;> omega

theorem toInt_eq_neg_iff (n k : Nat) (hPos : 0 < k) (hk : k ≤ 2 ^ 31) :
    toInt n = -(k : Int) ↔ n % 2 ^ 32 = 2 ^ 32 - k := by
  unfold toInt
  split <;> omega

end Uboot
