import Mathlib.Data.Nat.ModEq
import Mathlib.Tactic.Ring

/-
  Montgomery multiplication, as a matter of numbers.

  A product is made of two factors by dividing by a radix `r`
  that is coprime to the modulus: the product of `a` and `b`
  is any number whose multiple by `r` is congruent to `a * b`.

  Key definitions include:
    * `Montgomery.IsProduct`
    * `Montgomery.Represents`

  The rules used by the developments built on top are:
    * `IsProduct.enter`, `IsProduct.mul` and
      `IsProduct.leave`
    * `reduce_lt` and `isProduct_cons`
-/

namespace Montgomery

variable {n r : Nat}

/- A number is a Montgomery product of two others. -/
def IsProduct (n r a b c : Nat) : Prop :=
  c * r ≡ a * b [MOD n]

/- A number stands for another, multiplied by the radix. -/
def Represents (n r x a : Nat) : Prop :=
  a ≡ x * r [MOD n]

section

variable {a b c x y : Nat}

theorem IsProduct.enter {rr : Nat}
    (hCoprime : n.Coprime r) (hSquare : rr ≡ r * r [MOD n]) (hProduct : IsProduct n r a rr c) :
    Represents n r a c := by
  apply Nat.ModEq.cancel_right_of_coprime hCoprime
  calc c * r ≡ a * rr [MOD n] := hProduct
    _ ≡ a * (r * r) [MOD n] := hSquare.mul_left a
    _ = a * r * r := (Nat.mul_assoc a r r).symm

theorem IsProduct.mul (hCoprime : n.Coprime r) (hLeft : Represents n r x a)
    (hRight : Represents n r y b) (hProduct : IsProduct n r a b c) :
    Represents n r (x * y) c := by
  apply Nat.ModEq.cancel_right_of_coprime hCoprime
  calc c * r ≡ a * b [MOD n] := hProduct
    _ ≡ x * r * (y * r) [MOD n] := Nat.ModEq.mul hLeft hRight
    _ = x * y * r * r := by ring

/- The product with a number itself no longer represents. -/
theorem IsProduct.leave
    (hCoprime : n.Coprime r) (hLeft : Represents n r x a) (hProduct : IsProduct n r a b c) :
    c ≡ x * b [MOD n] := by
  apply Nat.ModEq.cancel_right_of_coprime hCoprime
  calc c * r ≡ a * b [MOD n] := hProduct
    _ ≡ x * r * b [MOD n] := Nat.ModEq.mul_right b hLeft
    _ = x * b * r := by ring

end

/- One digit of a factor leaves less than the radix and `n`. -/
theorem reduce_lt
    {base t digit b d q : Nat} (hT : t < r) (hDigit : digit < base) (hB : b < r) (hD : d < base)
    (hPos : 0 < n) (hSum : base * q = t + digit * b + d * n) :
    q < r + n := by
  rcases Nat.exists_eq_add_of_lt hT with ⟨k, hk⟩
  have hFirst : t + digit * b ≤ base * (r - 1) := by
    calc t + digit * b
        ≤ (r - 1) + digit * (r - 1) :=
          Nat.add_le_add (by omega) (Nat.mul_le_mul_left digit (by omega))
      _ = (digit + 1) * (r - 1) := by ring
      _ ≤ base * (r - 1) := Nat.mul_le_mul_right _ hDigit
  have hSecond : d * n < base * n := Nat.mul_lt_mul_of_pos_right hD hPos
  have hBase : base * (r - 1) + base * n ≤ base * (r + n) := by
    rw [← Nat.mul_add]
    exact Nat.mul_le_mul_left base (by omega)
  exact Nat.lt_of_mul_lt_mul_left (show base * q < base * (r + n) by omega)

/- The digits of a factor are taken one after the other. -/
theorem isProduct_cons {base t t' c digit rest b m : Nat}
    (hStep : t' * base ≡ t + digit * b [MOD n]) (hRest : c * m ≡ t' + rest * b [MOD n]) :
    c * (m * base) ≡ t + (digit + base * rest) * b [MOD n] := by
  calc c * (m * base) = c * m * base := (Nat.mul_assoc ..).symm
    _ ≡ (t' + rest * b) * base [MOD n] := Nat.ModEq.mul_right base hRest
    _ = t' * base + base * rest * b := by ring
    _ ≡ t + digit * b + base * rest * b [MOD n] := Nat.ModEq.add_right _ hStep
    _ = t + (digit + base * rest) * b := by ring

end Montgomery
