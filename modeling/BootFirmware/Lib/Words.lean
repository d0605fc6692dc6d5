import Mathlib.Algebra.Group.Nat.Defs
import Mathlib.Data.List.Basic

/-
  Numbers as little-endian bytes.

  Key definitions include:
    * `toBytes` and `ofBytes`
    * `wordBytes` and `wordOfBytes`

  The rules used by the developments built on top are:
    * `ofBytes_toBytes_mod`
    * `ofBytes_append` and `toBytes_append`
    * `length_wordBytes`
    * `wordOfBytes_wordBytes`
-/

namespace Words

/- The last bytes of a number, the least first. -/
def toBytes : Nat → Nat → List UInt8
  | 0, _ => []
  | n + 1, x => UInt8.ofNat x :: toBytes n (x / 256)

def ofBytes : List UInt8 → Nat
  | [] => 0
  | b :: rest => b.toNat + 256 * ofBytes rest

theorem length_toBytes (n x : Nat) :
    (toBytes n x).length = n := by
  induction n generalizing x with
  | zero => rfl
  | succ n ih => exact congrArg (· + 1) (ih (x / 256))

theorem ofBytes_toBytes (n x : Nat) (hFits : x < 256 ^ n) :
    ofBytes (toBytes n x) = x := by
  induction n generalizing x with
  | zero =>
    rw [Nat.pow_zero] at hFits
    exact (Nat.lt_one_iff.mp hFits).symm
  | succ n ih =>
    rw [Nat.pow_succ] at hFits
    have hRest : x / 256 < 256 ^ n := Nat.div_lt_of_lt_mul (Nat.mul_comm _ _ ▸ hFits)
    unfold toBytes ofBytes
    rw [ih _ hRest, UInt8.toNat_ofNat']
    exact Nat.mod_add_div x 256

/- What does not fit is left out. -/
theorem ofBytes_toBytes_mod (n x : Nat) :
    ofBytes (toBytes n x) = x % 256 ^ n := by
  induction n generalizing x with
  | zero => exact (Nat.mod_one x).symm
  | succ n ih =>
    have hPow : 256 ^ (n + 1) = 256 * 256 ^ n := by rw [Nat.pow_succ, Nat.mul_comm]
    unfold toBytes ofBytes
    rw [ih, UInt8.toNat_ofNat', hPow, Nat.mod_mul]

theorem ofBytes_append (xs ys : List UInt8) :
    ofBytes (xs ++ ys) = ofBytes xs + 256 ^ xs.length * ofBytes ys := by
  induction xs with
  | nil =>
    rw [List.nil_append, List.length_nil, Nat.pow_zero, Nat.one_mul]
    exact (Nat.zero_add _).symm
  | cons b xs ih =>
    rw [List.cons_append, ofBytes, ofBytes, ih, List.length_cons, Nat.pow_succ, Nat.mul_add,
      Nat.mul_comm (256 ^ xs.length) 256, Nat.mul_assoc, Nat.add_assoc]

theorem ofBytes_lt (xs : List UInt8) :
    ofBytes xs < 256 ^ xs.length := by
  induction xs with
  | nil => exact Nat.one_pos
  | cons b xs ih =>
    have hByte := b.toNat_lt
    rw [ofBytes, List.length_cons, Nat.pow_succ]
    omega

/- The bytes of a number, cut after some of them. -/
theorem toBytes_append (a b : Nat) {w : Nat} (v : Nat) (hFits : w < 256 ^ a) :
    toBytes (a + b) (w + 256 ^ a * v) = toBytes a w ++ toBytes b v := by
  induction a generalizing w with
  | zero =>
    rw [Nat.pow_zero, Nat.lt_one_iff] at hFits
    rw [hFits, Nat.pow_zero, Nat.one_mul, Nat.zero_add, Nat.zero_add]
    rfl
  | succ a ih =>
    rw [Nat.pow_succ] at hFits
    have hPow : 256 ^ (a + 1) * v = 256 * (256 ^ a * v) := by
      rw [Nat.pow_succ, Nat.mul_comm (256 ^ a), Nat.mul_assoc]
    have hRest : (w + 256 * (256 ^ a * v)) / 256 = w / 256 + 256 ^ a * v := by omega
    have hLow : UInt8.ofNat (w + 256 * (256 ^ a * v)) = UInt8.ofNat w := by
      apply UInt8.toNat_inj.mp
      rw [UInt8.toNat_ofNat', UInt8.toNat_ofNat']
      omega
    rw [show a + 1 + b = (a + b) + 1 by omega, toBytes, hPow, hRest, hLow, ih (by omega)]
    rfl

/- A word of so many bytes. -/
def wordBytes (n : Nat) (w : BitVec (8 * n)) : List UInt8 :=
  toBytes n w.toNat

def wordOfBytes (n : Nat) (bytes : List UInt8) : BitVec (8 * n) :=
  BitVec.ofNat (8 * n) (ofBytes bytes)

@[simp] theorem length_wordBytes (n : Nat) (w : BitVec (8 * n)) :
    (wordBytes n w).length = n :=
  length_toBytes n w.toNat

@[simp] theorem wordOfBytes_wordBytes (n : Nat) (w : BitVec (8 * n)) :
    wordOfBytes n (wordBytes n w) = w := by
  have hFits : w.toNat < 256 ^ n := by
    have hLt := w.isLt
    rwa [Nat.pow_mul] at hLt
  unfold wordOfBytes wordBytes
  rw [ofBytes_toBytes n w.toNat hFits]
  rw [BitVec.ofNat_toNat, BitVec.setWidth_eq]

end Words
