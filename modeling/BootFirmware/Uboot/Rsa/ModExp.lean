import BootFirmware.Lib.Montgomery
import BootFirmware.Lib.Words
import BootFirmware.Uboot.CTypes
import Mathlib.Data.Nat.Bitwise
import Mathlib.Data.Nat.Digits.Defs
import Mathlib.Data.Nat.Prime.Basic

/-
  `pow_mod`: the modular exponentiation of the software RSA.

  Numbers are arrays of words of 32 bits, the least first.
  Sums of products are of 64 bits, and what a call leaves of
  them is a word again.

  Key definitions include:
    * `RsaPublicKey`
    * `subtractModulus` and `greaterEqualModulus`
    * `montgomeryMulAddStep` and `montgomeryMul`
    * `powMod`

  The main results are:
    * `montgomeryMulAddStep_value`
    * `montgomeryMul_isProduct`
    * `pow_mod_computes`
    * `pow_mod_long_key`
-/

----
-- The Functions
----

namespace Uboot.Rsa

open List

def RSA_MAX_KEY_BITS : Nat := 4096

def EINVAL : Int := 22

/- An array of so many words. -/
structure IsWords (len : Nat) (xs : List Nat) : Prop where
  length : xs.length = len
  lt : ∀ x ∈ xs, x < 2 ^ 32

/- `struct rsa_public_key`, with its arrays of `len` words. -/
structure RsaPublicKey where
  len : Nat
  n0inv : Nat
  modulus : List Nat
  rr : List Nat
  exponent : Nat
  n0inv_lt : n0inv < 2 ^ 32
  modulus_words : IsWords len modulus
  rr_words : IsWords len rr
  exponent_lt : exponent < 2 ^ 64

/- The value of a `uint64_t`. -/
def u64 (n : Nat) : Nat :=
  n % 2 ^ 64

/- The loop of `subtract_modulus`; `acc` is an `int64_t`. -/
def subtractLoop : List Nat → List Nat → Int → List Nat
  | m :: modulus, x :: num, acc =>
    let acc := Int.bmod (acc + ((x : Int) - m)) (2 ^ 64)
    (acc % 2 ^ 32).toNat :: subtractLoop modulus num (acc / 2 ^ 32)
  | _, _, _ => []

def subtractModulus (modulus num : List Nat) : List Nat :=
  subtractLoop modulus num 0

/- The loop of `greater_equal_modulus`, from the last word. -/
def greaterEqualLoop : List Nat → List Nat → Bool
  | m :: modulus, x :: num =>
    if x < m then false
    else if m < x then true
    else greaterEqualLoop modulus num
  | _, _ => true

def greaterEqualModulus (modulus num : List Nat) : Bool :=
  greaterEqualLoop modulus.reverse num.reverse

/- The loop of a step, over the words after the first. -/
def mulAddLoop (a d0 : Nat) :
    List Nat → List Nat → List Nat → Nat → Nat → List Nat × Nat × Nat
  | m :: modulus, b :: bs, r :: result, accA, accB =>
    let accA := u64 (accA / 2 ^ 32 + a * b + r)
    let accB := u64 (accB / 2 ^ 32 + d0 * m + u32 accA)
    let rest := mulAddLoop a d0 modulus bs result accA accB
    (u32 accB :: rest.1, rest.2)
  | _, _, _, accA, accB => ([], accA, accB)

/- `montgomery_mul_add_step`. -/
def montgomeryMulAddStep (key : RsaPublicKey) (result : List Nat) (a : Nat)
    (b : List Nat) : List Nat :=
  match key.modulus, b, result with
  | m :: modulus, b :: bs, r :: rs =>
    let accA := u64 (a * b + r)
    let d0 := u32 (u32 accA * key.n0inv)
    let accB := u64 (d0 * m + u32 accA)
    let (low, accA, accB) := mulAddLoop a d0 modulus bs rs accA accB
    let accA := u64 (accA / 2 ^ 32 + accB / 2 ^ 32)
    let result := low ++ [u32 accA]
    if accA / 2 ^ 32 ≠ 0 then
      subtractModulus key.modulus result
    else result
  | _, _, _ => result

/- `montgomery_mul`. -/
def montgomeryMul (key : RsaPublicKey)
    (a b : List Nat) : List Nat :=
  a.foldl (fun result a => montgomeryMulAddStep key result a b) (List.replicate key.len 0)

/- The loop of `num_public_exponent_bits`. -/
def exponentBitsLoop : Nat → Nat → Nat → Option Nat
  | 0, _, _ => none
  | turns + 1, exponent, bits =>
    if exponent / 2 = 0 then some bits
    else exponentBitsLoop turns (exponent / 2) (bits + 1)

def numPublicExponentBits (exponent : Nat) : Option Nat :=
  if exponent = 0 then some 0
  else exponentBitsLoop 64 exponent 1

/- The result is an `int`, which has the lowest 32 bits. -/
def isPublicExponentBitSet (exponent pos : Nat) : Bool :=
  decide (toInt (exponent &&& 1 <<< pos) ≠ 0)

/- The bits of the exponent between its first and its last. -/
def powLoop (key : RsaPublicKey)
    (aScaled : List Nat) : Nat → List Nat → List Nat
  | 0, acc => acc
  | j + 1, acc =>
    let tmp := montgomeryMul key acc acc
    if isPublicExponentBitSet key.exponent (j + 1) then
      powLoop key aScaled j (montgomeryMul key tmp aScaled)
    else powLoop key aScaled j tmp

/- `get_unaligned_be32` of so many words. -/
def getBe32 : Nat → List UInt8 → List Nat
  | 0, _ => []
  | n + 1, bytes => Words.ofBytes (bytes.take 4).reverse :: getBe32 n (bytes.drop 4)

/- `put_unaligned_be32` of the words. -/
def putBe32 (words : List Nat) : List UInt8 :=
  words.flatMap fun w => (Words.toBytes 4 w).reverse

/- `pow_mod`: what it returns, and `inout` after it. -/
def powMod (key : RsaPublicKey)
    (inout : List UInt8) : Int × List UInt8 :=
  if RSA_MAX_KEY_BITS / 32 < key.len then (-EINVAL, inout)
  else
    let val := (getBe32 key.len inout).reverse
    match numPublicExponentBits key.exponent with
    | none => (-EINVAL, inout)
    | some k =>
      if k < 2 then (-EINVAL, inout)
      else if !isPublicExponentBitSet key.exponent 0 then
        (-EINVAL, inout)
      else
        let acc := montgomeryMul key val key.rr
        let acc := powLoop key acc (k - 2) acc
        let tmp := montgomeryMul key acc acc
        let acc := montgomeryMul key tmp val
        let result :=
          if greaterEqualModulus key.modulus acc then
            subtractModulus key.modulus acc
          else acc
        (0, putBe32 result.reverse ++ inout.drop (4 * key.len))

----
-- Words
----

/- The number that words make. -/
def value (xs : List Nat) : Nat :=
  Nat.ofDigits (2 ^ 32) xs

/- What so many words cannot make any more. -/
def radix (len : Nat) : Nat :=
  2 ^ (32 * len)

theorem radix_succ (len : Nat) :
    radix (len + 1) = 2 ^ 32 * radix len := by
  unfold radix
  rw [Nat.mul_succ, Nat.pow_add, Nat.mul_comm]

@[simp] theorem value_nil : value [] = 0 := rfl

theorem value_cons (x : Nat) (xs : List Nat) :
    value (x :: xs) = x + 2 ^ 32 * value xs :=
  Nat.ofDigits_cons

theorem radix_eq_pow (len : Nat) :
    radix len = (2 ^ 32) ^ len :=
  Nat.pow_mul 2 32 len

theorem value_append (xs ys : List Nat) :
    value (xs ++ ys) = value xs + radix xs.length * value ys := by
  rw [radix_eq_pow]
  exact Nat.ofDigits_append

theorem isWords_cons {len x : Nat} {xs : List Nat} :
    IsWords (len + 1) (x :: xs) ↔ x < 2 ^ 32 ∧ IsWords len xs := by
  constructor
  · intro hWords
    refine ⟨hWords.lt x (mem_cons_self ..), ?_, ?_⟩
    · exact Nat.succ.inj hWords.length
    · exact fun y hy => hWords.lt y (mem_cons_of_mem _ hy)
  · rintro ⟨hx, hRest⟩
    refine ⟨congrArg Nat.succ hRest.length, fun y hy => ?_⟩
    rcases mem_cons.mp hy with rfl | hTail
    · exact hx
    · exact hRest.lt y hTail

variable {len : Nat} {xs : List Nat}

theorem IsWords.cases (hWords : IsWords (len + 1) xs) :
    ∃ x rest, xs = x :: rest ∧ x < 2 ^ 32 ∧ IsWords len rest := by
  cases xs with
  | nil => exact absurd hWords.length (Nat.succ_ne_zero len).symm
  | cons x rest => exact ⟨x, rest, rfl, isWords_cons.mp hWords⟩

theorem IsWords.nil (hWords : IsWords 0 xs) :
    xs = [] :=
  length_eq_zero_iff.mp hWords.length

theorem isWords_nil : IsWords 0 [] :=
  ⟨rfl, nofun⟩

theorem isWords_concat {len x : Nat} (hWords : IsWords len xs) (hx : x < 2 ^ 32) :
    IsWords (len + 1) (xs ++ [x]) := by
  refine ⟨?_, fun y hy => ?_⟩
  · rw [length_append, hWords.length]
    rfl
  · rcases mem_append.mp hy with hOld | hNew
    · exact hWords.lt y hOld
    · rw [mem_singleton.mp hNew]
      exact hx

theorem isWords_zero (len : Nat) :
    IsWords len (List.replicate len 0) := by
  refine ⟨length_replicate, fun y hy => ?_⟩
  rw [(mem_replicate.mp hy).2]
  decide

theorem value_zero (len : Nat) :
    value (List.replicate len 0) = 0 := by
  induction len with
  | zero => rfl
  | succ len ih => rw [replicate_succ, value_cons, ih, Nat.mul_zero]

theorem IsWords.value_lt (hWords : IsWords len xs) :
    value xs < radix len := by
  rw [radix_eq_pow, ← hWords.length]
  exact Nat.ofDigits_lt_base_pow_length (by decide) hWords.lt

----
-- The Modulus is Subtracted
----

variable {modulus num : List Nat}

theorem subtractLoop_words {acc : Int} (hModulus : IsWords len modulus) (hNum : IsWords len num) :
    IsWords len (subtractLoop modulus num acc) := by
  induction len generalizing modulus num acc with
  | zero =>
    rw [hModulus.nil, hNum.nil]
    exact isWords_nil
  | succ len ih =>
    rcases hModulus.cases with ⟨m, ms, rfl, hm, hMs⟩
    rcases hNum.cases with ⟨x, xs, rfl, hx, hXs⟩
    rw [subtractLoop, isWords_cons]
    exact ⟨by omega, ih hMs hXs⟩

/- The words of the difference, up to a multiple of the radix. -/
theorem subtractLoop_value {acc : Int}
    (hModulus : IsWords len modulus) (hNum : IsWords len num) (hAcc : -1 ≤ acc ∧ acc ≤ 0) :
    ∃ c : Int, (value (subtractLoop modulus num acc) : Int) =
        value num - value modulus + acc + radix len * c := by
  induction len generalizing modulus num acc with
  | zero =>
    rw [hModulus.nil, hNum.nil]
    refine ⟨-acc, ?_⟩
    change (0 : Int) = 0 - 0 + acc + 1 * -acc
    omega
  | succ len ih =>
    rcases hModulus.cases with ⟨m, ms, rfl, hm, hMs⟩
    rcases hNum.cases with ⟨x, xs, rfl, hx, hXs⟩
    have hExact : Int.bmod (acc + ((x : Int) - m)) (2 ^ 64) = acc + ((x : Int) - m) :=
      Int.bmod_eq_of_le (by omega) (by omega)
    rw [subtractLoop, hExact]
    -- the word, and the borrow that goes on to the next
    obtain ⟨w, hw⟩ : ∃ w : Nat, ((acc + ((x : Int) - m)) % 2 ^ 32).toNat = w := ⟨_, rfl⟩
    obtain ⟨borrow, hBorrow⟩ : ∃ borrow : Int, (acc + ((x : Int) - m)) / 2 ^ 32 = borrow := ⟨_, rfl⟩
    have hSplit : (x : Int) - m + acc = w + 2 ^ 32 * borrow := by omega
    rw [hw, hBorrow]
    rcases @ih ms xs borrow hMs hXs (by omega) with ⟨c, hc⟩
    refine ⟨c, ?_⟩
    rw [value_cons, value_cons, value_cons, radix_succ,
      Int.natCast_add, Int.natCast_add, Int.natCast_add,
      Int.natCast_mul, Int.natCast_mul, Int.natCast_mul, Int.natCast_mul, hc]
    calc (w : Int) + ((2 ^ 32 : Nat) : Int) * ((value xs : Int) - value ms + borrow + radix len * c)
        = (w + 2 ^ 32 * borrow) + 2 ^ 32 * (value xs : Int) -
            2 ^ 32 * (value ms : Int) + 2 ^ 32 * (radix len * c)
          := by push_cast; ring
      _ = ((x : Int) - m + acc) + 2 ^ 32 * (value xs : Int) -
            2 ^ 32 * (value ms : Int) + 2 ^ 32 * (radix len * c)
          := by rw [hSplit]
      _ = _ := by push_cast; ring

/-
  The modulus is subtracted from a number that has a carry
  beyond its words, where what is left fits in them.
-/
theorem subtractModulus_value
    {len q : Nat} (hModulus : IsWords len modulus) (hNum : IsWords len num)
    (carry : Nat) (hCarry : value num + radix len * carry = q)
    (hLow : value modulus ≤ q) (hHigh : q < radix len + value modulus) :
    IsWords len (subtractModulus modulus num) ∧
      value (subtractModulus modulus num) = q - value modulus
    := by
  have hWords := @subtractLoop_words len modulus num 0 hModulus hNum
  rcases @subtractLoop_value len modulus num 0 hModulus hNum (by decide) with ⟨c, hc⟩
  refine ⟨hWords, ?_⟩
  have hLt := hWords.value_lt
  unfold subtractModulus
  generalize value (subtractLoop modulus num 0) = out at hc hLt ⊢
  generalize radix len = r at *
  have hInt : (out : Int) - (q - value modulus) = r * (c - carry) := by
    rw [hc, ← hCarry]
    push_cast
    ring
  have hZero : c - carry = 0 := by
    by_contra hNot
    rcases Int.lt_or_gt_of_ne hNot with hNeg | hPos
    · have hMul : (r : Int) * (c - carry) ≤ r * (-1) :=
        Int.mul_le_mul_of_nonneg_left (by omega) (by omega)
      omega
    · have hMul : (r : Int) * 1 ≤ r * (c - carry) :=
        Int.mul_le_mul_of_nonneg_left (by omega) (by omega)
      omega
  rw [hZero, Int.mul_zero] at hInt
  omega

/- The last words decide, and then those before them. -/
theorem greaterEqualLoop_iff (hModulus : IsWords len modulus) (hNum : IsWords len num) :
    greaterEqualLoop modulus num = true ↔ value modulus.reverse ≤ value num.reverse := by
  induction len generalizing modulus num with
  | zero =>
    rw [hModulus.nil, hNum.nil]
    exact ⟨fun _ => Nat.le_refl _, fun _ => rfl⟩
  | succ len ih =>
    rcases hModulus.cases with ⟨m, ms, rfl, hm, hMs⟩
    rcases hNum.cases with ⟨x, xs, rfl, hx, hXs⟩
    have hRest := ih hMs hXs
    have hMsLt : value ms.reverse < radix len :=
      IsWords.value_lt ⟨by rw [length_reverse, hMs.length],
        fun y hy => hMs.lt y (mem_reverse.mp hy)⟩
    have hXsLt : value xs.reverse < radix len :=
      IsWords.value_lt ⟨by rw [length_reverse, hXs.length],
        fun y hy => hXs.lt y (mem_reverse.mp hy)⟩
    rw [reverse_cons, reverse_cons, value_append, value_append, length_reverse, length_reverse,
      hMs.length, hXs.length, greaterEqualLoop]
    have hOne : ∀ y, value [y] = y := fun y => by
      rw [value_cons, value_nil, Nat.mul_zero, Nat.add_zero]
    rw [hOne, hOne]
    have hAbove : ∀ {u v : Nat}, u < v → radix len * u + radix len ≤ radix len * v := by
      intro u v hLt
      rw [← Nat.mul_succ]
      exact Nat.mul_le_mul_left _ hLt
    split_ifs with hLt hGt
    · have hMul := hAbove hLt
      exact ⟨nofun, fun hLe => by omega⟩
    · have hMul := hAbove hGt
      exact ⟨fun _ => by omega, fun _ => rfl⟩
    · rw [hRest, show m = x by omega]
      omega

theorem greaterEqualModulus_iff (hModulus : IsWords len modulus) (hNum : IsWords len num) :
    greaterEqualModulus modulus num = true ↔ value modulus ≤ value num := by
  have hLoop := @greaterEqualLoop_iff len modulus.reverse num.reverse
    ⟨by rw [length_reverse, hModulus.length], fun y hy => hModulus.lt y (mem_reverse.mp hy)⟩
    ⟨by rw [length_reverse, hNum.length], fun y hy => hNum.lt y (mem_reverse.mp hy)⟩
  rw [reverse_reverse, reverse_reverse] at hLoop
  exact hLoop

----
-- A Step Divides by the Word
----

/- A product of words leaves room for two words. -/
theorem mul_add_add_lt
    {a b c d : Nat} (hA : a < 2 ^ 32) (hB : b < 2 ^ 32) (hC : c < 2 ^ 32) (hD : d < 2 ^ 32) :
    c + a * b + d < 2 ^ 64 := by
  have hMul : a * b ≤ (2 ^ 32 - 1) * (2 ^ 32 - 1) := Nat.mul_le_mul (by omega) (by omega)
  omega

/-
  The words that the loop leaves, with the carries beyond
  them, are the sum of the carries before them and of the
  products.
-/
theorem mulAddLoop_value {len a d0 : Nat} {modulus bs rs : List Nat} {accA accB : Nat}
    (hA : a < 2 ^ 32) (hD : d0 < 2 ^ 32) (hModulus : IsWords len modulus) (hBs : IsWords len bs)
    (hRs : IsWords len rs) (hAccA : accA < 2 ^ 64) (hAccB : accB < 2 ^ 64) :
    let r := mulAddLoop a d0 modulus bs rs accA accB
    IsWords len r.1 ∧ r.2.1 < 2 ^ 64 ∧ r.2.2 < 2 ^ 64 ∧
      value r.1 + radix len * (r.2.1 / 2 ^ 32 + r.2.2 / 2 ^ 32) =
        accA / 2 ^ 32 + accB / 2 ^ 32 + value rs + a * value bs + d0 * value modulus := by
  induction len generalizing modulus bs rs accA accB with
  | zero =>
    rw [hModulus.nil, hBs.nil, hRs.nil]
    refine ⟨isWords_nil, hAccA, hAccB, ?_⟩
    change 0 + 1 * (accA / 2 ^ 32 + accB / 2 ^ 32) =
      accA / 2 ^ 32 + accB / 2 ^ 32 + 0 + a * 0 + d0 * 0
    omega
  | succ len ih =>
    rcases hModulus.cases with ⟨m, ms, rfl, hm, hMs⟩
    rcases hBs.cases with ⟨b, bs, rfl, hb, hBs⟩
    rcases hRs.cases with ⟨r, rs, rfl, hr, hRs⟩
    have hFitA : accA / 2 ^ 32 + a * b + r < 2 ^ 64 := mul_add_add_lt hA hb (by omega) hr
    have hLow : u32 (accA / 2 ^ 32 + a * b + r) < 2 ^ 32 := Nat.mod_lt _ (by decide)
    have hFitB : accB / 2 ^ 32 + d0 * m + u32 (accA / 2 ^ 32 + a * b + r) < 2 ^ 64 :=
      mul_add_add_lt hD hm (by omega) hLow
    have hA64 := Nat.mod_eq_of_lt hFitA
    have hB64 := Nat.mod_eq_of_lt hFitB
    rw [mulAddLoop]
    unfold u64
    rw [hA64, hB64]
    rcases @ih ms bs rs _ _ hMs hBs hRs hFitA hFitB with ⟨hWords, hLtA, hLtB, hSum⟩
    refine ⟨isWords_cons.mpr ⟨Nat.mod_lt _ (by decide), hWords⟩, hLtA, hLtB, ?_⟩
    generalize mulAddLoop a d0 ms bs rs (accA / 2 ^ 32 + a * b + r)
      (accB / 2 ^ 32 + d0 * m + u32 (accA / 2 ^ 32 + a * b + r)) = out at hSum ⊢
    -- each sum is its word and its carry
    have hSplitA := Nat.mod_add_div (accA / 2 ^ 32 + a * b + r) (2 ^ 32)
    have hSplitB := Nat.mod_add_div
      (accB / 2 ^ 32 + d0 * m + u32 (accA / 2 ^ 32 + a * b + r)) (2 ^ 32)
    unfold u32 at hSplitB hSum ⊢
    generalize (accA / 2 ^ 32 + a * b + r) % 2 ^ 32 = lowA at *
    generalize (accA / 2 ^ 32 + a * b + r) / 2 ^ 32 = carryA at *
    generalize (accB / 2 ^ 32 + d0 * m + lowA) % 2 ^ 32 = lowB at *
    generalize (accB / 2 ^ 32 + d0 * m + lowA) / 2 ^ 32 = carryB at *
    generalize accA / 2 ^ 32 = cA at *
    generalize accB / 2 ^ 32 = cB at *
    rw [value_cons, value_cons, value_cons, value_cons, radix_succ]
    generalize out.2.1 / 2 ^ 32 + out.2.2 / 2 ^ 32 = beyond at *
    calc lowB + 2 ^ 32 * value out.1 + 2 ^ 32 * radix len * beyond
        = lowB + 2 ^ 32 * (value out.1 + radix len * beyond) := by ring
      _ = lowB + 2 ^ 32 * (carryA + carryB + value rs +
            a * value bs + d0 * value ms) := by rw [hSum]
      _ = (lowB + 2 ^ 32 * carryB) + 2 ^ 32 * carryA +
            2 ^ 32 * (value rs + a * value bs + d0 * value ms) := by ring
      _ = cB + d0 * m + (lowA + 2 ^ 32 * carryA) +
            2 ^ 32 * (value rs + a * value bs + d0 * value ms) := by rw [hSplitB]; ring
      _ = cB + d0 * m + (cA + a * b + r) +
            2 ^ 32 * (value rs + a * value bs + d0 * value ms) := by rw [hSplitA]
      _ = cA + cB + (r + 2 ^ 32 * value rs) + a * (b + 2 ^ 32 * value bs) +
            d0 * (m + 2 ^ 32 * value ms) := by ring

/- What `pow_mod` is promised of its key. -/
structure IsMontgomeryKey (key : RsaPublicKey) : Prop where
  pos : 1 ≤ key.len
  odd : value key.modulus % 2 = 1
  top : 2 ^ (32 * key.len - 1) ≤ value key.modulus
  inverse : (key.n0inv * value key.modulus + 1) % 2 ^ 32 = 0
  square : value key.rr = 2 ^ (64 * key.len) % value key.modulus

theorem low_word_cleared
    {n0inv m n v : Nat} (hModulus : n % 2 ^ 32 = m) (hInverse : (n0inv * n + 1) % 2 ^ 32 = 0) :
    (u32 (u32 v * n0inv) * m + u32 v) % 2 ^ 32 = 0 := by
  have hLow : n0inv * m + 1 ≡ 0 [MOD 2 ^ 32] := by
    refine Nat.ModEq.trans ?_ hInverse
    refine Nat.ModEq.add_right 1 (Nat.ModEq.mul_left n0inv ?_)
    rw [← hModulus]
    exact Nat.mod_modEq n (2 ^ 32)
  have hD : u32 (u32 v * n0inv) ≡ u32 v * n0inv [MOD 2 ^ 32] := Nat.mod_modEq _ _
  calc u32 (u32 v * n0inv) * m + u32 v
      ≡ u32 v * n0inv * m + u32 v [MOD 2 ^ 32] := (hD.mul_right m).add_right _
    _ = u32 v * (n0inv * m + 1) := by ring
    _ ≡ u32 v * 0 [MOD 2 ^ 32] := hLow.mul_left _

/- What is left of a sum, with the carry beyond its words. -/
theorem top_word_value {len sum : Nat} {low : List Nat} (hLow : IsWords len low) :
    value (low ++ [u32 sum]) + radix (len + 1) * (sum / 2 ^ 32) = value low + radix len * sum := by
  have hSplit := Nat.mod_add_div sum (2 ^ 32)
  rw [value_append, hLow.length, value_cons, value_nil, radix_succ, Nat.mul_zero, Nat.add_zero]
  calc value low + radix len * u32 sum + 2 ^ 32 * radix len * (sum / 2 ^ 32)
      = value low + radix len * (sum % 2 ^ 32 + 2 ^ 32 * (sum / 2 ^ 32)) := by
        unfold u32
        ring
    _ = value low + radix len * sum := by rw [hSplit]

/- A multiple of the modulus does not matter. -/
theorem modEq_of_sum {n q t d : Nat} (hSum : 2 ^ 32 * q = t + d * n) :
    q * 2 ^ 32 ≡ t [MOD n] := by
  unfold Nat.ModEq
  rw [Nat.mul_comm, hSum, Nat.add_mul_mod_self_right]

theorem modEq_of_sub {n q t : Nat} (hLe : n ≤ q) (hQ : q * 2 ^ 32 ≡ t [MOD n]) :
    (q - n) * 2 ^ 32 ≡ t [MOD n] := by
  refine Nat.ModEq.trans ?_ hQ
  unfold Nat.ModEq
  rcases Nat.exists_eq_add_of_le hLe with ⟨k, rfl⟩
  rw [Nat.add_sub_cancel_left,
    show (n + k) * 2 ^ 32 = k * 2 ^ 32 + 2 ^ 32 * n by ring, Nat.add_mul_mod_self_right]

/-
  A step adds a multiple of the modulus that clears the least
  word, divides by the word, and leaves words again.
-/
theorem montgomeryMulAddStep_value {key : RsaPublicKey} {result b : List Nat} {a : Nat}
    (hKey : IsMontgomeryKey key) (hResult : IsWords key.len result)
    (hA : a < 2 ^ 32) (hB : IsWords key.len b) :
    IsWords key.len (montgomeryMulAddStep key result a b) ∧
      value (montgomeryMulAddStep key result a b) * 2 ^ 32 ≡
        value result + a * value b [MOD value key.modulus] := by
  have hModulus := key.modulus_words
  obtain ⟨len, hLen⟩ : ∃ len, key.len = len + 1 := by
    have hPos := hKey.pos
    exact ⟨key.len - 1, by omega⟩
  rw [hLen] at hResult hB hModulus ⊢
  have hN := hModulus.value_lt
  have hT := hResult.value_lt
  have hX := hB.value_lt
  have hPos : 0 < value key.modulus := by
    have hOdd := hKey.odd
    omega
  have hInverse := hKey.inverse
  unfold montgomeryMulAddStep
  generalize key.modulus = modulus at *
  rcases hModulus.cases with ⟨m, ms, rfl, hm, hMs⟩
  rcases hB.cases with ⟨b0, bs, rfl, hb, hBs⟩
  rcases hResult.cases with ⟨r0, rs, rfl, hr, hRs⟩
  have hFitA : a * b0 + r0 < 2 ^ 64 := by
    have hFit := mul_add_add_lt hA hb (by decide : 0 < 2 ^ 32) hr
    omega
  have hA64 : u64 (a * b0 + r0) = a * b0 + r0 := Nat.mod_eq_of_lt hFitA
  dsimp only
  rw [hA64]
  generalize hAccA : a * b0 + r0 = accA at *
  have hD : u32 (u32 accA * key.n0inv) < 2 ^ 32 := Nat.mod_lt _ (by decide)
  have hLowA : u32 accA < 2 ^ 32 := Nat.mod_lt _ (by decide)
  have hCleared := @low_word_cleared key.n0inv m (value (m :: ms)) accA
    (by rw [value_cons, Nat.add_mul_mod_self_left, Nat.mod_eq_of_lt hm]) hInverse
  generalize u32 (u32 accA * key.n0inv) = d0 at *
  have hFitB : d0 * m + u32 accA < 2 ^ 64 := by
    have hFit := mul_add_add_lt hD hm (by decide : 0 < 2 ^ 32) hLowA
    omega
  have hB64 : u64 (d0 * m + u32 accA) = d0 * m + u32 accA := Nat.mod_eq_of_lt hFitB
  rw [hB64]
  generalize hAccB : d0 * m + u32 accA = accB at *
  rcases @mulAddLoop_value len a d0 ms bs rs accA accB hA hD hMs
    hBs hRs hFitA hFitB with ⟨hWords, hLtA, hLtB, hSum⟩
  generalize mulAddLoop a d0 ms bs rs accA accB = out at *
  rcases out with ⟨low, outA, outB⟩
  dsimp only at *
  have hS64 : u64 (outA / 2 ^ 32 + outB / 2 ^ 32) = outA / 2 ^ 32 + outB / 2 ^ 32 :=
    Nat.mod_eq_of_lt (by omega)
  rw [hS64]
  generalize outA / 2 ^ 32 + outB / 2 ^ 32 = sum at *
  -- the whole sum, which the word divides
  have hWhole : 2 ^ 32 * (value low + radix len * sum) =
      value (r0 :: rs) + a * value (b0 :: bs) + d0 * value (m :: ms) := by
    have hSplitA := Nat.mod_add_div accA (2 ^ 32)
    have hSplitB := Nat.mod_add_div accB (2 ^ 32)
    unfold u32 at hAccB
    rw [hCleared, Nat.zero_add] at hSplitB
    generalize accA / 2 ^ 32 = carryA at *
    generalize accB / 2 ^ 32 = carryB at *
    generalize accA % 2 ^ 32 = lowA at *
    rw [hSum, value_cons, value_cons, value_cons]
    calc 2 ^ 32 * (carryA + carryB + value rs + a * value bs + d0 * value ms)
        = 2 ^ 32 * carryB + 2 ^ 32 * carryA + 2 ^ 32 *
            (value rs + a * value bs + d0 * value ms) := by ring
      _ = d0 * m + (lowA + 2 ^ 32 * carryA) + 2 ^ 32 *
            (value rs + a * value bs + d0 * value ms) := by
          rw [hSplitB, ← hAccB]
          ring
      _ = _ := by
          rw [hSplitA, ← hAccA]
          ring
  have hBound := Montgomery.reduce_lt hT hA hX hD hPos hWhole
  have hTop := @top_word_value len sum low hWords
  have hCongr := modEq_of_sum hWhole
  have hLeft : IsWords (len + 1) (low ++ [u32 sum]) :=
    isWords_concat hWords (Nat.mod_lt sum (by decide))
  split_ifs with hCarry
  · have hMul : radix (len + 1) * 1 ≤ radix (len + 1) * (sum / 2 ^ 32) :=
      Nat.mul_le_mul_left _ (by omega)
    have hDone := subtractModulus_value hModulus hLeft (sum / 2 ^ 32) hTop (by omega) hBound
    refine ⟨hDone.1, ?_⟩
    rw [hDone.2]
    exact modEq_of_sub (by omega) hCongr
  · rw [not_not.mp hCarry, Nat.mul_zero, Nat.add_zero] at hTop
    refine ⟨hLeft, ?_⟩
    rw [hTop]
    exact hCongr

----
-- Products
----

section

variable {key : RsaPublicKey}

section

variable (hKey : IsMontgomeryKey key)
include hKey

/- The words of a factor are taken one after the other. -/
theorem foldl_steps {len : Nat} {as result b : List Nat}
    (hAs : IsWords len as) (hResult : IsWords key.len result) (hB : IsWords key.len b) :
    IsWords key.len
        (as.foldl (fun result a => montgomeryMulAddStep key result a b) result) ∧
      value (as.foldl (fun result a =>
          montgomeryMulAddStep key result a b) result) * radix len ≡
        value result + value as * value b [MOD value key.modulus] := by
  induction len generalizing as result with
  | zero =>
    rw [hAs.nil]
    refine ⟨hResult, ?_⟩
    have hOne : radix 0 = 1 := rfl
    rw [foldl_nil, value_nil, Nat.zero_mul, Nat.add_zero, hOne, Nat.mul_one]
  | succ len ih =>
    rcases hAs.cases with ⟨a, as, rfl, ha, hAs⟩
    have hStep := montgomeryMulAddStep_value hKey hResult ha hB
    have hRest := ih hAs hStep.1
    refine ⟨hRest.1, ?_⟩
    rw [value_cons, radix_succ, Nat.mul_comm (2 ^ 32)]
    exact Montgomery.isProduct_cons hStep.2 hRest.2

theorem montgomeryMul_isProduct {a b : List Nat} (hA : IsWords key.len a) (hB : IsWords key.len b) :
    IsWords key.len (montgomeryMul key a b) ∧
      Montgomery.IsProduct (value key.modulus) (radix key.len)
        (value a) (value b) (value (montgomeryMul key a b)) := by
  have hSteps := foldl_steps hKey hA (isWords_zero key.len) hB
  rw [value_zero, Nat.zero_add] at hSteps
  exact hSteps

theorem IsMontgomeryKey.coprime : (value key.modulus).Coprime (radix key.len) := by
  apply Nat.Coprime.pow_right
  rw [Nat.coprime_two_right]
  exact Nat.odd_iff.mpr hKey.odd

theorem IsMontgomeryKey.rr_square :
    value key.rr ≡ radix key.len * radix key.len [MOD value key.modulus] := by
  rw [hKey.square]
  unfold radix
  rw [← Nat.pow_add, show 32 * key.len + 32 * key.len = 64 * key.len by omega]
  exact Nat.mod_modEq _ _

theorem IsMontgomeryKey.radix_le : radix key.len ≤ 2 * value key.modulus := by
  have hTop := hKey.top
  have hPos := hKey.pos
  unfold radix
  rw [show 32 * key.len = (32 * key.len - 1) + 1 by omega, Nat.pow_succ]
  omega

end

----
-- Bits of the Exponent
----

theorem exponentBitsLoop_eq
    {turns exponent : Nat} (bits : Nat) (hPos : 0 < exponent) (hLt : exponent < 2 ^ turns) :
    ∃ j, exponentBitsLoop turns exponent bits = some (bits + j) ∧
      2 ^ j ≤ exponent ∧ exponent < 2 ^ (j + 1) := by
  induction turns generalizing exponent bits with
  | zero =>
    rw [Nat.pow_zero] at hLt
    omega
  | succ turns ih =>
    rw [exponentBitsLoop]
    split_ifs with hHalf
    · refine ⟨0, rfl, ?_, ?_⟩
      · rw [Nat.pow_zero]
        omega
      · rw [Nat.zero_add, Nat.pow_one]
        omega
    · rw [Nat.pow_succ] at hLt
      rcases ih (bits + 1) (Nat.pos_of_ne_zero hHalf) (by omega) with ⟨j, hLoop, hLe, hGt⟩
      refine ⟨j + 1, ?_, ?_, ?_⟩
      · rw [hLoop]
        congr 1
        omega
      · rw [Nat.pow_succ]
        omega
      · rw [Nat.pow_succ]
        omega

theorem toInt_eq_zero_iff (n : Nat) :
    toInt n = 0 ↔ n % 2 ^ 32 = 0 := by
  unfold toInt
  split <;> omega

variable {exponent pos : Nat}

theorem isPublicExponentBitSet_of_lt (hPos : pos < 32) :
    isPublicExponentBitSet exponent pos = exponent.testBit pos := by
  have hLt : 2 ^ pos < 2 ^ 32 := Nat.pow_lt_pow_right (by decide) hPos
  have hOne : 1 ≤ 2 ^ pos := Nat.one_le_two_pow
  unfold isPublicExponentBitSet
  rw [Nat.one_shiftLeft, Nat.and_two_pow]
  cases exponent.testBit pos with
  | false =>
    rw [Bool.toNat_false, Nat.zero_mul]
    decide
  | true =>
    rw [Bool.toNat_true, Nat.one_mul, decide_eq_true_iff, Ne,
      toInt_eq_zero_iff, Nat.mod_eq_of_lt hLt]
    omega

/- The bits beyond an `int` are never told. -/
theorem isPublicExponentBitSet_of_ge (hPos : 32 ≤ pos) :
    isPublicExponentBitSet exponent pos = false := by
  rcases Nat.exists_eq_add_of_le hPos with ⟨k, rfl⟩
  unfold isPublicExponentBitSet
  rw [Nat.one_shiftLeft, Nat.and_two_pow, decide_eq_false_iff_not,
    not_not, toInt_eq_zero_iff, Nat.pow_add, ← Nat.mul_assoc,
    Nat.mul_comm _ (2 ^ 32), Nat.mul_assoc, Nat.mul_mod_right]

/- No bit is set that an `int` does not have, but the first. -/
def LowBits (exponent : Nat) : Prop :=
  ∀ j, 32 ≤ j → 2 ^ (j + 1) ≤ exponent → exponent.testBit j = false

theorem LowBits.told (hLow : LowBits exponent) (hPos : 2 ^ (pos + 1) ≤ exponent) :
    isPublicExponentBitSet exponent pos = exponent.testBit pos := by
  by_cases hLt : pos < 32
  · exact isPublicExponentBitSet_of_lt hLt
  · rw [isPublicExponentBitSet_of_ge (by omega), hLow pos (by omega) hPos]

/- The exponent down to a bit, from that down to the one above. -/
theorem div_two_pow_succ (e j : Nat) :
    e / 2 ^ j = 2 * (e / 2 ^ (j + 1)) + (if e.testBit j then 1 else 0) := by
  rw [Nat.testBit_eq_decide_div_mod_eq, Nat.pow_succ, ← Nat.div_div_eq_div_mul]
  generalize e / 2 ^ j = q
  by_cases hOdd : q % 2 = 1
  · rw [if_pos (decide_eq_true hOdd)]
    omega
  · rw [if_neg (by rw [decide_eq_true_iff]; exact hOdd)]
    omega

/- After a bit, `acc` stands for the power down to the bit. -/
theorem powLoop_represents {aScaled acc : List Nat} {m j : Nat}
    (hKey : IsMontgomeryKey key) (hLow : LowBits key.exponent) (hScaled : IsWords key.len aScaled)
    (hScaledIs : Montgomery.Represents (value key.modulus)
      (radix key.len) m (value aScaled))
    (hAcc : IsWords key.len acc) (hAccIs : Montgomery.Represents (value key.modulus)
      (radix key.len) (m ^ (key.exponent / 2 ^ (j + 1)))
      (value acc))
    (hTop : 2 ^ (j + 1) ≤ key.exponent) :
    IsWords key.len (powLoop key aScaled j acc) ∧
      Montgomery.Represents (value key.modulus) (radix key.len) (m ^ (key.exponent / 2))
        (value (powLoop key aScaled j acc)) := by
  induction j generalizing acc with
  | zero => exact ⟨hAcc, hAccIs⟩
  | succ j ih =>
    have hCoprime := hKey.coprime
    have hSquare := montgomeryMul_isProduct hKey hAcc hAcc
    have hSquareIs := hSquare.2.mul hCoprime hAccIs hAccIs
    have hBit := div_two_pow_succ key.exponent (j + 1)
    have hBelow : 2 ^ (j + 1) ≤ key.exponent := by
      rw [Nat.pow_succ] at hTop
      omega
    rw [← Nat.pow_add, ← Nat.two_mul] at hSquareIs
    rw [powLoop, hLow.told hTop]
    split_ifs with hSet
    · have hProduct := montgomeryMul_isProduct hKey hSquare.1 hScaled
      have hProductIs := hProduct.2.mul hCoprime hSquareIs hScaledIs
      rw [if_pos hSet] at hBit
      refine ih hProduct.1 ?_ hBelow
      rw [hBit, Nat.pow_succ]
      exact hProductIs
    · rw [if_neg hSet] at hBit
      refine ih hSquare.1 ?_ hBelow
      rw [hBit]
      exact hSquareIs

----
-- Bytes
----

theorem getBe32_words {n : Nat} {bytes : List UInt8} (hLength : bytes.length = 4 * n) :
    IsWords n (getBe32 n bytes).reverse ∧
      value (getBe32 n bytes).reverse = Words.ofBytes bytes.reverse := by
  induction n generalizing bytes with
  | zero =>
    rw [length_eq_zero_iff.mp hLength]
    exact ⟨isWords_nil, rfl⟩
  | succ n ih =>
    have hHead : (bytes.take 4).reverse.length = 4 := by
      rw [length_reverse, length_take]
      omega
    have hTail : (bytes.drop 4).length = 4 * n := by
      rw [length_drop]
      omega
    have hWord := Words.ofBytes_lt (bytes.take 4).reverse
    rw [hHead] at hWord
    have hRest := ih hTail
    rw [getBe32, reverse_cons]
    refine ⟨isWords_concat hRest.1 hWord, ?_⟩
    have hSplit : bytes.reverse = (bytes.drop 4).reverse ++ (bytes.take 4).reverse := by
      rw [← reverse_append, take_append_drop]
    rw [hSplit, Words.ofBytes_append, value_append, hRest.2,
      hRest.1.length, length_reverse, hTail, value_cons, value_nil, Nat.mul_zero, Nat.add_zero]
    congr 2
    unfold radix
    rw [Nat.pow_mul, Nat.pow_mul]

theorem putBe32_bytes {n : Nat} {xs : List Nat} (hWords : IsWords n xs) :
    putBe32 xs.reverse = (Words.toBytes (4 * n) (value xs)).reverse := by
  induction n generalizing xs with
  | zero =>
    rw [hWords.nil]
    rfl
  | succ n ih =>
    rcases hWords.cases with ⟨x, rest, rfl, hx, hRest⟩
    have hAppend := Words.toBytes_append 4 (4 * n) (value rest) (hx : x < 256 ^ 4)
    rw [show 4 * (n + 1) = 4 + 4 * n by omega, value_cons,
      show (2 : Nat) ^ 32 = 256 ^ 4 by decide, hAppend, reverse_append, ← ih hRest, reverse_cons]
    unfold putBe32
    rw [flatMap_append, flatMap_singleton]

----
-- The Power
----

/- A residue that is off by the modulus at most. -/
theorem reduced_eq_mod {n v x : Nat} (hLt : v < 2 * n) (hCongr : v ≡ x [MOD n]) :
    (if n ≤ v then v - n else v) = x % n := by
  rw [← (hCongr : v % n = x % n)]
  split_ifs with hLe
  · rw [Nat.mod_eq_sub_mod hLe, Nat.mod_eq_of_lt (by omega)]
  · exact (Nat.mod_eq_of_lt (by omega)).symm

/- What is left of `acc`, which is a residue. -/
theorem result_value
    {acc : List Nat} {x : Nat} (hKey : IsMontgomeryKey key) (hAcc : IsWords key.len acc)
    (hCongr : value acc ≡ x [MOD value key.modulus]) :
    let result :=
      if greaterEqualModulus key.modulus acc then
        subtractModulus key.modulus acc
      else acc
    IsWords key.len result ∧ value result = x % value key.modulus := by
  have hLt := hAcc.value_lt
  have hRadix := hKey.radix_le
  have hGe := greaterEqualModulus_iff key.modulus_words hAcc
  have hReduced := reduced_eq_mod (by omega) hCongr
  dsimp only
  by_cases hLe : value key.modulus ≤ value acc
  · rw [if_pos hLe] at hReduced
    have hSub := subtractModulus_value key.modulus_words hAcc 0
      (by rw [Nat.mul_zero, Nat.add_zero]) hLe (by omega)
    rw [if_pos (hGe.mpr hLe), hSub.2]
    exact ⟨hSub.1, hReduced⟩
  · rw [if_neg hLe] at hReduced
    rw [if_neg (fun hTrue => hLe (hGe.mp hTrue))]
    exact ⟨hAcc, hReduced⟩

/-
  For a key of at most the words that the stack is to hold,
  and an exponent whose bits are told, `inout` becomes the
  power.  Every Montgomery product fits in the words, and is
  less than twice the modulus.
-/
theorem pow_mod_computes (key : RsaPublicKey) (inout : List UInt8) (hKey : IsMontgomeryKey key)
    (hLen : key.len ≤ RSA_MAX_KEY_BITS / 32)
    (hOdd : key.exponent % 2 = 1) (hThree : 3 ≤ key.exponent) (hLow : LowBits key.exponent)
    (hInout : inout.length = 4 * key.len) :
    (∀ a b, IsWords key.len a → IsWords key.len b → IsWords key.len (montgomeryMul key a b) ∧
        value (montgomeryMul key a b) < 2 * value key.modulus ∧
        value (montgomeryMul key a b) * radix key.len ≡ value a * value b [MOD value key.modulus]) ∧
      powMod key inout = (0, (Words.toBytes (4 * key.len)
          (Words.ofBytes inout.reverse ^ key.exponent % value key.modulus)).reverse) := by
  have hRadix := hKey.radix_le
  constructor
  · intro a b hA hB
    have hProduct := montgomeryMul_isProduct hKey hA hB
    have hLt := hProduct.1.value_lt
    exact ⟨hProduct.1, by omega, hProduct.2⟩
  have hCoprime := hKey.coprime
  have hVal := getBe32_words hInout
  rcases exponentBitsLoop_eq 1 (by omega : 0 < key.exponent)
    key.exponent_lt with ⟨j, hLoop, hLe, hGt⟩
  have hBits : numPublicExponentBits key.exponent = some (1 + j) := by
    unfold numPublicExponentBits
    rw [if_neg (by omega), hLoop]
  -- an exponent of one bit would be less than three
  obtain ⟨i, rfl⟩ : ∃ i, j = i + 1 := by
    cases j with
    | zero =>
      rw [Nat.zero_add, Nat.pow_one] at hGt
      omega
    | succ i => exact ⟨i, rfl⟩
  have hFirst : isPublicExponentBitSet key.exponent 0 = true := by
    rw [isPublicExponentBitSet_of_lt (by decide), Nat.testBit_zero]
    exact decide_eq_true hOdd
  unfold powMod
  rw [if_neg (by omega), hBits]
  dsimp only
  rw [if_neg (by omega), hFirst, show 1 + (i + 1) - 2 = i by omega]
  have hEnter := montgomeryMul_isProduct hKey hVal.1 key.rr_words
  have hEnterIs := hEnter.2.enter hCoprime hKey.rr_square
  have hTop : key.exponent / 2 ^ (i + 1) = 1 := by
    rw [Nat.pow_succ _ (i + 1)] at hGt
    exact Nat.div_eq_of_lt_le (by omega) (by omega)
  have hStart : Montgomery.Represents (value key.modulus) (radix key.len)
      (value (getBe32 key.len inout).reverse ^ (key.exponent / 2 ^ (i + 1)))
      (value (montgomeryMul key (getBe32 key.len inout).reverse key.rr)) := by
    rw [hTop, Nat.pow_one]
    exact hEnterIs
  have hLoopIs := powLoop_represents hKey hLow hEnter.1 hEnterIs hEnter.1 hStart hLe
  generalize powLoop key _ i _ = acc at hLoopIs ⊢
  have hSquare := montgomeryMul_isProduct hKey hLoopIs.1 hLoopIs.1
  have hSquareIs := hSquare.2.mul hCoprime hLoopIs.2 hLoopIs.2
  have hLast := montgomeryMul_isProduct hKey hSquare.1 hVal.1
  have hLastIs := hLast.2.leave hCoprime hSquareIs
  rw [← Nat.pow_add, ← Nat.pow_succ, show
    (key.exponent / 2 + key.exponent / 2).succ = key.exponent by
      omega] at hLastIs
  have hResult := result_value hKey hLast.1 hLastIs
  dsimp only at hResult
  rw [putBe32_bytes hResult.1, hResult.2, hVal.2, drop_eq_nil_of_le (by omega), append_nil]
  rfl

end

/- A key of words that are all the greatest. -/
def greatestKey (len exponent : Nat) (hExponent : exponent < 2 ^ 64) : RsaPublicKey where
  len
  n0inv := 1
  modulus := List.replicate len (2 ^ 32 - 1)
  rr := (1 :: List.replicate len 0).take len
  exponent
  n0inv_lt := by decide
  modulus_words := by
    refine ⟨length_replicate, fun x hx => ?_⟩
    rw [(mem_replicate.mp hx).2]
    decide
  rr_words := by
    refine ⟨?_, fun x hx => ?_⟩
    · rw [length_take, length_cons, length_replicate]
      omega
    · rcases mem_cons.mp (mem_of_mem_take hx) with
        rfl | hZero
      · decide
      · rw [(mem_replicate.mp hZero).2]
        decide
  exponent_lt := hExponent

theorem pow_mod_computes_two_words :
    powMod (greatestKey 2 3 (by decide)) [0, 0, 0, 0, 0, 0, 0, 2] = (0, [0, 0, 0, 0, 0, 0, 0, 8]) :=
  (pow_mod_computes (greatestKey 2 3 (by decide)) [0, 0, 0, 0, 0, 0, 0, 2]
    ⟨by decide, by decide, by decide, by decide, by decide⟩
    (by decide) (by decide) (by decide)
    (fun j hj hLe => absurd (Nat.lt_of_lt_of_le
      (Nat.pow_lt_pow_right (by decide) (by omega : 2 < j + 1))
      hLe) (by decide))
    (by decide)).2.trans (by decide)

/- The number two in 129 words. -/
def longTwo : List UInt8 :=
  List.replicate 515 0 ++ [2]

/-
  A key with a word more than the stack is to hold is refused,
  and `inout` is left as it was.
-/
theorem pow_mod_long_key :
    IsMontgomeryKey (greatestKey 129 3 (by decide)) ∧ longTwo.length = 4 * 129 ∧
      powMod (greatestKey 129 3 (by decide)) longTwo = (-EINVAL, longTwo) ∧
      Words.ofBytes longTwo.reverse ≠
        Words.ofBytes longTwo.reverse ^ 3 % value (greatestKey 129 3 (by decide)).modulus := by
  refine ⟨⟨by decide, ?_, ?_, ?_, ?_⟩, ?_, ?_, ?_⟩
  all_goals decide +kernel

end Uboot.Rsa
