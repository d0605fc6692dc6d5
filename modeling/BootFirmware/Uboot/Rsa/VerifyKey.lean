import BootFirmware.Lib.Memory
import BootFirmware.Uboot.Image.Algos
import BootFirmware.Uboot.Rsa.ModExp
import Mathlib.Data.List.GetD

/-
  `rsa_verify_key`, with the bytes of its buffer that it
  reads, and the blocks that it accepts.

  The modular exponentiation is a device's: it fills the
  buffer, or fails.  An area of memory is a function of all
  distances from a pointer, so that it can be read past its
  end.

  Key definitions include:
    * `memcmp`
    * `rsaVerifyPadding` and `rsaVerifyKey`
    * `IsPkcs1` and `VerifiesExactly`

  The main results are:
    * `memcmp_eq_zero` and `memcmp_reads`
    * `rsaVerifyKey_of_keyLen`
    * `rsa_verify_key_exact`
    * `rsa_verify_key_other_length`
-/

----
-- The Function
----

namespace Uboot.Rsa

open Image List

/- The bytes at a pointer, by their distance from it. -/
abbrev Area : Type := Int → UInt8

/- `struct key_prop`. -/
structure KeyProp where
  rr : Option (List UInt8)
  modulus : Option (List UInt8)
  publicExponent : Option (List UInt8)
  n0inv : Nat
  numBits : Int
  expLen : Nat
deriving DecidableEq, Repr

def RSA_MAX_SIG_BITS : Nat := 4096

def EACCES : Int := 13

/-
  `memcmp` of two areas from `p` and `q` on: the difference
  of the first bytes that differ, and how many it has read.
-/
def memcmp (cs ct : Area) (p q : Int) : Nat → Int × Nat
  | 0 => (0, 0)
  | count + 1 =>
    if cs p ≠ ct q then
      ((cs p).toNat - (ct q).toNat, 1)
    else
      let rest := memcmp cs ct (p + 1) (q + 1) count
      (rest.1, rest.2 + 1)

/- An `int` as a `size_t`. -/
def sizeT (n : Int) : Nat :=
  (n % 2 ^ 64).toNat

/- So many distances from one on. -/
def readFrom (p : Int) (count : Nat) : List Int :=
  (List.range count).map fun i : Nat => p + i

/- The bytes of an array. -/
def areaOf (bytes : List UInt8) : Area :=
  fun i => bytes.getD i.toNat 0

/-
  `rsa_verify_padding`: whether it returns zero, and the
  distances that it reads.  `ret` is an `|` of the parts, so
  that it is zero where each of them is.
-/
def rsaVerifyPadding (msg : Area) (padLen : Int)
    (algo : ChecksumAlgo) : Bool × List Int :=
  let ffLen := padLen - algo.derLen - 3
  let ff := memcmp msg msg 2 3 (sizeT (ffLen - 1))
  let der := memcmp msg (areaOf algo.derPrefix) (3 + ffLen) 0 algo.derLen
  (decide (msg 0 = 0 ∧ msg 1 = 1 ∧ msg 2 = 0xff ∧ ff.1 = 0 ∧ msg (2 + ffLen) = 0 ∧ der.1 = 0),
    [0, 1, 2] ++ readFrom 2 ff.2 ++ readFrom 3 ff.2 ++ [2 + ffLen] ++ readFrom (3 + ffLen) der.2)

/-
  What a device for modular exponentiation returns, and what
  the buffer then is.
-/
abbrev ModExp : Type := List UInt8 → KeyProp → Int × Area

/- `rsa_verify_key`, with the reads of its buffer. -/
def rsaVerifyKey
    (device : Option ModExp) (prop : KeyProp) (sig : List UInt8) (hash : Area) (keyLen : Nat)
    (algo : ChecksumAlgo) : Int × List Int :=
  let sigLen := sig.length
  if (sigLen : Int) ≠ prop.numBits.tdiv 8 % 2 ^ 32 then
    (-EINVAL, [])
  else if RSA_MAX_SIG_BITS / 8 < sigLen then
    (-EINVAL, [])
  else
    match device with
    | none => (-EINVAL, [])
    | some modExp =>
      let (ret, buf) := modExp sig prop
      if ret ≠ 0 then (ret, [])
      else
        let padLen := toInt (keyLen + 2 ^ 32 - algo.checksumLen)
        let padding := rsaVerifyPadding buf padLen algo
        if !padding.1 then (-EINVAL, padding.2)
        else
          let cmp := memcmp buf hash padLen 0 (((sigLen : Int) - padLen) % 2 ^ 32).toNat
          (if cmp.1 ≠ 0 then -EACCES else 0, padding.2 ++ readFrom padLen cmp.2)

----
-- What It Is For
----

/- The bytes of an area from a distance on. -/
def Area.bytes (m : Area) (off len : Nat) : List UInt8 :=
  Memory.slice (fun i => m i) off len

/- The block of a signature of this length for a hash. -/
def IsPkcs1 (algo : ChecksumAlgo) (hash : Area) (sigLen : Nat)
    (m : Area) : Prop :=
  ∃ n, 1 ≤ n ∧ m.bytes 0 sigLen = [0, 1] ++ (List.replicate n 0xff ++
        ([0] ++ (algo.derPrefix ++ hash.bytes 0 algo.checksumLen)))

/-
  Exactly the signatures of a block for the hash are
  accepted, and nothing outside the buffer is read.
-/
def VerifiesExactly (prop : KeyProp) (sigLen keyLen : Nat)
    (algo : ChecksumAlgo) : Prop :=
  ∀ (device : Option ModExp) (sig : List UInt8) (hash : Area), sig.length = sigLen →
      ((rsaVerifyKey device prop sig hash keyLen algo).1 = 0 ↔
        (sigLen : Int) = prop.numBits.tdiv 8 ∧
          ∃ modExp, device = some modExp ∧ (modExp sig prop).1 = 0 ∧
            IsPkcs1 algo hash sigLen (modExp sig prop).2) ∧
        ∀ i ∈ (rsaVerifyKey device prop sig hash keyLen algo).2, 0 ≤ i ∧ i < sigLen

----
-- Comparisons
----

theorem memcmp_eq_zero (cs ct : Area) (p q : Int) (count : Nat) :
    (memcmp cs ct p q count).1 = 0 ↔ ∀ i < count, cs (p + (i : Int)) = ct (q + (i : Int)) := by
  induction count generalizing p q with
  | zero => exact ⟨fun _ => nofun, fun _ => rfl⟩
  | succ count ih =>
    rw [memcmp]
    split_ifs with hNe
    · constructor
      · intro hZero
        have hSame : (cs p).toNat = (ct q).toNat := by omega
        exact absurd (UInt8.toNat_inj.mp hSame) hNe
      · intro hAll
        have hFirst := hAll 0 (Nat.succ_pos count)
        rw [Int.natCast_zero, Int.add_zero, Int.add_zero] at hFirst
        exact absurd hFirst hNe
    · push Not at hNe
      rw [ih]
      constructor
      · intro hAll i hi
        cases i with
        | zero =>
          rw [Int.natCast_zero, Int.add_zero, Int.add_zero]
          exact hNe
        | succ i =>
          have hNext := hAll i (by omega)
          rw [show p + ((i + 1 : Nat) : Int) = p + 1 + (i : Int) by omega,
            show q + ((i + 1 : Nat) : Int) = q + 1 + (i : Int) by omega]
          exact hNext
      · intro hAll i hi
        have hNext := hAll (i + 1) (by omega)
        rw [show p + ((i + 1 : Nat) : Int) = p + 1 + (i : Int) by omega,
          show q + ((i + 1 : Nat) : Int) = q + 1 + (i : Int) by omega] at hNext
        exact hNext

theorem memcmp_reads_le (cs ct : Area) (p q : Int) (count : Nat) :
    (memcmp cs ct p q count).2 ≤ count := by
  induction count generalizing p q with
  | zero => exact Nat.le_refl 0
  | succ count ih =>
    rw [memcmp]
    split_ifs
    · exact Nat.succ_le_succ (Nat.zero_le count)
    · exact Nat.succ_le_succ (ih (p + 1) (q + 1))

theorem memcmp_reads
    {cs ct : Area} {p q : Int} {count : Nat} (hZero : (memcmp cs ct p q count).1 = 0) :
    (memcmp cs ct p q count).2 = count := by
  induction count generalizing p q with
  | zero => rfl
  | succ count ih =>
    rw [memcmp] at hZero ⊢
    split_ifs at hZero ⊢ with hNe
    · have hSame : (cs p).toNat = (ct q).toNat := by
        omega
      exact absurd (UInt8.toNat_inj.mp hSame) hNe
    · exact congrArg Nat.succ (ih hZero)

theorem mem_readFrom {p i : Int} {count : Nat} :
    i ∈ readFrom p count ↔ p ≤ i ∧ i < p + (count : Int) := by
  unfold readFrom
  rw [mem_map]
  constructor
  · rintro ⟨j, hj, rfl⟩
    rw [mem_range] at hj
    omega
  · intro hi
    refine ⟨(i - p).toNat, ?_, ?_⟩
    · rw [mem_range]
      omega
    · omega

@[simp] theorem length_bytes (m : Area) (off len : Nat) :
    (m.bytes off len).length = len :=
  Memory.length_slice _ off len

theorem bytes_add (m : Area) (off a b : Nat) :
    m.bytes off (a + b) = m.bytes off a ++ m.bytes (off + a) b :=
  Memory.slice_add _ off a b

variable {m : Area}

/- The bytes from a distance on are those of a list. -/
theorem bytes_eq_iff {off : Nat} {bytes : List UInt8} :
    m.bytes off bytes.length = bytes ↔
      ∀ i < bytes.length, m ((off + i : Nat) : Int) = bytes.getD i 0 := by
  constructor
  · intro hEq i hi
    have hAt := congrArg (fun xs => xs[i]?) hEq
    unfold Area.bytes at hAt
    rw [Memory.getElem?_slice, if_pos hi] at hAt
    rw [getD_eq_getElem?_getD, ← hAt, Option.getD_some]
  · intro hAll
    apply ext_getElem?
    intro i
    unfold Area.bytes
    rw [Memory.getElem?_slice]
    split_ifs with hi
    · rw [hAll i hi, getD_eq_getElem?_getD, getElem?_eq_getElem hi, Option.getD_some]
    · rw [getElem?_eq_none (by omega)]

----
-- Keys of the Length of the Algorithm
----

variable {algo : ChecksumAlgo} {crypto : CryptoAlgo}

theorem append_eq_append_iff_of_length {a b c d : List UInt8} (hLength : a.length = c.length) :
    a ++ b = c ++ d ↔ a = c ∧ b = d := by
  constructor
  · intro hEq
    exact append_inj hEq hLength
  · rintro ⟨rfl, rfl⟩
    rfl

/- The parts of a block, with so many bytes of `0xff`. -/
structure Parts
    (algo : ChecksumAlgo) (n : Nat)
    (m : Area) : Prop where
  first : m 0 = 0
  second : m 1 = 1
  padding : m.bytes 2 n = List.replicate n 0xff
  zero : m ((2 + n : Nat) : Int) = 0
  der : m.bytes (3 + n) algo.derLen = algo.derPrefix

theorem bytes_one (m : Area) (off : Nat) :
    m.bytes off 1 = [m off] := rfl

theorem block_eq_iff {m hash : Area} {n : Nat} (hPrefix : algo.derPrefix.length = algo.derLen) :
    m.bytes 0 (2 + (n + (1 + (algo.derLen + algo.checksumLen)))) =
        [0, 1] ++ (List.replicate n 0xff ++
          ([0] ++ (algo.derPrefix ++ hash.bytes 0 algo.checksumLen))) ↔
      Parts algo n m ∧
        m.bytes (3 + n + algo.derLen) algo.checksumLen = hash.bytes 0 algo.checksumLen := by
  have hHead : m.bytes 0 2 = [m 0, m 1] := rfl
  rw [bytes_add, bytes_add, bytes_add, bytes_add,
    append_eq_append_iff_of_length (length_bytes m 0 2),
    append_eq_append_iff_of_length (by rw [length_bytes, length_replicate]),
    append_eq_append_iff_of_length (length_bytes m _ 1),
    append_eq_append_iff_of_length (by rw [length_bytes, hPrefix]), bytes_one, hHead, Nat.zero_add,
    show 2 + n + 1 = 3 + n by omega]
  constructor
  · rintro ⟨hFirst, hPadding, hZero, hDer, hHash⟩
    rw [List.cons.injEq, List.cons.injEq] at hFirst
    exact ⟨⟨hFirst.1, hFirst.2.1, hPadding, (List.cons.injEq .. ▸ hZero).1, hDer⟩, hHash⟩
  · rintro ⟨⟨hFirst, hSecond, hPadding, hZero, hDer⟩, hHash⟩
    exact ⟨by rw [hFirst, hSecond], hPadding, by rw [hZero], hDer, hHash⟩

/- The first byte of the padding and the others are `0xff`. -/
theorem padding_eq_iff {n : Nat} :
    m.bytes 2 (n + 1) = List.replicate (n + 1) 0xff ↔ m 2 = 0xff ∧ (memcmp m m 2 3 n).1 = 0 := by
  have hBytes := @bytes_eq_iff m 2 (List.replicate (n + 1) 0xff)
  rw [length_replicate] at hBytes
  rw [hBytes, memcmp_eq_zero]
  constructor
  · intro hAll
    have hAt : ∀ i < n + 1, m (2 + (i : Int)) = 0xff := by
      intro i hi
      have hByte := hAll i hi
      rw [getD_replicate _ hi, Int.natCast_add] at hByte
      exact hByte
    refine ⟨hAt 0 (by omega), fun i hi => ?_⟩
    have hNext := hAt (i + 1) (by omega)
    rw [show 2 + ((i + 1 : Nat) : Int) = 3 + (i : Int) by omega] at hNext
    rw [hAt i (by omega), hNext]
  · rintro ⟨hFirst, hSame⟩ i hi
    rw [getD_replicate _ hi]
    induction i with
    | zero => exact hFirst
    | succ i ih =>
      have hNext := hSame i (by omega)
      rw [show ((2 + (i + 1) : Nat) : Int) = 3 + (i : Int) by omega, ← hNext]
      have hAt := ih (by omega)
      rw [Int.natCast_add] at hAt
      exact hAt

/- Bytes of two areas are compared. -/
theorem memcmp_bytes {m m' : Area} {off off' count : Nat} :
    (memcmp m m' off off' count).1 = 0 ↔ m.bytes off count = m'.bytes off' count := by
  have hBytes := @bytes_eq_iff m off (m'.bytes off' count)
  rw [length_bytes] at hBytes
  rw [memcmp_eq_zero, hBytes]
  have hByte : ∀ i < count, (m'.bytes off' count).getD i 0 = m' ((off' + i : Nat) : Int) := by
    intro i hi
    unfold Area.bytes
    rw [getD_eq_getElem?_getD, Memory.getElem?_slice, if_pos hi, Option.getD_some]
  constructor
  · intro hAll i hi
    rw [hByte i hi, Int.natCast_add, Int.natCast_add]
    exact hAll i hi
  · intro hAll i hi
    have hAt := hAll i hi
    rw [hByte i hi, Int.natCast_add, Int.natCast_add] at hAt
    exact hAt

theorem bytes_areaOf (bytes : List UInt8) :
    (areaOf bytes).bytes 0 bytes.length = bytes := by
  rw [bytes_eq_iff]
  intro i _
  rw [Nat.zero_add]
  rfl

theorem rsaVerifyPadding_iff
    {msg : Area} {n : Nat} (hPrefix : algo.derPrefix.length = algo.derLen) (hSize : n < 2 ^ 32) :
    ((rsaVerifyPadding msg ((n + 1 + algo.derLen + 3 : Nat) : Int) algo).1 = true ↔
      Parts algo (n + 1) msg) ∧
      ∀ i ∈ (rsaVerifyPadding msg ((n + 1 + algo.derLen + 3 : Nat) : Int) algo).2,
        0 ≤ i ∧ i < ((n + 1 + algo.derLen + 3 : Nat) : Int) := by
  have hFf : ((n + 1 + algo.derLen + 3 : Nat) : Int) - algo.derLen - 3 = ((n + 1 : Nat) : Int) := by
    omega
  have hCount : sizeT (((n + 1 : Nat) : Int) - 1) = n := by
    unfold sizeT
    omega
  unfold rsaVerifyPadding
  dsimp only
  rw [hFf, hCount]
  have hFfRead := memcmp_reads_le msg msg 2 3 n
  have hDerRead := memcmp_reads_le msg (areaOf algo.derPrefix)
    (3 + ((n + 1 : Nat) : Int)) 0 algo.derLen
  refine ⟨?_, fun i hi => ?_⟩
  · have hDer := @memcmp_bytes msg (areaOf algo.derPrefix) (3 + (n + 1)) 0 algo.derPrefix.length
    rw [bytes_areaOf, hPrefix, Int.natCast_add] at hDer
    rw [decide_eq_true_iff]
    constructor
    · rintro ⟨hFirst, hSecond, hThird, hSame, hZero, hName⟩
      refine ⟨hFirst, hSecond, padding_eq_iff.mpr ⟨hThird, hSame⟩, ?_, hDer.mp hName⟩
      rw [Int.natCast_add]
      exact hZero
    · rintro ⟨hFirst, hSecond, hPadding, hZero, hName⟩
      have hFfs := padding_eq_iff.mp hPadding
      rw [Int.natCast_add] at hZero
      exact ⟨hFirst, hSecond, hFfs.1, hFfs.2, hZero, hDer.mpr hName⟩
  · simp only [mem_append, mem_cons, mem_readFrom, not_mem_nil, or_false] at hi
    omega

/- What the function does of a block that it has. -/
theorem rsaVerifyKey_run
    {modExp : ModExp} {prop : KeyProp} {sig : List UInt8} {hash : Area} {keyLen : Nat}
    (hSig : (sig.length : Int) = prop.numBits.tdiv 8) (hMax : prop.numBits ≤ RSA_MAX_SIG_BITS)
    (hCrypto : 256 ≤ keyLen ∧ keyLen ≤ 512) (hChecksum : algo.checksumLen ≤ 256)
    (hRet : (modExp sig prop).1 = 0) :
    rsaVerifyKey (some modExp) prop sig hash keyLen algo =
      let buf := (modExp sig prop).2
      let padLen := keyLen - algo.checksumLen
      let padding := rsaVerifyPadding buf padLen algo
      if padding.1 then
        let cmp := memcmp buf hash padLen 0 (((sig.length : Int) - (padLen : Int)) % 2 ^ 32).toNat
        (if cmp.1 ≠ 0 then -EACCES else 0, padding.2 ++ readFrom padLen cmp.2)
      else (-EINVAL, padding.2) := by
  have hSmall : sig.length ≤ 512 := by
    have hDiv := Int.tdiv_le_tdiv (by decide : (0 : Int) < 8) hMax
    unfold RSA_MAX_SIG_BITS at hDiv
    have hBound : (((4096 : Nat) : Int)).tdiv 8 = 512 := by decide
    omega
  have hPad : toInt (keyLen + 2 ^ 32 - algo.checksumLen) =
      ((keyLen - algo.checksumLen : Nat) : Int) := by
    unfold toInt
    split <;> omega
  unfold rsaVerifyKey RSA_MAX_SIG_BITS
  dsimp only
  rw [if_neg (by rw [← hSig]; omega), if_neg (by omega),
    if_neg (by rw [hRet]; exact fun hNot => hNot rfl), hPad]
  cases (rsaVerifyPadding (modExp sig prop).2 ((keyLen - algo.checksumLen : Nat) : Int) algo).1
  · rfl
  · rfl

/- A signature of another length than the key's is refused. -/
theorem rsaVerifyKey_other_length (device : Option ModExp) {prop : KeyProp} {sig : List UInt8}
    (hash : Area) (keyLen : Nat) (hLength : sig.length < 2 ^ 32) (hBits : -2 ^ 31 ≤ prop.numBits)
    (hMax : prop.numBits ≤ RSA_MAX_SIG_BITS) (hSig : (sig.length : Int) ≠ prop.numBits.tdiv 8) :
    rsaVerifyKey device prop sig hash keyLen algo = (-EINVAL, []) := by
  have hUpper := Int.tdiv_le_tdiv (by decide : (0 : Int) < 8) hMax
  have hLower := Int.tdiv_le_tdiv (by decide : (0 : Int) < 8) hBits
  have hMost : ((RSA_MAX_SIG_BITS : Nat) : Int).tdiv 8 = 512 := by decide
  have hLeast : (-2 ^ 31 : Int).tdiv 8 = -2 ^ 28 := by decide
  unfold rsaVerifyKey
  by_cases hMod : (sig.length : Int) ≠ prop.numBits.tdiv 8 % 2 ^ 32
  · rw [if_pos hMod]
  · rw [if_neg hMod, if_pos]
    unfold RSA_MAX_SIG_BITS
    omega

theorem rsaVerifyKey_no_block
    {device : Option ModExp} {prop : KeyProp} {sig : List UInt8} (hash : Area) (keyLen : Nat)
    (hNone : ∀ modExp, device = some modExp → (modExp sig prop).1 ≠ 0) :
    (rsaVerifyKey device prop sig hash keyLen algo).1 ≠ 0 ∧
      (rsaVerifyKey device prop sig hash keyLen algo).2 = [] := by
  unfold rsaVerifyKey
  dsimp only
  split_ifs
  · exact ⟨by decide, rfl⟩
  · exact ⟨by decide, rfl⟩
  · cases device with
    | none => exact ⟨show -EINVAL ≠ 0 by decide, rfl⟩
    | some modExp =>
      have hRet := hNone modExp rfl
      dsimp only
      rw [if_pos hRet]
      exact ⟨hRet, rfl⟩

/- A block of the right length, with the parts that it has. -/
theorem isPkcs1_iff {hash m : Area} {n : Nat} (hPrefix : algo.derPrefix.length = algo.derLen) :
    IsPkcs1 algo hash (2 + (n + 1 + (1 + (algo.derLen + algo.checksumLen)))) m ↔
      Parts algo (n + 1) m ∧
        m.bytes (3 + (n + 1) + algo.derLen) algo.checksumLen = hash.bytes 0 algo.checksumLen := by
  rw [← block_eq_iff hPrefix]
  constructor
  · rintro ⟨k, -, hBlock⟩
    have hLength := congrArg List.length hBlock
    simp only [length_bytes, length_append, length_cons, length_nil,
      length_replicate, hPrefix] at hLength
    rw [show n + 1 = k by omega] at hBlock ⊢
    exact hBlock
  · exact fun hBlock => ⟨n + 1, by omega, hBlock⟩

/- With the length of the algorithm the function is exact. -/
theorem rsaVerifyKey_of_keyLen
    {prop : KeyProp} (hAlgo : algo ∈ checksumAlgos) (hCrypto : crypto ∈ cryptoAlgos)
    (hMax : prop.numBits ≤ RSA_MAX_SIG_BITS) (hBits : (crypto.keyLen : Int) = prop.numBits.tdiv 8) :
    VerifiesExactly prop crypto.keyLen crypto.keyLen algo := by
  rcases checksumAlgos_fit hAlgo hCrypto with ⟨hPrefix, hLens, hKeyLen⟩
  rcases Nat.exists_eq_add_of_le
    (show algo.checksumLen + algo.derLen + 4 ≤ crypto.keyLen by
      omega) with ⟨n, hn⟩
  intro device sig hash hSig
  by_cases hBlock : ∃ modExp, device = some modExp ∧ (modExp sig prop).1 = 0
  · rcases hBlock with ⟨modExp, rfl, hRet⟩
    have hSigBits : (sig.length : Int) = prop.numBits.tdiv 8 := by
      rw [hSig]
      exact hBits
    have hRun := @rsaVerifyKey_run algo modExp prop sig hash
      crypto.keyLen hSigBits hMax hKeyLen (by omega) hRet
    have hPad : crypto.keyLen - algo.checksumLen = n + 1 + algo.derLen + 3 := by omega
    have hCount : (((sig.length : Int) -
        ((n + 1 + algo.derLen + 3 : Nat) : Int)) % 2 ^ 32).toNat = algo.checksumLen := by
      omega
    dsimp only at hRun
    rw [hPad, hCount] at hRun
    have hPadding := @rsaVerifyPadding_iff algo (modExp sig prop).2 n hPrefix (by omega)
    have hHash := @memcmp_bytes (modExp sig prop).2 hash
      (n + 1 + algo.derLen + 3) 0 algo.checksumLen
    rw [Int.natCast_zero] at hHash
    have hHashReads := memcmp_reads_le (modExp sig prop).2 hash
      ((n + 1 + algo.derLen + 3 : Nat) : Int) 0 algo.checksumLen
    have hSpec := @isPkcs1_iff algo hash (modExp sig prop).2 n hPrefix
    rw [show 2 + (n + 1 + (1 + (algo.derLen + algo.checksumLen))) = crypto.keyLen by omega,
      show 3 + (n + 1) + algo.derLen = n + 1 + algo.derLen + 3 by omega] at hSpec
    rw [hRun]
    by_cases hPass : (rsaVerifyPadding (modExp sig prop).2
        ((n + 1 + algo.derLen + 3 : Nat) : Int) algo).1 = true
    · rw [if_pos hPass]
      refine ⟨⟨fun hZero => ?_, ?_⟩, fun i hi => ?_⟩
      · refine ⟨hBits, modExp, rfl, hRet, hSpec.mpr ⟨hPadding.1.mp hPass, hHash.mp ?_⟩⟩
        by_contra hDiffer
        rw [if_pos hDiffer] at hZero
        cases hZero
      · rintro ⟨-, modExp', hSome, -, hBlock⟩
        cases hSome
        rw [if_neg (not_not.mpr (hHash.mpr (hSpec.mp hBlock).2))]
      · rcases mem_append.mp hi with hHead | hTail
        · have hIn := hPadding.2 i hHead
          omega
        · rw [mem_readFrom] at hTail
          omega
    · rw [if_neg hPass]
      refine ⟨⟨nofun, ?_⟩, fun i hi => ?_⟩
      · rintro ⟨-, modExp', hSome, -, hBlock⟩
        cases hSome
        exact absurd (hPadding.1.mpr (hSpec.mp hBlock).1) hPass
      · have hIn := hPadding.2 i hi
        omega
  · have hRefused := @rsaVerifyKey_no_block algo device prop sig
      hash crypto.keyLen (fun modExp hSome hRet => hBlock ⟨modExp, hSome, hRet⟩)
    refine ⟨⟨fun hZero => absurd hZero hRefused.1, ?_⟩, ?_⟩
    · rintro ⟨-, modExp, hSome, hRet, -⟩
      exact absurd ⟨modExp, hSome, hRet⟩ hBlock
    · rw [hRefused.2]
      exact nofun

----
-- Keys of Another Length
----

/- The block with so many bytes of `0xff` for a zero hash. -/
def blockOf (algo : ChecksumAlgo) (n : Nat) : List UInt8 :=
  [0, 1] ++ (List.replicate n 0xff ++
    ([0] ++ (algo.derPrefix ++ List.replicate algo.checksumLen 0)))

/- A device whose block starts well and never ends. -/
def endless : ModExp := fun _ _ =>
  (0, fun i => if i = 0 then 0 else if i = 1 then 1 else 0xff)

theorem Parts.ff {n i : Nat} (hParts : Parts algo n m) (hi : i < n) :
    m ((2 + i : Nat) : Int) = 0xff := by
  have hBytes := @bytes_eq_iff m 2 (List.replicate n 0xff)
  rw [length_replicate] at hBytes
  rw [hBytes.mp hParts.padding i hi, getD_replicate _ hi]

/- Two readings of one block have the same padding. -/
theorem Parts.unique {n k : Nat} (hParts : Parts algo n m) (hParts' : Parts algo k m) :
    n = k := by
  rcases Nat.lt_trichotomy n k with hLt | hEq | hLt
  · have hFf := hParts'.ff hLt
    rw [hParts.zero] at hFf
    exact absurd hFf (by decide)
  · exact hEq
  · have hFf := hParts.ff hLt
    rw [hParts'.zero] at hFf
    exact absurd hFf (by decide)

theorem isPkcs1_blockOf {n : Nat} (hPrefix : algo.derPrefix.length = algo.derLen) :
    IsPkcs1 algo (fun _ => 0) (2 + (n + 1 + (1 + (algo.derLen + algo.checksumLen))))
      (areaOf (blockOf algo (n + 1))) := by
  have hLength : (blockOf algo (n + 1)).length =
      2 + (n + 1 + (1 + (algo.derLen + algo.checksumLen))) := by
    unfold blockOf
    simp only [length_append, length_cons, length_nil, length_replicate, hPrefix]
  have hBytes := bytes_areaOf (blockOf algo (n + 1))
  have hHash := @bytes_eq_iff (fun _ => 0) 0 (List.replicate algo.checksumLen 0)
  rw [length_replicate] at hHash
  have hZero := hHash.mpr fun i hi => (getD_replicate _ hi).symm
  refine ⟨n + 1, by omega, ?_⟩
  rw [hZero, ← hLength, hBytes]
  rfl

section

variable {prop : KeyProp} {sig : List UInt8} {keyLen f : Nat}

theorem rsaVerifyKey_other_block {n : Nat}
    (hPrefix : algo.derPrefix.length = algo.derLen) (hLens : algo.checksumLen + algo.derLen ≤ 51)
    (hKeyLen : 256 ≤ keyLen ∧ keyLen ≤ 512) (hf : keyLen = algo.checksumLen + algo.derLen + 4 + f)
    (hMax : prop.numBits ≤ RSA_MAX_SIG_BITS) (hBits : (sig.length : Int) = prop.numBits.tdiv 8)
    (hOther : sig.length ≠ keyLen)
    (hLength : sig.length = 2 + (n + 1 + (1 + (algo.derLen + algo.checksumLen)))) :
    ¬ VerifiesExactly prop sig.length keyLen algo := by
  intro hExact
  have hBlock := @isPkcs1_blockOf algo n hPrefix
  have hParts := ((@isPkcs1_iff algo _ _ n hPrefix).mp hBlock).1
  have hAccept := (hExact (some fun _ _ => (0, areaOf (blockOf algo (n + 1)))) sig
    (fun _ => 0) rfl).1.mpr
    ⟨hBits, _, rfl, rfl, hLength ▸ hBlock⟩
  have hRun := @rsaVerifyKey_run algo (fun _ _ => (0, areaOf (blockOf algo (n + 1)))) prop sig
    (fun _ => 0) keyLen hBits hMax hKeyLen (by omega) rfl
  have hPadding := @rsaVerifyPadding_iff algo (areaOf (blockOf algo (n + 1))) f hPrefix (by omega)
  rw [show keyLen - algo.checksumLen = f + 1 + algo.derLen + 3 by omega] at hRun
  rw [hRun] at hAccept
  by_cases hPass : (rsaVerifyPadding (areaOf (blockOf algo (n + 1)))
      ((f + 1 + algo.derLen + 3 : Nat) : Int) algo).1 = true
  · have hSame := hParts.unique (hPadding.1.mp hPass)
    omega
  · rw [if_neg hPass] at hAccept
    cases hAccept

theorem rsaVerifyKey_short_block
    (hLens : algo.checksumLen + algo.derLen ≤ 51) (hKeyLen : 256 ≤ keyLen ∧ keyLen ≤ 512)
    (hMax : prop.numBits ≤ RSA_MAX_SIG_BITS) (hBits : (sig.length : Int) = prop.numBits.tdiv 8)
    (hShort : sig.length < algo.checksumLen + algo.derLen + 4) :
    ¬ VerifiesExactly prop sig.length keyLen algo := by
  intro hExact
  have hReads := (hExact (some endless) sig (fun _ => 0) rfl).2
  have hRun := @rsaVerifyKey_run algo endless prop sig
    (fun _ => 0) keyLen hBits hMax hKeyLen (by omega) rfl
  dsimp only at hRun
  have hPast : (60 : Int) ∈ (rsaVerifyPadding (endless sig prop).2
      ((keyLen - algo.checksumLen : Nat) : Int) algo).2 := by
    have hSame : ∀ count, (memcmp (endless sig prop).2 (endless sig prop).2 2 3 count).1 = 0 := by
      intro count
      rw [memcmp_eq_zero]
      intro i _
      unfold endless
      dsimp only
      rw [if_neg (by omega), if_neg (by omega), if_neg (by omega), if_neg (by omega)]
    unfold rsaVerifyPadding
    dsimp only
    rw [memcmp_reads (hSame _)]
    simp only [mem_append, mem_readFrom]
    refine Or.inl (Or.inl (Or.inr ?_))
    unfold sizeT
    omega
  have hRead : (60 : Int) ∈ (rsaVerifyKey (some endless) prop sig (fun _ => 0) keyLen algo).2 := by
    rw [hRun]
    split
    · exact mem_append_left _ hPast
    · exact hPast
  have hIn := hReads 60 hRead
  omega

end

/-
  For the algorithms of the tables, a key is verified exactly
  where its length is not that of the signature or is the one
  that the algorithm has.
-/
theorem rsa_verify_key_exact (prop : KeyProp) (sigLen : Nat) (hAlgo : algo ∈ checksumAlgos)
    (hCrypto : crypto ∈ cryptoAlgos) (hSig : sigLen < 2 ^ 32) (hBits : -2 ^ 31 ≤ prop.numBits)
    (hMax : prop.numBits ≤ RSA_MAX_SIG_BITS) :
    VerifiesExactly prop sigLen crypto.keyLen algo ↔
      (sigLen : Int) ≠ prop.numBits.tdiv 8 ∨ sigLen = crypto.keyLen := by
  rcases checksumAlgos_fit hAlgo hCrypto with ⟨hPrefix, hLens, hKeyLen⟩
  constructor
  · intro hExact
    by_contra hNot
    push Not at hNot
    rcases hNot with ⟨hEq, hOther⟩
    have hSigLen := length_replicate (n := sigLen)
      (a := (0 : UInt8))
    rcases Nat.exists_eq_add_of_le
      (show algo.checksumLen + algo.derLen + 4 ≤ crypto.keyLen by omega) with ⟨f, hf⟩
    rw [← hSigLen] at hExact hEq hOther
    by_cases hShort : sigLen < algo.checksumLen + algo.derLen + 4
    · exact rsaVerifyKey_short_block hLens hKeyLen hMax hEq (by omega) hExact
    · rcases Nat.exists_eq_add_of_le (Nat.not_lt.mp hShort) with ⟨n, hn⟩
      exact rsaVerifyKey_other_block hPrefix hLens hKeyLen hf
        hMax hEq hOther (by omega : _ = 2 + (n + 1 + (1 + (algo.derLen + algo.checksumLen))))
        hExact
  · intro hWhen
    by_cases hEq : (sigLen : Int) = prop.numBits.tdiv 8
    · rcases hWhen with hNe | rfl
      · exact absurd hEq hNe
      · exact rsaVerifyKey_of_keyLen hAlgo hCrypto hMax hEq
    · intro device sig hash hLength
      subst hLength
      rw [rsaVerifyKey_other_length device hash crypto.keyLen hSig hBits hMax hEq]
      refine ⟨⟨nofun, fun hSpec => absurd hSpec.1 hEq⟩, nofun⟩

/- The properties of a key of so many bits. -/
def keyOfBits (numBits : Int) : KeyProp where
  rr := none
  modulus := none
  publicExponent := none
  n0inv := 1
  numBits
  expLen := 8

/- `sha256`, the second entry of the table. -/
def sha256 : ChecksumAlgo where
  name := [0x73, 0x68, 0x61, 0x32, 0x35, 0x36]
  checksumLen := SHA256_SUM_LEN
  derLen := SHA256_DER_LEN
  derPrefix := sha256DerPrefix

theorem rsa_verify_key_exact_2048 : VerifiesExactly (keyOfBits 2048) 256 RSA2048_BYTES sha256 :=
  (@rsa_verify_key_exact sha256
    { name := [0x72, 0x73, 0x61, 0x32, 0x30, 0x34, 0x38]
      keyLen := RSA2048_BYTES }
    (keyOfBits 2048) 256 (by decide) (by decide) (by decide)
    (by decide) (by decide)).mpr (Or.inr (by decide))

/-
  With a key of 3840 bits and `rsa4096` the padding takes the
  whole block, and no byte of the hash is compared.
-/
theorem rsa_verify_key_other_length :
    ¬ VerifiesExactly (keyOfBits 3840) 480 RSA4096_BYTES sha256 := by
  have hLength := length_replicate (n := 480)
    (a := (0 : UInt8))
  have hBlock := @rsaVerifyKey_other_block sha256
    (keyOfBits 3840) (List.replicate 480 0) RSA4096_BYTES 457 425
    (by decide) (by decide) (by decide) (by decide) (by decide)
    (by rw [hLength]; decide) (by rw [hLength]; decide) (by rw [hLength]; decide)
  rw [hLength] at hBlock
  exact hBlock

end Uboot.Rsa
