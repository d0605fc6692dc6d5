import BootFirmware.Lib.Faults
import BootFirmware.Tfa.Auth.Model
import Mathlib.Algebra.Group.Nat.Defs

/-
  The rollback counter of a certificate.

  The parser returns the octets of an extension and their
  number, and the decoder of the integer in them looks at the
  octets only.  So it may read past the end, and it takes an
  integer without content octets for 0.

  Key definitions include:
    * `derIntegerWithin`, the decoder with checked reads
    * `DerCounter`, what an encoded counter is
    * `CounterChecked`, `Present` and `Settled`
    * `KeepsCounter`, what the platform's hooks are for

  The main result is `auth_nvctr_counter`.
-/

----
-- Checked Reads
----

namespace Tfa.Auth

open Faults List

/- A read that has to lie in the buffer. -/
def Data.read (d : Data) (i : Nat) : Except Unit UInt8 :=
  if i < d.len then .ok (d.byte i) else .error ()

/- The next octet of the counter. -/
def nextOctet (ctr : BitVec 32) (b : UInt8) : BitVec 32 :=
  ctr <<< 8 ||| b.toBitVec.setWidth 32

/- `derInteger`, which fails where it leaves the buffer. -/
def derIntegerWithin (d : Data) : Except Unit (Option (BitVec 32)) := do
  let tag ← d.read 0
  if tag ≠ ASN1_INTEGER then return none
  else
    let len ← d.read 1
    if len &&& 0x80 ≠ 0 ∨ 4 < (len &&& 0x7f).toNat then
      return none
    else
      let first ← d.read 2
      if first &&& 0x80 ≠ 0 then return none
      else
        let ctr ←
          (List.range (len &&& 0x7f).toNat).foldlM
            (fun ctr i => do
              let b ← d.read (2 + i)
              return nextOctet ctr b)
            0#32
        return some ctr

section Reads

variable {d : Data}

theorem read_of_lt {i : Nat} (hIn : i < d.len) :
    d.read i = .ok (d.byte i) :=
  if_pos hIn

theorem runs_read_bind_iff {α : Type} {i : Nat} {f : UInt8 → Except Unit α} :
    Runs (d.read i >>= f) ↔ i < d.len ∧ Runs (f (d.byte i)) :=
  runs_guard_iff _ _ f

/- The loop reads one octet after the other. -/
theorem foldlM_read (offsets : List Nat) (ctr : BitVec 32) :
    offsets.foldlM
        (fun ctr i => do
          let b ← d.read (2 + i)
          return nextOctet ctr b)
        ctr =
      if ∀ i ∈ offsets, 2 + i < d.len then
        .ok (offsets.foldl (fun ctr i => nextOctet ctr (d.byte (2 + i))) ctr)
      else
        .error () := by
  induction offsets generalizing ctr with
  | nil => exact (if_pos nofun).symm
  | cons i rest ih =>
    rw [foldlM_cons]
    by_cases hIn : 2 + i < d.len
    · rw [read_of_lt hIn, ok_bind]
      refine (ih _).trans ?_
      refine if_congr ?_ rfl rfl
      rw [forall_mem_cons, and_iff_right hIn]
    · rw [if_neg fun h => hIn (h i mem_cons_self)]
      unfold Data.read
      rw [if_neg hIn]
      rfl

end Reads

----
-- Encoded Counters
----

/- The number that octets give, the first one the highest. -/
def beValue (content : List UInt8) : Nat :=
  content.foldl (fun v b => v * 256 + b.toNat) 0

/- A first octet that only pads. -/
def Padded : List UInt8 → Prop
  | first :: second :: _ => first.toNat = 0 ∧ second.toNat < 128
  | _ => False

/-
  Octets that start with a DER integer of one to four content
  octets, all of them there, that is not negative.  Whether
  it must not be padded, as DER asks for, is `minimal`.
-/
def DerCounter (minimal : Bool)
    (v : Nat) : List UInt8 → Prop
  | tag :: len :: rest =>
    tag = ASN1_INTEGER ∧ 1 ≤ len.toNat ∧ len.toNat ≤ 4 ∧ len.toNat ≤ rest.length ∧
      (rest.headD 0).toNat < 128 ∧ v = beValue (rest.take len.toNat) ∧
      (minimal = true → ¬ Padded (rest.take len.toNat))
  | _ => False

/- The content octets, wherever they are. -/
def Data.content (d : Data) : List UInt8 :=
  (List.range (d.byte 1).toNat).map fun i => d.byte (2 + i)

/- What the decoder looks for. -/
def Data.Encoded (d : Data) : Prop :=
  d.byte 0 = ASN1_INTEGER ∧ (d.byte 1).toNat ≤ 4 ∧ (d.byte 2).toNat < 128

/- The octets that decide are in the buffer. -/
def Present (d : Data) : Prop :=
  0 < d.len ∧ (d.byte 0 = ASN1_INTEGER → 1 < d.len ∧ ((d.byte 1).toNat ≤ 4 →
          2 < d.len ∧ ((d.byte 2).toNat < 128 → 2 + (d.byte 1).toNat ≤ d.len)))

section Decoding

variable {d : Data}

theorem and_high_eq_zero (b : UInt8) : b &&& 0x80 = 0 ↔ b.toNat < 128 := by
  have hAll : ∀ n < 256, n &&& 128 = 0 ↔ n < 128 := by decide +kernel
  rw [← UInt8.toNat_inj, UInt8.toNat_and]
  exact hAll b.toNat b.toNat_lt

theorem toNat_and_low (b : UInt8) : (b &&& 0x7f).toNat = b.toNat % 128 := by
  rw [UInt8.toNat_and]
  exact Nat.and_two_pow_sub_one_eq_mod b.toNat 7

theorem length_octet (b : UInt8) : (b &&& 0x80 ≠ 0 ∨ 4 < (b &&& 0x7f).toNat) ↔ 4 < b.toNat := by
  rw [ne_eq, and_high_eq_zero, toNat_and_low]
  omega

theorem toNat_nextOctet {ctr : BitVec 32} (b : UInt8) (hSmall : ctr.toNat < 2 ^ 24) :
    (nextOctet ctr b).toNat = ctr.toNat * 256 + b.toNat := by
  have hByte := b.toNat_lt
  unfold nextOctet
  rw [BitVec.toNat_or, BitVec.toNat_shiftLeft, BitVec.toNat_setWidth, UInt8.toNat_toBitVec,
    Nat.mod_eq_of_lt (by omega : b.toNat < 2 ^ 32), Nat.shiftLeft_eq, Nat.mod_eq_of_lt (by omega),
    Nat.mul_comm, ← Nat.two_pow_add_eq_or_of_lt hByte ctr.toNat]

/- Up to four octets fit into the counter. -/
theorem toNat_foldl_nextOctet (content : List UInt8) (ctr : BitVec 32) {j : Nat}
    (hShort : j + content.length ≤ 4) (hCtr : ctr.toNat < 256 ^ j) :
    (content.foldl nextOctet ctr).toNat = content.foldl (fun v b => v * 256 + b.toNat)
        ctr.toNat := by
  induction content generalizing ctr j with
  | nil => rfl
  | cons b rest ih =>
    rw [length_cons] at hShort
    have hSmall : ctr.toNat < 2 ^ 24 :=
      Nat.lt_of_lt_of_le hCtr (Nat.pow_le_pow_right (by decide) (by omega : j ≤ 3))
    have hByte := b.toNat_lt
    have hNext : (nextOctet ctr b).toNat < 256 ^ (j + 1) := by
      rw [toNat_nextOctet b hSmall, Nat.pow_succ]
      omega
    rw [foldl_cons, foldl_cons, ih (nextOctet ctr b) (by omega) hNext, toNat_nextOctet b hSmall]

theorem length_octet_ok {b : UInt8} (hLen : b.toNat ≤ 4) :
    ¬ (b &&& 0x80 ≠ 0 ∨ 4 < (b &&& 0x7f).toNat) ∧ (b &&& 0x7f).toNat = b.toNat := by
  rw [length_octet, toNat_and_low]
  omega

/- The counter that the loop leaves. -/
def Data.counter (d : Data) : BitVec 32 :=
  d.content.foldl nextOctet 0#32

/- The decoder finds a counter where one is encoded. -/
theorem derInteger_eq_some (hEncoded : d.Encoded) :
    derInteger d = some d.counter := by
  rcases hEncoded with ⟨hTag, hLen, hSign⟩
  rcases length_octet_ok hLen with ⟨hTest, hLow⟩
  unfold derInteger
  rw [if_neg (not_not.mpr hTag), if_neg hTest,
    if_neg (not_not.mpr ((and_high_eq_zero _).mpr hSign)), hLow,
    Data.counter, Data.content, foldl_map]
  rfl

theorem derInteger_eq_none (hNot : ¬ d.Encoded) :
    derInteger d = none := by
  unfold derInteger
  by_cases hTag : d.byte 0 ≠ ASN1_INTEGER
  · exact if_pos hTag
  rw [if_neg hTag]
  by_cases hLen : d.byte 1 &&& 0x80 ≠ 0 ∨ 4 < (d.byte 1 &&& 0x7f).toNat
  · exact if_pos hLen
  rw [if_neg hLen]
  refine if_pos fun hSign => hNot ⟨not_not.mp hTag, ?_, (and_high_eq_zero _).mp hSign⟩
  rw [length_octet] at hLen
  omega

/- The decoder reads what has to be present, and no more. -/
theorem runs_derIntegerWithin_iff : Runs (derIntegerWithin d) ↔ Present d := by
  unfold derIntegerWithin Present
  rw [runs_read_bind_iff]
  refine and_congr_right fun _ => ?_
  by_cases hTag : d.byte 0 ≠ ASN1_INTEGER
  · rw [if_pos hTag]
    exact iff_of_true (runs_ok _) fun h => absurd h hTag
  rw [if_neg hTag, imp_iff_right (not_not.mp hTag)]
  rw [runs_read_bind_iff]
  refine and_congr_right fun _ => ?_
  by_cases hLen : (d.byte 1).toNat ≤ 4
  swap
  · rw [if_pos ((length_octet _).mpr (by omega))]
    exact iff_of_true (runs_ok _) fun h => absurd h hLen
  rcases length_octet_ok hLen with ⟨hTest, hLow⟩
  rw [if_neg hTest, imp_iff_right hLen, hLow]
  rw [runs_read_bind_iff]
  refine and_congr_right fun _ => ?_
  by_cases hSign : (d.byte 2).toNat < 128
  swap
  · rw [if_pos fun h => hSign ((and_high_eq_zero _).mp h)]
    exact iff_of_true (runs_ok _) fun h => absurd h hSign
  rw [if_neg (not_not.mpr ((and_high_eq_zero _).mpr hSign)), imp_iff_right hSign, foldlM_read]
  have hRange :
      (∀ i ∈ List.range (d.byte 1).toNat, 2 + i < d.len) ↔ 2 + (d.byte 1).toNat ≤ d.len := by
    constructor
    · intro hAll
      by_contra hShort
      have hLast := hAll ((d.byte 1).toNat - 1) (mem_range.mpr (by omega))
      omega
    · intro h i hi
      have hLt := mem_range.mp hi
      omega
  rw [if_congr hRange rfl rfl]
  by_cases hAll : 2 + (d.byte 1).toNat ≤ d.len
  · rw [if_pos hAll, ok_bind]
    exact iff_of_true (runs_ok _) hAll
  · rw [if_neg hAll]
    exact iff_of_false (not_runs_error ()) hAll

/- The octets after the first two. -/
theorem bytes_eq_cons {n : Nat} (hLen : d.len = n + 2) :
    d.bytes = d.byte 0 :: d.byte 1 :: (List.range n).map fun i => d.byte (2 + i) := by
  unfold Data.bytes
  rw [hLen, range_succ_eq_map, range_succ_eq_map]
  simp only [map_cons, map_map, List.cons.injEq, true_and]
  refine map_congr_left fun i _ => congrArg d.byte ?_
  change i + 1 + 1 = 2 + i
  omega

/- An encoded counter, in terms of the octets. -/
theorem derCounter_iff {minimal : Bool} {v : Nat} (hPresent : Present d) :
    DerCounter minimal v d.bytes ↔ d.Encoded ∧ 1 ≤ (d.byte 1).toNat ∧ v = beValue d.content ∧
        (minimal = true → ¬ Padded d.content) := by
  rcases hPresent with ⟨hFirst, hPresent⟩
  by_cases hTag : d.byte 0 = ASN1_INTEGER
  swap
  · refine iff_of_false ?_ fun h => hTag h.1.1
    intro hDer
    cases hLen : d.len with
    | zero => omega
    | succ n =>
      cases n with
      | zero =>
        unfold Data.bytes at hDer
        rw [hLen] at hDer
        exact hDer
      | succ n =>
        rw [bytes_eq_cons hLen] at hDer
        exact hTag hDer.1
  rcases hPresent hTag with ⟨hSecond, hPresent⟩
  rcases Nat.exists_eq_add_of_le' (by omega : 2 ≤ d.len) with ⟨n, hLen⟩
  rw [bytes_eq_cons hLen]
  have hTake :
      (d.byte 1).toNat ≤ n →
        ((List.range n).map fun i => d.byte (2 + i)).take (d.byte 1).toNat = d.content := by
    intro hFits
    rw [← map_take, take_range, Nat.min_eq_left hFits]
    rfl
  have hHead : 1 ≤ n → (((List.range n).map fun i => d.byte (2 + i)).headD 0) = d.byte 2 := by
    intro hPos
    rcases Nat.exists_eq_add_of_le' hPos with ⟨m, rfl⟩
    rw [range_succ_eq_map]
    rfl
  constructor
  · rintro ⟨-, hPos, hShort, hFits, hSign, hValue, hMinimal⟩
    rw [length_map, length_range] at hFits
    rw [hHead (by omega)] at hSign
    rw [hTake hFits] at hValue hMinimal
    exact ⟨⟨hTag, hShort, hSign⟩, hPos, hValue, hMinimal⟩
  · rintro ⟨⟨-, hShort, hSign⟩, hPos, hValue, hMinimal⟩
    rcases hPresent hShort with ⟨hThird, hPresent⟩
    refine ⟨hTag, hPos, hShort, ?_, ?_, ?_, ?_⟩
    · rw [length_map, length_range]
      omega
    · rwa [hHead (by omega)]
    · rwa [hTake (by omega)]
    · rwa [hTake (by omega)]

theorem toNat_counter (hEncoded : d.Encoded) :
    d.counter.toNat = beValue d.content := by
  refine @toNat_foldl_nextOctet d.content 0#32 0 ?_ (by decide)
  rw [Data.content, length_map, length_range, Nat.zero_add]
  exact hEncoded.2.1

end Decoding

----
-- Rollback Protection
----

section Counters

variable {P : Type} (hooks : Hooks P) (value : P → BitVec 32)
  (certNvCtr platNvCtr : AuthParamTypeDesc)

/-
  What the check of a counter is for: its reads are in the
  extension, it succeeds on an encoded counter that is not
  behind the platform's, and that one then is their maximum.
-/
structure CounterChecked
    (minimal : Bool) (imgDesc : AuthImgDesc) (img d : Data)
    (p : P) : Prop where
  reads : Runs (derIntegerWithin d)
  accepts :
    (authNvctr hooks certNvCtr platNvCtr imgDesc img p).1 = .ok () ↔
      ∃ v, DerCounter minimal v d.bytes ∧ (value p).toNat ≤ v
  raises :
    (authNvctr hooks certNvCtr platNvCtr imgDesc img p).1 = .ok () →
      ∃ v, DerCounter minimal v d.bytes ∧
        (value (authNvctr hooks certNvCtr platNvCtr imgDesc img p).2).toNat = max (value p).toNat v

/-
  The octets that decide are there.  An integer without
  content octets meets a counter that is not 0, and one that
  should not be padded is not, or is behind the counter.
-/
structure Settled
    (minimal : Bool) (counter : Nat)
    (d : Data) : Prop where
  present : Present d
  content : d.Encoded → (d.byte 1).toNat = 0 → counter ≠ 0
  padding : minimal = true → d.Encoded → Padded d.content → beValue d.content < counter

/-
  The hooks of the platform keep a counter.  Any result but
  zero means that it could not be updated.
-/
structure KeepsCounter : Prop where
  get : ∀ p, hooks.platGetNvCtr p platNvCtr.cookie = (0, value p)
  set :
    ∀ p imgDesc ctr, value (hooks.platSetNvCtr2 p platNvCtr.cookie imgDesc ctr).2 =
        if (hooks.platSetNvCtr2 p platNvCtr.cookie imgDesc ctr).1 = 0 then
          ctr
        else value p

/- An image that is allowed to update the counter. -/
def Updates (imgDesc : AuthImgDesc)
    (p : P) : Prop :=
  ∀ ctr, (hooks.platSetNvCtr2 p platNvCtr.cookie imgDesc ctr).1 = 0

variable {hooks value certNvCtr platNvCtr} {imgDesc : AuthImgDesc} {img d : Data} {p : P}

section

variable (hKeeps : KeepsCounter hooks value platNvCtr)
include hKeeps

theorem nvCounters_eq (hParse : imgParserGetAuthParam hooks imgDesc.imgType certNvCtr img = .ok d) :
    nvCounters hooks certNvCtr platNvCtr imgDesc img p =
      match derInteger d with
      | none => .error (.code 1)
      | some cert => .ok (cert, value p) := by
  unfold nvCounters
  rw [hParse, ok_bind]
  cases derInteger d with
  | none => rfl
  | some cert =>
    rw [hKeeps.get]
    rfl

/- What a check does with the counter that it decodes. -/
theorem authNvctr_eq (hParse : imgParserGetAuthParam hooks imgDesc.imgType certNvCtr img = .ok d) :
    authNvctr hooks certNvCtr platNvCtr imgDesc img p =
      match derInteger d with
      | none => (.error (.code 1), p)
      | some cert =>
        if cert < value p then (.error (.code 1), p)
        else if value p < cert then
          (returnIfError (hooks.platSetNvCtr2 p platNvCtr.cookie imgDesc cert).1,
            (hooks.platSetNvCtr2 p platNvCtr.cookie imgDesc cert).2)
        else (.ok (), p) := by
  unfold authNvctr
  rw [nvCounters_eq hKeeps hParse]
  cases derInteger d with
  | none => rfl
  | some cert => rfl

/- It succeeds on a counter that is not behind. -/
theorem authNvctr_ok_iff
    (hParse : imgParserGetAuthParam hooks imgDesc.imgType certNvCtr img = .ok d)
    (hUpdates : Updates hooks platNvCtr imgDesc p) :
    (authNvctr hooks certNvCtr platNvCtr imgDesc img p).1 = .ok () ↔
      d.Encoded ∧ (value p).toNat ≤ beValue d.content := by
  rw [authNvctr_eq hKeeps hParse]
  by_cases hEncoded : d.Encoded
  swap
  · rw [derInteger_eq_none hEncoded]
    exact iff_of_false nofun fun h => hEncoded h.1
  rw [derInteger_eq_some hEncoded, and_iff_right hEncoded, ← toNat_counter hEncoded]
  dsimp only
  by_cases hBehind : d.counter < value p
  · rw [if_pos hBehind]
    refine iff_of_false nofun ?_
    exact Nat.not_le.mpr (BitVec.lt_def.mp hBehind)
  · rw [if_neg hBehind]
    have hLe := Nat.not_lt.mp (mt BitVec.lt_def.mpr hBehind)
    by_cases hAhead : value p < d.counter
    · rw [if_pos hAhead]
      rw [hUpdates]
      exact iff_of_true rfl hLe
    · rw [if_neg hAhead]
      exact iff_of_true rfl hLe

/- And then the counter is the one of the certificate. -/
theorem value_authNvctr_of_ok
    (hParse : imgParserGetAuthParam hooks imgDesc.imgType certNvCtr img = .ok d)
    (hUpdates : Updates hooks platNvCtr imgDesc p)
    (hEncoded : d.Encoded) (hLe : (value p).toNat ≤ beValue d.content) :
    (value (authNvctr hooks certNvCtr platNvCtr imgDesc img p).2).toNat = beValue d.content := by
  rw [authNvctr_eq hKeeps hParse, derInteger_eq_some hEncoded]
  rw [← toNat_counter hEncoded] at hLe ⊢
  dsimp only
  rw [if_neg fun h => Nat.not_lt.mpr hLe (BitVec.lt_def.mp h)]
  by_cases hAhead : value p < d.counter
  · rw [if_pos hAhead]
    rw [hKeeps.set, if_pos (hUpdates d.counter)]
  · rw [if_neg hAhead]
    have hNot := mt BitVec.lt_def.mpr hAhead
    dsimp only
    omega

/- Whatever the extension is, the counter does not decrease. -/
theorem value_le_authNvctr (imgDesc : AuthImgDesc) (img : Data) (p : P) :
    (value p).toNat ≤ (value (authNvctr hooks certNvCtr platNvCtr imgDesc img p).2).toNat := by
  cases hParse : imgParserGetAuthParam hooks imgDesc.imgType certNvCtr img with
  | error e =>
    unfold authNvctr nvCounters
    rw [hParse]
    exact Nat.le_refl _
  | ok d =>
    rw [authNvctr_eq hKeeps hParse]
    cases derInteger d with
    | none => exact Nat.le_refl _
    | some cert =>
      dsimp only
      by_cases hBehind : cert < value p
      · simp only [if_pos hBehind, Nat.le_refl]
      rw [if_neg hBehind]
      by_cases hAhead : value p < cert
      · rw [if_pos hAhead]
        rw [hKeeps.set]
        split_ifs
        · exact Nat.le_of_lt (BitVec.lt_def.mp hAhead)
        · exact Nat.le_refl _
      · simp only [if_neg hAhead, Nat.le_refl]

end

/- A verification is a certificate and its descriptor. -/
def verifications (hooks : Hooks P) (certNvCtr platNvCtr : AuthParamTypeDesc) (p : P)
    (certs : List (AuthImgDesc × Data)) : P :=
  certs.foldl
    (fun p c => (authNvctr hooks certNvCtr platNvCtr c.1 c.2 p).2)
    p

theorem value_le_verifications
    (hKeeps : KeepsCounter hooks value platNvCtr) (certs : List (AuthImgDesc × Data)) (p : P) :
    (value p).toNat ≤ (value (verifications hooks certNvCtr platNvCtr p certs)).toNat := by
  induction certs generalizing p with
  | nil => exact Nat.le_refl _
  | cons c rest ih => exact Nat.le_trans (value_le_authNvctr hKeeps c.1 c.2 p) (ih _)

/- Where a check that succeeds is one of a DER integer. -/
theorem accepts_iff {minimal : Bool} (hPresent : Present d) {counter : Nat} :
    (d.Encoded ∧ counter ≤ beValue d.content ↔ ∃ v, DerCounter minimal v d.bytes ∧ counter ≤ v) ↔
      (d.Encoded → (d.byte 1).toNat = 0 → counter ≠ 0) ∧
        (minimal = true → d.Encoded → Padded d.content → beValue d.content < counter) := by
  have hDer :
      (∃ v, DerCounter minimal v d.bytes ∧ counter ≤ v) ↔ d.Encoded ∧ 1 ≤ (d.byte 1).toNat ∧
          (minimal = true → ¬ Padded d.content) ∧ counter ≤ beValue d.content := by
    constructor
    · rintro ⟨v, hDer, hLe⟩
      rcases (derCounter_iff hPresent).mp hDer with ⟨hEncoded, hPos, rfl, hMinimal⟩
      exact ⟨hEncoded, hPos, hMinimal, hLe⟩
    · rintro ⟨hEncoded, hPos, hMinimal, hLe⟩
      exact ⟨_, (derCounter_iff hPresent).mpr ⟨hEncoded, hPos, rfl, hMinimal⟩, hLe⟩
  rw [hDer]
  constructor
  · intro hIff
    refine ⟨?_, ?_⟩
    · rintro hEncoded hEmpty rfl
      have hPos := (hIff.mp ⟨hEncoded, Nat.zero_le _⟩).2.1
      omega
    · intro hMinimal hEncoded hPadded
      by_contra hLe
      exact (hIff.mp ⟨hEncoded, Nat.not_lt.mp hLe⟩).2.2.1 hMinimal hPadded
  · rintro ⟨hContent, hPadding⟩
    constructor
    · rintro ⟨hEncoded, hLe⟩
      refine ⟨hEncoded, ?_, ?_, hLe⟩
      · by_contra hEmpty
        have hZero : (d.byte 1).toNat = 0 := by omega
        have hValue : beValue d.content = 0 := by
          unfold Data.content
          rw [hZero]
          rfl
        have := hContent hEncoded hZero
        omega
      · intro hMinimal hPadded
        have := hPadding hMinimal hEncoded hPadded
        omega
    · rintro ⟨hEncoded, -, -, hLe⟩
      exact ⟨hEncoded, hLe⟩

/-
  The check is what it is for exactly on the extensions that
  settle it, whether or not padding is taken to be allowed.
  And over any verifications the counter does not decrease.
-/
theorem auth_nvctr_counter (hKeeps : KeepsCounter hooks value platNvCtr) :
    (∀ minimal imgDesc img d p, imgParserGetAuthParam hooks imgDesc.imgType certNvCtr img = .ok d →
      Updates hooks platNvCtr imgDesc p →
      (CounterChecked hooks value certNvCtr platNvCtr minimal imgDesc img d p ↔
        Settled minimal (value p).toNat d)) ∧
    ∀ certs p,
      (value p).toNat ≤ (value (verifications hooks certNvCtr platNvCtr p certs)).toNat := by
  refine ⟨?_, value_le_verifications hKeeps⟩
  intro minimal imgDesc img d p hParse hUpdates
  have hOk := authNvctr_ok_iff hKeeps hParse hUpdates
  constructor
  · rintro ⟨hReads, hAccepts, -⟩
    have hPresent := runs_derIntegerWithin_iff.mp hReads
    rw [hOk] at hAccepts
    rcases (accepts_iff hPresent).mp hAccepts with ⟨hContent, hPadding⟩
    exact ⟨hPresent, hContent, hPadding⟩
  · rintro ⟨hPresent, hContent, hPadding⟩
    have hAccepts := (@accepts_iff d minimal hPresent (value p).toNat).mpr ⟨hContent, hPadding⟩
    refine ⟨runs_derIntegerWithin_iff.mpr hPresent, ?_, ?_⟩
    · rw [hOk]
      exact hAccepts
    · intro hSuccess
      rw [hOk] at hSuccess
      rcases hAccepts.mp hSuccess with ⟨v, hDer, hLe⟩
      refine ⟨v, hDer, ?_⟩
      rcases (derCounter_iff hPresent).mp hDer with ⟨hEncoded, -, rfl, -⟩
      rw [value_authNvctr_of_ok hKeeps hParse hUpdates hEncoded hLe]
      exact (Nat.max_eq_right hLe).symm

end Counters

/- A platform with one counter, which anything updates. -/
def counterHooks : Hooks (BitVec 32) where
  checkIntegrity _ _ := 0
  getAuthParam _ _ img := (0, img)
  verifyHash _ _ := 0
  verifySignature _ _ _ _ := 0
  platGetRotpkInfo _ _ := (1, ⟨fun _ => 0, 0⟩, 0#32)
  platGetNvCtr p _ := (0, p)
  platSetNvCtr2 _ _ _ ctr := (0, ctr)

def counterDesc : AuthParamTypeDesc := ⟨.nvCtr, 0⟩

theorem length_counterMethods :
    [AuthMethodDesc.nvCtr counterDesc counterDesc, .none, .none, .none].length =
      AUTH_METHOD_NUM := rfl

theorem length_counterData :
    (List.replicate COT_MAX_VERIFIED_PARAMS (⟨none, 0, 0⟩ : AuthParamDesc)).length =
      COT_MAX_VERIFIED_PARAMS := rfl

def counterImage : AuthImgDesc where
  imgId := 0
  imgType := .raw
  parent := none
  imgAuthMethods := [.nvCtr counterDesc counterDesc, .none, .none, .none]
  authenticatedData := List.replicate COT_MAX_VERIFIED_PARAMS ⟨none, 0, 0⟩
  hMethods := length_counterMethods
  hData := length_counterData

theorem counterHooks_keeps : KeepsCounter counterHooks id counterDesc where
  get _ := rfl
  set _ _ _ := rfl

/- The octets of the extension, and zeros behind them. -/
def extension (octets : List UInt8) : Data where
  byte i := octets.getD i 0
  len := octets.length

/- A counter of five is taken where there are three. -/
theorem auth_nvctr_counter_five :
    CounterChecked counterHooks id counterDesc counterDesc true counterImage (extension [2, 1, 5])
        (extension [2, 1, 5]) 3#32 ∧
      3 ≤ (id
          (verifications counterHooks counterDesc counterDesc
            3#32 [(counterImage, extension [2, 1, 5])])).toNat :=
  ⟨((auth_nvctr_counter counterHooks_keeps).1 true counterImage
      (extension [2, 1, 5]) (extension [2, 1, 5]) 3#32 rfl
      fun _ => rfl).mpr
      ⟨⟨by decide, fun _ => ⟨by decide, fun _ =>
          ⟨by decide, fun _ => by decide⟩⟩⟩,
        fun _ hZero => absurd hZero (by decide), fun _ _ hPadded => absurd hPadded id⟩,
    (auth_nvctr_counter counterHooks_keeps).2 [(counterImage, extension [2, 1, 5])] 3#32⟩

/-
  An integer without content octets is taken for the counter
  0, and an empty extension is read all the same.
-/
theorem auth_nvctr_no_content :
    ((authNvctr counterHooks counterDesc counterDesc counterImage (extension [2, 0, 0]) 0#32).1 =
        .ok () ∧
      ∀ minimal v, ¬ DerCounter minimal v (extension [2, 0, 0]).bytes) ∧
      ¬ Runs (derIntegerWithin (extension [])) := by
  refine ⟨⟨rfl, ?_⟩, ?_⟩
  · rintro minimal v ⟨-, hPos, -⟩
    exact absurd hPos (by decide)
  · rw [runs_derIntegerWithin_iff]
    exact fun hPresent => absurd hPresent.1 (by decide)

end Tfa.Auth
