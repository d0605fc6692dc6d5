import BootFirmware.Tfa.X509.Model
import Mathlib.Data.Fintype.EquivFin
import Mathlib.Tactic.SplitIfs

/-
  The look-up of extensions after the integrity check.

  The check goes over the extensions up to the end of the
  signed part, and does not look at the length of an
  extension.  The look-up goes up to the end of the inner
  sequence, and reads inside of an extension.  It is safe
  where the extensions are nested as their lengths say.

  Key definitions include:
    * `nested`
    * `Safe` and `QueriesSafe`

  The main results are:
    * `x509_queries_safe`
    * `x509_query_never_ends`
-/

----
-- What A Look-Up Must Do
----

namespace Tfa.X509

open List Option

/- The call succeeds, or what is read lies in the image. -/
def Event.Good (img imgLen : Nat) : Event → Prop
  | .call ret => ret = 0
  | .read lo hi => hi ≤ lo ∨ img ≤ lo ∧ hi ≤ img + imgLen

def Verdict.Within (buf : Asn1Buf) : Verdict → Prop
  | .ok ext extLen => buf.p ≤ ext ∧ ext + extLen ≤ buf.stop
  | _ => True

/-
  The look-up ends, all the calls it relies on succeed, it
  reads only the image and finds only signed data.
-/
def Safe (lib : Mbedtls) (mem : Memory UInt8) (img imgLen : Nat) (cert : Cert)
    (oid : List UInt8) : Prop :=
  ∃ fuel events verdict, getExt lib mem cert.v3Ext oid fuel = some (events, verdict) ∧
    (∀ event ∈ events, event.Good img imgLen) ∧ verdict.Within cert.tbs

def QueriesSafe (lib : Mbedtls) (mem : Memory UInt8) (img imgLen : Nat)
    (cert : Cert) : Prop :=
  (∀ oid, Safe lib mem img imgLen cert oid) ∧ cert.tbs.p ≤ cert.pk.p ∧ cert.pk.stop ≤ cert.tbs.stop

/- The id cannot be written to the buffer of the look-up. -/
def tooLong (lib : Mbedtls) (mem : Memory UInt8)
    (x : Extension) : Bool :=
  (lib.getNumericString mem x.id).1 == oidBufTooSmall

/-
  The extensions that start before `e`, up to one whose id is
  too long, lie in their own sequences, and these before `e`.
-/
def nested (lib : Mbedtls) (mem : Memory UInt8)
    (e : Nat) : List Extension → Bool
  | [] => true
  | x :: rest =>
    if e ≤ x.start then true
    else
      x.next ≤ x.seqEnd && x.seqEnd ≤ e && (tooLong lib mem x || nested lib mem e rest)

/- In the inner sequence, as the check found them. -/
def Cert.nested (lib : Mbedtls) (mem : Memory UInt8)
    (cert : Cert) : Bool :=
  X509.nested lib mem cert.v3Ext.stop cert.extensions

----
-- What The Check Has Found
----

theorem bind_ok
    {ε α β : Type} {r : Except ε α} {f : α → Except ε β} {b : β} (hOk : r >>= f = .ok b) :
    ∃ a, r = .ok a ∧ f a = .ok b := by
  cases r with
  | error e => cases hOk
  | ok a => exact ⟨a, rfl, hOk⟩

/- A test that goes on has not failed. -/
theorem guard_ok {ε α : Type} {c : Prop} [Decidable c] {e : ε} {f : Unit → Except ε α} {b : α}
    (hOk : (if c then Except.error e >>= f else f ()) = .ok b) :
    ¬ c ∧ f () = .ok b := by
  by_cases hFails : c
  · rw [if_pos hFails] at hOk
    cases hOk
  · rw [if_neg hFails] at hOk
    exact ⟨hFails, hOk⟩

section Parse

variable {lib : Mbedtls} {mem : Memory UInt8} {p q e len : Nat} {tag : UInt8}

theorem expectTag_ok (hLib : lib.Lawful) (hOk : expectTag lib mem p e tag = .ok (q, len)) :
    lib.getTag mem p e tag = ⟨0, q, some len⟩ ∧ p < q ∧ q + len ≤ e := by
  unfold expectTag at hOk
  dsimp only at hOk
  split at hOk
  · cases hOk
  · rename_i hRet
    have hZero := not_not.mp hRet
    rcases hLib.tag_ok mem p e tag hZero with ⟨l, hLen, hLt, hLe⟩
    cases hOk
    rw [hLen]
    generalize hResult : lib.getTag mem p e tag = r at *
    rcases r with ⟨ret, q, l'⟩
    dsimp only at hZero hLen hLt hLe ⊢
    rw [hZero, hLen]
    exact ⟨rfl, hLt, hLe⟩

theorem skipTag_ok (hLib : lib.Lawful) (hOk : skipTag lib mem p e tag = .ok q) :
    p < q ∧ q ≤ e := by
  unfold skipTag at hOk
  cases hTag : expectTag lib mem p e tag with
  | error x =>
    rw [hTag] at hOk
    cases hOk
  | ok r =>
    rw [hTag] at hOk
    cases hOk
    have hRange := (expectTag_ok hLib hTag).2
    exact ⟨Nat.lt_add_right _ hRange.1, hRange.2⟩

theorem skipOptional_ok
    (hLib : lib.Lawful) (hLe : p ≤ e) (hOk : skipOptional lib mem p e tag = .ok q) :
    p ≤ q ∧ q ≤ e := by
  unfold skipOptional at hOk
  dsimp only at hOk
  split at hOk
  · rename_i hRet
    split at hOk
    · cases hOk
    · cases hOk
      rcases hLib.tag_fail mem p e tag hRet with ⟨hForward, hEnd | hSame⟩
      · exact ⟨hForward, hEnd⟩
      · exact ⟨hForward, Nat.le_trans (Nat.le_of_eq hSame) hLe⟩
  · rename_i hRet
    cases hOk
    rcases hLib.tag_ok mem p e tag (not_not.mp hRet) with ⟨l, hLen, hLt, hFits⟩
    rw [hLen]
    exact ⟨Nat.le_add_right_of_le (Nat.le_of_lt hLt), hFits⟩

theorem stop_buffer (hLe : p ≤ e) :
    (buffer p e).stop = e :=
  Nat.add_sub_of_le hLe

/- The calls of the check for an extension. -/
def Checked (lib : Mbedtls) (mem : Memory UInt8) (e start : Nat)
    (x : Extension) : Prop :=
  ∃ q seqLen o oidLen d dataLen, expectTag lib mem start e tagSequence = .ok (q, seqLen) ∧
    expectTag lib mem q e tagOid = .ok (o, oidLen) ∧ ((lib.getBool mem (o + oidLen) e).ret = 0 ∨
      (lib.getBool mem (o + oidLen) e).ret = asn1UnexpectedTag) ∧
    expectTag lib mem (lib.getBool mem (o + oidLen) e).p e tagOctetString = .ok (d, dataLen) ∧
    x = ⟨start, q + seqLen, ⟨mem q, oidLen, o⟩, d + dataLen⟩

theorem checkExtension_ok
    {start : Nat} {x : Extension} (hOk : checkExtension lib mem start e = .ok x) :
    Checked lib mem e start x := by
  rcases bind_ok hOk with ⟨⟨q, seqLen⟩, hSeq, hOk⟩
  rcases bind_ok hOk with ⟨⟨o, oidLen⟩, hOid, hOk⟩
  rcases guard_ok hOk with ⟨hCrit, hOk⟩
  rcases bind_ok hOk with ⟨⟨d, dataLen⟩, hData, hOk⟩
  cases hOk
  refine ⟨q, seqLen, o, oidLen, d, dataLen, hSeq, hOid, ?_, hData, rfl⟩
  by_cases hZero : (lib.getBool mem (o + oidLen) e).ret = 0
  · exact Or.inl hZero
  · exact Or.inr (not_not.mp fun hOther => hCrit ⟨hZero, hOther⟩)

/- The extensions from `p` on, one behind the other. -/
def Walk (lib : Mbedtls) (mem : Memory UInt8)
    (e : Nat) : Nat → List Extension → Prop
  | p, [] => e ≤ p
  | p, x :: rest => Checked lib mem e p x ∧ Walk lib mem e x.next rest

theorem checkExtensions_ok
    {fuel : Nat} {xs : List Extension} (hOk : checkExtensions lib mem e fuel p = .ok (xs, q)) :
    Walk lib mem e p xs := by
  induction fuel generalizing p xs with
  | zero => cases hOk
  | succ fuel ih =>
    unfold checkExtensions at hOk
    split at hOk
    · rcases bind_ok hOk with ⟨x, hFirst, hOk⟩
      rcases bind_ok hOk with ⟨⟨rest, p'⟩, hRest, hOk⟩
      cases hOk
      exact ⟨checkExtension_ok hFirst, ih hRest⟩
    · rename_i hEnd
      cases hOk
      exact Nat.not_lt.mp hEnd

end Parse

----
-- The Check Ends
----

section Cert

variable {lib : Mbedtls} {mem : Memory UInt8} {img imgLen : Nat}

theorem parseHead_ok
    {head : Head} (hLib : lib.Lawful) (hOk : parseHead lib mem img imgLen = .ok head) :
    img ≤ head.tbs.p ∧ head.tbs.stop ≤ img + imgLen ∧ head.tbs.p ≤ head.pk.p ∧
      head.pk.stop ≤ head.tbs.stop ∧ head.pk.p ≤ head.pk.stop := by
  rcases bind_ok hOk with ⟨⟨tbsStart, certLen⟩, hCert, hOk⟩
  rcases guard_ok hOk with ⟨-, hOk⟩
  rcases bind_ok hOk with ⟨⟨q, tbsLen⟩, hTbs, hOk⟩
  rcases bind_ok hOk with ⟨p1, hVersion, hOk⟩
  rcases bind_ok hOk with ⟨sigStart, hSerial, hOk⟩
  rcases bind_ok hOk with ⟨⟨q', sigLen⟩, hSig, hOk⟩
  rcases guard_ok hOk with ⟨-, hOk⟩
  rcases bind_ok hOk with ⟨p2, hIssuer, hOk⟩
  rcases bind_ok hOk with ⟨p3, hValidity, hOk⟩
  rcases bind_ok hOk with ⟨pkStart, hSubject, hOk⟩
  rcases bind_ok hOk with ⟨pkEnd, hPk, hOk⟩
  cases hOk
  have h1 := (expectTag_ok hLib hCert).2
  have h2 := (expectTag_ok hLib hTbs).2
  have h3 := skipTag_ok hLib hVersion
  have h4 := skipTag_ok hLib hSerial
  have h5 := (expectTag_ok hLib hSig).2
  have h6 := skipTag_ok hLib hIssuer
  have h7 := skipTag_ok hLib hValidity
  have h8 := skipTag_ok hLib hSubject
  have h9 := skipTag_ok hLib hPk
  have hTbsStop := stop_buffer (p := tbsStart)
    (e := q + tbsLen) (by omega)
  have hPkStop := stop_buffer (p := pkStart)
    (e := pkEnd) (by omega)
  rw [hTbsStop, hPkStop]
  unfold buffer
  dsimp only
  omega

/-
  The sequence of extensions lies in the signed part, and the
  check has gone over what follows its header.
-/
structure CertOk
    (lib : Mbedtls) (mem : Memory UInt8) (img imgLen : Nat)
    (cert : Cert) : Prop where
  tbs : img ≤ cert.tbs.p ∧ cert.tbs.stop ≤ img + imgLen
  pk : cert.tbs.p ≤ cert.pk.p ∧ cert.pk.stop ≤ cert.tbs.stop
  ext : cert.tbs.p ≤ cert.v3Ext.p ∧ cert.v3Ext.stop ≤ cert.tbs.stop
  walk : ∃ q len, expectTag lib mem cert.v3Ext.p cert.tbs.stop tagSequence = .ok (q, len) ∧
    cert.v3Ext.stop = q + len ∧ Walk lib mem cert.tbs.stop q cert.extensions

theorem certParse_ok
    {cert : Cert} (hLib : lib.Lawful) (hOk : certParse lib mem img imgLen = .ok cert) :
    CertOk lib mem img imgLen cert := by
  rcases bind_ok hOk with ⟨head, hHead, hOk⟩
  rcases bind_ok hOk with ⟨⟨v3Ext, extensions, p⟩, hExtensions, hOk⟩
  rcases bind_ok hOk with ⟨signature, -, hOk⟩
  cases hOk
  rcases parseHead_ok hLib hHead with ⟨hStart, hStop, hPkStart, hPkStop, hPkLe⟩
  rcases bind_ok hExtensions with ⟨p1, hFirst, hOk⟩
  rcases bind_ok hOk with ⟨p2, hSecond, hOk⟩
  rcases bind_ok hOk with ⟨⟨v3Start, v3Len⟩, hThird, hOk⟩
  rcases bind_ok hOk with ⟨⟨q, len⟩, hSeq, hOk⟩
  rcases bind_ok hOk with ⟨⟨xs, p'⟩, hWalk, hOk⟩
  rcases guard_ok hOk with ⟨-, hOk⟩
  cases hOk
  have h1 := skipOptional_ok hLib hPkStop hFirst
  have h2 := skipOptional_ok hLib h1.2 hSecond
  have h3 := (expectTag_ok hLib hThird).2
  have h4 := (expectTag_ok hLib hSeq).2
  have hExtStop : (buffer v3Start (q + len)).stop = q + len := stop_buffer (by omega)
  refine ⟨⟨hStart, hStop⟩, ⟨hPkStart, hPkStop⟩, ⟨?_, ?_⟩, ?_⟩
  · show head.tbs.p ≤ v3Start
    omega
  · rw [hExtStop]
    exact h4.2
  · exact ⟨q, len, hSeq, hExtStop, checkExtensions_ok hWalk⟩

end Cert

----
-- A Round Of The Look-Up
----

section Round

variable {lib : Mbedtls} {mem : Memory UInt8} {oid : List UInt8} {e e' start : Nat} {x : Extension}

section

variable (hLib : lib.Lawful)
include hLib

/- A call with a nearer end that is still far enough. -/
theorem getTag_nearer {p q len : Nat} {tag : UInt8}
    (hTag : lib.getTag mem p e tag = ⟨0, q, some len⟩) (hNear : e' ≤ e) (hFits : q + len ≤ e') :
    lib.getTag mem p e' tag = ⟨0, q, some len⟩ := by
  have hSame := hLib.tag_end mem p e' e tag len hNear
  rw [hTag] at hSame
  exact hSame rfl rfl hFits

/- A call that succeeds with a nearer end. -/
theorem getTag_farther {p q len : Nat} {tag : UInt8}
    (hTag : lib.getTag mem p e tag = ⟨0, q, some len⟩) (hNear : e' ≤ e)
    (hOk : (lib.getTag mem p e' tag).ret = 0) :
    lib.getTag mem p e' tag = ⟨0, q, some len⟩ ∧ q + len ≤ e' := by
  have hSame := hLib.tag_more mem p e' e tag hNear hOk
  rcases hLib.tag_ok mem p e' tag hOk with ⟨l, hLen, -, hFits⟩
  rw [← hSame, hTag] at hLen hFits ⊢
  cases hLen
  exact ⟨rfl, hFits⟩

/- The flag is read alike where the value follows it. -/
theorem getBool_nearer {p d dataLen : Nat}
    (hCrit : (lib.getBool mem p e).ret = 0 ∨ (lib.getBool mem p e).ret = asn1UnexpectedTag)
    (hNear : e' ≤ e) (hAfter : (lib.getBool mem p e).p < d) (hFits : d + dataLen ≤ e') :
    (lib.getBool mem p e').p = (lib.getBool mem p e).p := by
  rcases hCrit with hZero | hTag
  · rw [hLib.bool_end mem p e' e hNear hZero (by omega)]
  · have hSame := hLib.bool_unexpected mem p e hTag
    rw [hSame] at hAfter ⊢
    exact hLib.bool_unexpected mem p e' (hLib.bool_tag mem p e' e (by omega) hNear hTag)

/- The flag is read alike where a value is found after it. -/
theorem getBool_farther {p : Nat}
    (hCrit : (lib.getBool mem p e).ret = 0 ∨ (lib.getBool mem p e).ret = asn1UnexpectedTag)
    (hNear : e' ≤ e) (hData : (lib.getTag mem (lib.getBool mem p e').p e' tagOctetString).ret = 0) :
    (lib.getBool mem p e').p = (lib.getBool mem p e).p := by
  rcases hLib.tag_ok mem _ e' tagOctetString hData with ⟨l, -, hLt, hFits⟩
  rcases hCrit with hZero | hTag
  · by_cases hRoom : (lib.getBool mem p e).p ≤ e'
    · rw [hLib.bool_end mem p e' e hNear hZero hRoom]
    · exact absurd hData (hLib.bool_cut mem p e' e hNear hZero (Nat.not_le.mp hRoom))
  · rw [hLib.bool_unexpected mem p e hTag]
    by_cases hRoom : p < e'
    · exact hLib.bool_unexpected mem p e' (hLib.bool_tag mem p e' e hRoom hNear hTag)
    · have hForward : p ≤ (lib.getBool mem p e').p := by
        by_cases hOk : (lib.getBool mem p e').ret = 0
        · exact Nat.le_of_lt (hLib.bool_ok mem p e' hOk).1
        · exact (hLib.bool_fail mem p e' hOk).1
      omega

end

/- What a round does that finds the extension of the check. -/
def roundResult
    (lib : Mbedtls) (mem : Memory UInt8) (oid : List UInt8) (x : Extension) (d dataLen : Nat) :
    Verdict ⊕ LoopState :=
  let (oidLen, oidStr) := lib.getNumericString mem x.id
  if oidLen = oidBufTooSmall then .inl .err
  else if oidLen = oidStr.length ∧ oid = oidStr then
    .inl (.ok d (dataLen % 2 ^ 32))
  else .inr ⟨x.next, dataLen⟩

/-
  In an extension that is nested, all calls succeed and find
  what the check has found.
-/
theorem round_nested
    (oid : List UInt8) (hLib : lib.Lawful) (hChecked : Checked lib mem e start x) (hNear : e' ≤ e)
    (hOwn : x.next ≤ x.seqEnd) (hSeq : x.seqEnd ≤ e') {img imgLen : Nat}
    (hImg : img ≤ start ∧ e ≤ img + imgLen) (len : Nat) :
    (∀ event ∈ (getExtRound lib mem oid e' ⟨start, len⟩).1, event.Good img imgLen) ∧
    ∃ d dataLen, start < d ∧ d + dataLen = x.next ∧
      (getExtRound lib mem oid e' ⟨start, len⟩).2 = roundResult lib mem oid x d dataLen := by
  rcases hChecked with ⟨q, seqLen, o, oidLen, d, dataLen, hSeqTag, hOid, hCrit, hData, rfl⟩
  rcases expectTag_ok hLib hSeqTag with ⟨h1, hLt1, hLe1⟩
  rcases expectTag_ok hLib hOid with ⟨h2, hLt2, hLe2⟩
  rcases expectTag_ok hLib hData with ⟨h3, hLt3, hLe3⟩
  have hForward : o + oidLen ≤ (lib.getBool mem (o + oidLen) e).p := by
    rcases hCrit with hZero | hTag
    · exact Nat.le_of_lt (hLib.bool_ok mem _ e hZero).1
    · exact Nat.le_of_eq (hLib.bool_unexpected mem _ e hTag).symm
  dsimp only at hOwn hSeq
  have hSeq' := getTag_nearer hLib h1 hNear (by omega)
  have hOid' := getTag_nearer hLib h2 hNear (by omega)
  have hBool := getBool_nearer hLib hCrit (Nat.le_trans hSeq hNear) hLt3 hOwn
  have hData' := getTag_nearer hLib h3 (Nat.le_trans hSeq hNear) hOwn
  rw [← hBool] at hData'
  constructor
  · unfold getExtRound
    simp only [hSeq', hOid', getD_some, Asn1Buf.stop, hData', mem_cons, not_mem_nil, or_false]
    intro event hEvent
    rcases hEvent with
      rfl | rfl | rfl | rfl | rfl | rfl | rfl | rfl | rfl
    all_goals unfold Event.Good
    all_goals omega
  · refine ⟨d, dataLen, by omega, rfl, ?_⟩
    unfold getExtRound roundResult
    simp only [hSeq', hOid', getD_some, Asn1Buf.stop, hData']

/- Where the calls succeed, the extension is nested. -/
theorem nested_of_round (hLib : lib.Lawful) (hChecked : Checked lib mem e start x) (hNear : e' ≤ e)
    {img imgLen len : Nat}
    (hGood : ∀ event ∈ (getExtRound lib mem oid e' ⟨start, len⟩).1, event.Good img imgLen) :
    x.next ≤ x.seqEnd ∧ x.seqEnd ≤ e' := by
  rcases hChecked with ⟨q, seqLen, o, oidLen, d, dataLen, hSeqTag, hOid, hCrit, hData, rfl⟩
  unfold getExtRound at hGood
  simp only [mem_cons, not_mem_nil, or_false, forall_eq_or_imp, forall_eq, Event.Good] at hGood
  rcases hGood with ⟨-, hSeqRet, -, -, hOidRet, -, -, hDataRet, -⟩
  have h1 := getTag_farther hLib (expectTag_ok hLib hSeqTag).1 hNear hSeqRet
  rw [h1.1] at hOidRet hDataRet
  have h2 := getTag_farther hLib (expectTag_ok hLib hOid).1 hNear hOidRet
  rw [h2.1] at hDataRet
  simp only [getD_some, Asn1Buf.stop] at hDataRet
  have hSeqNear : q + seqLen ≤ e := Nat.le_trans h1.2 hNear
  have hBool := getBool_farther hLib hCrit hSeqNear hDataRet
  rw [hBool] at hDataRet
  have h3 := getTag_farther hLib (expectTag_ok hLib hData).1 hSeqNear hDataRet
  exact ⟨h3.2, h1.2⟩

end Round

----
-- The Look-Up
----

section Loop

variable {lib : Mbedtls} {mem : Memory UInt8} {oid : List UInt8} {e e' img imgLen : Nat}
  {xs : List Extension}

theorem Checked.start {p : Nat} {x : Extension} (hChecked : Checked lib mem e p x) :
    x.start = p := by
  rcases hChecked with ⟨q, seqLen, o, oidLen, d, dataLen, -, -, -, -, rfl⟩
  rfl

/- At the end of the sequence nothing more is looked at. -/
theorem getExtLoop_end {s : LoopState} (hEnd : e ≤ s.p) (fuel : Nat) :
    getExtLoop lib mem oid e (fuel + 1) s = some ([], .notFound) := by
  exact if_neg (Nat.not_lt.mpr hEnd)

variable {verdict : Verdict}

/- A round that returns. -/
theorem getExtLoop_stop {s : LoopState}
    (hBefore : ¬ e ≤ s.p) (hRound : (getExtRound lib mem oid e s).2 = .inl verdict) (fuel : Nat) :
    getExtLoop lib mem oid e (fuel + 1) s = some ((getExtRound lib mem oid e s).1, verdict) := by
  unfold getExtLoop
  rw [if_pos (Nat.not_le.mp hBefore)]
  generalize getExtRound lib mem oid e s = result at hRound ⊢
  rcases result with ⟨events, next⟩
  dsimp only at hRound
  rw [hRound]

/- A round that goes on. -/
theorem getExtLoop_next {s t : LoopState}
    (hBefore : ¬ e ≤ s.p) (hRound : (getExtRound lib mem oid e s).2 = .inr t) (fuel : Nat) :
    getExtLoop lib mem oid e (fuel + 1) s = (getExtLoop lib mem oid e fuel t).map fun r =>
        ((getExtRound lib mem oid e s).1 ++ r.1, r.2) := by
  conv_lhs => unfold getExtLoop
  rw [if_pos (Nat.not_le.mp hBefore)]
  generalize getExtRound lib mem oid e s = result at hRound ⊢
  rcases result with ⟨events, next⟩
  dsimp only at hRound
  rw [hRound]

/- What the loop gives over nested extensions. -/
def LoopSafe (lib : Mbedtls) (mem : Memory UInt8) (oid : List UInt8) (e img imgLen : Nat)
    (s : LoopState) : Prop :=
  ∃ fuel events verdict, getExtLoop lib mem oid e fuel s = some (events, verdict) ∧
    (∀ event ∈ events, event.Good img imgLen) ∧
    ∀ ext extLen, verdict = .ok ext extLen → s.p ≤ ext ∧ ext + extLen ≤ e

theorem loopSafe_of_nested
    (oid : List UInt8) (hLib : lib.Lawful) (hNear : e' ≤ e) (hEnd : e ≤ img + imgLen) {p : Nat}
    (len : Nat) (hStart : img ≤ p) (hWalk : Walk lib mem e p xs)
    (hNested : nested lib mem e' xs = true) :
    LoopSafe lib mem oid e' img imgLen ⟨p, len⟩ := by
  induction xs generalizing p len with
  | nil =>
    have hAll : e' ≤ p := Nat.le_trans hNear hWalk
    exact ⟨1, [], .notFound, getExtLoop_end hAll 0, nofun, nofun⟩
  | cons x xs ih =>
    rcases hWalk with ⟨hChecked, hRest⟩
    unfold nested at hNested
    rw [hChecked.start] at hNested
    by_cases hAll : e' ≤ p
    · exact ⟨1, [], .notFound, getExtLoop_end hAll 0, nofun, nofun⟩
    · rw [if_neg hAll] at hNested
      rcases Bool.and_eq_true_iff.mp hNested with ⟨hIn, hAfter⟩
      rcases Bool.and_eq_true_iff.mp hIn with ⟨hOwn, hSeq⟩
      have hOwn := of_decide_eq_true hOwn
      have hSeq := of_decide_eq_true hSeq
      rcases round_nested oid hLib hChecked hNear hOwn hSeq ⟨hStart, hEnd⟩ len with
        ⟨hGood, d, dataLen, hLt, hNext, hResult⟩
      unfold roundResult at hResult
      dsimp only at hResult
      split_ifs at hResult with hLong hFound
      · exact ⟨1, _, .err, getExtLoop_stop hAll hResult 0, hGood, nofun⟩
      · refine ⟨1, _, _, getExtLoop_stop hAll hResult 0, hGood, ?_⟩
        intro ext extLen hOk
        cases hOk
        dsimp only
        omega
      · have hLate : nested lib mem e' xs = true := by
          rcases Bool.or_eq_true_iff.mp hAfter with
            hTooLong | hLate
          · exact absurd (beq_iff_eq.mp hTooLong) hLong
          · exact hLate
        rcases ih (p := x.next) dataLen (by omega) hRest
          hLate with
          ⟨fuel, events, verdict, hRun, hGood', hWithin⟩
        refine ⟨fuel + 1, _, verdict,
          (getExtLoop_next hAll hResult fuel).trans (congrArg _ hRun), ?_, ?_⟩
        · intro event hEvent
          rcases mem_append.mp hEvent with
            hFirst | hSecond
          · exact hGood event hFirst
          · exact hGood' event hSecond
        · intro ext extLen hOk
          have hRange := hWithin ext extLen hOk
          dsimp only at hRange ⊢
          omega

/-
  A look-up that finds none of the extensions goes over all
  of them, up to one whose id is too long.
-/
theorem nested_of_loop (hLib : lib.Lawful) (hNear : e' ≤ e) (hEnd : e ≤ img + imgLen)
    {p len fuel : Nat} {events : List Event} (hStart : img ≤ p) (hWalk : Walk lib mem e p xs)
    (hOther : ∀ x ∈ xs, oid ≠ (lib.getNumericString mem x.id).2)
    (hRun : getExtLoop lib mem oid e' fuel ⟨p, len⟩ = some (events, verdict))
    (hGood : ∀ event ∈ events, event.Good img imgLen) :
    nested lib mem e' xs = true := by
  induction xs generalizing p len fuel events with
  | nil => rfl
  | cons x xs ih =>
    rcases hWalk with ⟨hChecked, hRest⟩
    unfold nested
    rw [hChecked.start]
    by_cases hAll : e' ≤ p
    · exact if_pos hAll
    · rw [if_neg hAll]
      cases fuel with
      | zero => cases hRun
      | succ fuel =>
        have hFirst : ∀ event ∈ (getExtRound lib mem oid e' ⟨p, len⟩).1, event.Good img imgLen := by
          intro event hEvent
          apply hGood
          cases hNext : (getExtRound lib mem oid e' ⟨p, len⟩).2 with
          | inl v =>
            rw [getExtLoop_stop hAll hNext fuel] at hRun
            cases hRun
            exact hEvent
          | inr t =>
            rw [getExtLoop_next hAll hNext fuel] at hRun
            rcases map_eq_some_iff.mp hRun with ⟨r, -, hPair⟩
            cases hPair
            exact mem_append_left _ hEvent
        rcases nested_of_round hLib hChecked hNear hFirst with ⟨hOwn, hSeq⟩
        rcases round_nested oid hLib hChecked hNear hOwn hSeq ⟨hStart, hEnd⟩ len with
          ⟨-, d, dataLen, hLt, hNext, hResult⟩
        unfold roundResult at hResult
        dsimp only at hResult
        apply Bool.and_eq_true_iff.mpr
        refine ⟨Bool.and_eq_true_iff.mpr ⟨decide_eq_true hOwn, decide_eq_true hSeq⟩, ?_⟩
        apply Bool.or_eq_true_iff.mpr
        split_ifs at hResult with hLong hFound
        · exact Or.inl (beq_iff_eq.mpr hLong)
        · exact absurd hFound.2 (hOther x mem_cons_self)
        · rw [getExtLoop_next hAll hResult fuel] at hRun
          rcases map_eq_some_iff.mp hRun with ⟨r, hLater, hPair⟩
          cases hPair
          apply Or.inr
          apply ih (by omega) hRest _ hLater
          · intro event hEvent
            exact hGood event (mem_append_right _ hEvent)
          · intro y hy
            exact hOther y (mem_cons_of_mem x hy)

/- Some string is the id of no extension. -/
theorem exists_other_oid (lib : Mbedtls) (mem : Memory UInt8) (xs : List Extension) :
    ∃ oid : List UInt8, ∀ x ∈ xs, oid ≠ (lib.getNumericString mem x.id).2 := by
  rcases Infinite.exists_notMem_finset
    (xs.map fun x => (lib.getNumericString mem x.id).2).toFinset with
    ⟨oid, hOid⟩
  refine ⟨oid, fun x hx hEq => hOid ?_⟩
  apply List.mem_toFinset.mpr
  exact mem_map.mpr ⟨x, hx, hEq.symm⟩

end Loop

variable {mem : Memory UInt8}

/-
  The first call of a look-up finds the sequence again.
-/
theorem getExt_eq {lib : Mbedtls} {img imgLen q len : Nat} {cert : Cert}
    (hLib : lib.Lawful) (hCert : CertOk lib mem img imgLen cert)
    (hSeq : expectTag lib mem cert.v3Ext.p cert.tbs.stop tagSequence = .ok (q, len))
    (hStop : cert.v3Ext.stop = q + len) (oid : List UInt8) (fuel : Nat) :
    getExt lib mem cert.v3Ext oid fuel = (getExtLoop lib mem oid cert.v3Ext.stop fuel
        ⟨q, len⟩).map fun r => (.read cert.v3Ext.p cert.v3Ext.stop :: .call 0 :: r.1, r.2) := by
  have hTag := getTag_nearer hLib (expectTag_ok hLib hSeq).1 hCert.ext.2 (Nat.le_of_eq hStop.symm)
  unfold getExt
  dsimp only
  rw [hTag]
  rfl

/-
  A certificate that passes the check can be queried safely
  exactly where its extensions are nested: each one that
  starts in the inner sequence, up to one whose id is too
  long, has a length that covers its id, flag and value, and
  lies in the inner sequence.
-/
theorem x509_queries_safe
    (lib : Mbedtls) (hLib : lib.Lawful) (mem : Memory UInt8) (img imgLen : Nat) (cert : Cert)
    (hParse : certParse lib mem img imgLen = .ok cert) :
    QueriesSafe lib mem img imgLen cert ↔ cert.nested lib mem = true := by
  have hCert := certParse_ok hLib hParse
  rcases hCert.walk with ⟨q, len, hSeq, hStop, hWalk⟩
  have hLt := (expectTag_ok hLib hSeq).2.1
  have hTbs := hCert.tbs
  have hExt := hCert.ext
  have hStart : img ≤ q := by omega
  constructor
  · rintro ⟨hSafe, -⟩
    rcases exists_other_oid lib mem cert.extensions with ⟨oid, hOther⟩
    rcases hSafe oid with ⟨fuel, events, verdict, hRun, hGood, -⟩
    rw [getExt_eq hLib hCert hSeq hStop] at hRun
    rcases map_eq_some_iff.mp hRun with ⟨r, hLoop, hPair⟩
    cases hPair
    apply nested_of_loop hLib hExt.2 hTbs.2 hStart hWalk hOther hLoop
    intro event hEvent
    apply hGood event
    exact mem_cons_of_mem _ (mem_cons_of_mem _ hEvent)
  · intro hNested
    refine ⟨?_, hCert.pk⟩
    intro oid
    rcases loopSafe_of_nested oid hLib hExt.2 hTbs.2 len hStart hWalk hNested with
      ⟨fuel, events, verdict, hRun, hGood, hWithin⟩
    refine ⟨fuel, _, verdict,
      (getExt_eq hLib hCert hSeq hStop oid fuel).trans (congrArg _ hRun), ?_, ?_⟩
    · intro event hEvent
      rcases mem_cons.mp hEvent with rfl | hEvent
      · unfold Event.Good
        omega
      · rcases mem_cons.mp hEvent with rfl | hEvent
        · rfl
        · exact hGood event hEvent
    · cases verdict with
      | ok ext extLen =>
        have hRange := hWithin ext extLen rfl
        unfold Verdict.Within
        dsimp only at hRange
        omega
      | err => trivial
      | notFound => trivial

----
-- Two Certificates
----

/- Lengths of one byte below 128, and other forms refused. -/
def shortTag (mem : Memory UInt8) (p e : Nat)
    (tag : UInt8) : TagResult :=
  if e ≤ p then ⟨-0x60, p, none⟩
  else if mem p ≠ tag then ⟨asn1UnexpectedTag, p, none⟩
  else if e ≤ p + 1 then ⟨-0x60, p + 1, none⟩
  else if 128 ≤ (mem (p + 1)).toNat then
    ⟨-0x64, p + 1, none⟩
  else if e < p + 2 + (mem (p + 1)).toNat then
    ⟨-0x60, p + 2, some (mem (p + 1)).toNat⟩
  else ⟨0, p + 2, some (mem (p + 1)).toNat⟩

def shortBool (mem : Memory UInt8)
    (p e : Nat) : BoolResult :=
  let r := shortTag mem p e 0x01
  if r.ret ≠ 0 then ⟨r.ret, r.p⟩
  else if r.len ≠ some 1 then ⟨-0x64, r.p⟩
  else ⟨0, r.p + 1⟩

/- An id of one byte, such as "42" for "1.2". -/
def shortString (mem : Memory UInt8)
    (buf : Asn1Buf) : Int × List UInt8 :=
  if buf.len = 1 then
    (3, [48 + mem buf.p / 40, 46, 48 + mem buf.p % 40])
  else (0, [])

def shortForm : Mbedtls where
  getTag := shortTag
  getBool := shortBool
  getNumericString := shortString

section Short

variable {mem : Memory UInt8} {p e : Nat} {tag : UInt8}

/- A tag with a length before the end of the data. -/
def ShortAt (mem : Memory UInt8) (p e : Nat)
    (tag : UInt8) : Prop :=
  mem p = tag ∧ (mem (p + 1)).toNat < 128 ∧ p + 2 + (mem (p + 1)).toNat ≤ e

theorem shortTag_found (hAt : ShortAt mem p e tag) :
    shortTag mem p e tag = ⟨0, p + 2, some (mem (p + 1)).toNat⟩ := by
  rcases hAt with ⟨hTag, hShort, hFits⟩
  unfold shortTag
  rw [if_neg (by omega), if_neg (not_not.mpr hTag),
    if_neg (by omega), if_neg (by omega), if_neg (by omega)]

theorem shortTag_missed (hMissed : ¬ ShortAt mem p e tag) :
    (shortTag mem p e tag).ret ≠ 0 ∧ p ≤ (shortTag mem p e tag).p ∧
      ((shortTag mem p e tag).p ≤ e ∨ (shortTag mem p e tag).p = p) := by
  have hData : (-0x60 : Int) ≠ 0 := by decide
  have hTag : asn1UnexpectedTag ≠ 0 := by decide
  have hLength : (-0x64 : Int) ≠ 0 := by decide
  unfold shortTag
  split_ifs with h1 h2 h3 h4 h5
  · exact ⟨hData, Nat.le_refl p, Or.inr rfl⟩
  · exact ⟨hTag, Nat.le_refl p, Or.inr rfl⟩
  · exact ⟨hData, Nat.le_succ p, Or.inl (Nat.not_le.mp h1)⟩
  · exact ⟨hLength, Nat.le_succ p, Or.inl (Nat.not_le.mp h1)⟩
  · exact ⟨hData, Nat.le_add_right p 2, Or.inl (Nat.not_le.mp h3)⟩
  · refine absurd ?_ hMissed
    exact ⟨not_not.mp h2, Nat.not_le.mp h4, Nat.not_lt.mp h5⟩

theorem shortTag_ret : (shortTag mem p e tag).ret = 0 ↔ ShortAt mem p e tag := by
  constructor
  · intro hRet
    by_contra hMissed
    exact (shortTag_missed hMissed).1 hRet
  · intro hAt
    rw [shortTag_found hAt]

theorem ShortAt.farther {e' : Nat} (hAt : ShortAt mem p e tag) (hNear : e ≤ e') :
    ShortAt mem p e' tag :=
  ⟨hAt.1, hAt.2.1, Nat.le_trans hAt.2.2 hNear⟩

/- A boolean takes three bytes. -/
theorem shortBool_ret :
    (shortBool mem p e).ret = 0 ↔ ShortAt mem p e 0x01 ∧ (mem (p + 1)).toNat = 1 := by
  unfold shortBool
  by_cases hAt : ShortAt mem p e 0x01
  · rw [shortTag_found hAt]
    by_cases hOne : (mem (p + 1)).toNat = 1
    · simp [hAt, hOne]
    · simp [hOne]
  · have hMissed := (shortTag_missed hAt).1
    simp [hAt, hMissed]

theorem shortBool_found (hRet : (shortBool mem p e).ret = 0) :
    shortBool mem p e = ⟨0, p + 3⟩ := by
  rcases shortBool_ret.mp hRet with ⟨hAt, hOne⟩
  unfold shortBool
  rw [shortTag_found hAt]
  simp [hOne]

theorem shortBool_missed (hRet : (shortBool mem p e).ret ≠ 0) :
    p ≤ (shortBool mem p e).p ∧ ((shortBool mem p e).p ≤ e ∨ (shortBool mem p e).p = p) := by
  unfold shortBool at hRet ⊢
  by_cases hAt : ShortAt mem p e 0x01
  · rw [shortTag_found hAt] at hRet ⊢
    have hFits := hAt.2.2
    by_cases hOne : (mem (p + 1)).toNat = 1
    · simp [hOne] at hRet
    · simp only [ne_eq, not_true_eq_false, if_false,
        Option.some.injEq, hOne, not_false_eq_true, if_true]
      omega
  · have hMissed := shortTag_missed hAt
    simp only [ne_eq, hMissed.1, not_false_eq_true, if_true]
    exact hMissed.2

theorem shortBool_unexpected :
    (shortBool mem p e).ret = asn1UnexpectedTag ↔ p < e ∧ mem p ≠ 0x01 := by
  unfold shortBool shortTag asn1UnexpectedTag
  by_cases hEnd : e ≤ p
  · simp [hEnd]
  · rw [if_neg hEnd]
    by_cases hTag : mem p = 0x01
    · rw [if_neg (not_not.mpr hTag)]
      simp only [hTag]
      split_ifs <;> simp
    · simp [hTag, Nat.not_le.mp hEnd]

/- No tag fits after what is read of a boolean cut off. -/
theorem shortBool_cut {e' : Nat} (hRet : (shortBool mem p e').ret = 0) (hCut : e < p + 3) :
    ¬ ShortAt mem (shortBool mem p e).p e tagOctetString := by
  rcases shortBool_ret.mp hRet with ⟨⟨hTag, -, -⟩, hOne⟩
  rintro ⟨-, -, hFits⟩
  have hLow : e ≤ (shortBool mem p e).p := by
    unfold shortBool shortTag asn1UnexpectedTag
    rw [if_neg (not_not.mpr hTag)]
    split_ifs <;> simp_all
    all_goals omega
  omega

end Short

theorem shortForm_lawful : shortForm.Lawful where
  tag_ok mem p e tag hRet := by
    have hAt := shortTag_ret.mp hRet
    have hFound : shortForm.getTag mem p e tag = _ := shortTag_found hAt
    rw [hFound]
    exact ⟨_, rfl, Nat.lt_add_of_pos_right (by decide), hAt.2.2⟩
  tag_fail mem p e tag hRet := (shortTag_missed fun hAt => hRet (shortTag_ret.mpr hAt)).2
  tag_end mem p e e' tag len _ hRet hLen hFits := by
    have hAt := shortTag_ret.mp hRet
    have hFound : shortForm.getTag mem p e' tag = _ := shortTag_found hAt
    rw [hFound] at hLen hFits ⊢
    cases hLen
    exact shortTag_found ⟨hAt.1, hAt.2.1, hFits⟩
  tag_more mem p e e' tag hNear hRet := by
    have hAt := shortTag_ret.mp hRet
    exact (shortTag_found (hAt.farther hNear)).trans (shortTag_found hAt).symm
  bool_ok mem p e hRet := by
    have hFits := (shortBool_ret.mp hRet).1.2.2
    have hOne := (shortBool_ret.mp hRet).2
    have hFound : shortForm.getBool mem p e = _ := shortBool_found hRet
    rw [hFound]
    dsimp only
    omega
  bool_fail mem p e hRet := shortBool_missed hRet
  bool_end mem p e e' _ hRet hFits := by
    have hAt := shortBool_ret.mp hRet
    have hFound : shortForm.getBool mem p e' = _ := shortBool_found hRet
    rw [hFound] at hFits ⊢
    dsimp only at hFits
    apply shortBool_found
    apply shortBool_ret.mpr
    exact ⟨⟨hAt.1.1, hAt.1.2.1, by omega⟩, hAt.2⟩
  bool_tag mem p e e' hLt _ hRet := shortBool_unexpected.mpr ⟨hLt, (shortBool_unexpected.mp hRet).2⟩
  bool_unexpected mem p e hRet := by
    have hTag := shortBool_unexpected.mp hRet
    show (shortBool mem p e).p = p
    unfold shortBool shortTag
    rw [if_neg (Nat.not_le.mpr hTag.1), if_pos hTag.2]
    rfl
  bool_cut mem p e e' _ hRet hCut := by
    have hFound : shortForm.getBool mem p e' = _ := shortBool_found hRet
    rw [hFound] at hCut
    intro hOctet
    exact shortBool_cut hRet hCut (shortTag_ret.mp hOctet)

/- The bytes of an image at the address 0. -/
def memOf (bytes : List UInt8) : Memory UInt8 :=
  fun i => bytes.getD i 0

/-
  A certificate with the given extensions, where everything
  else is empty.
-/
def certOf (extensions : List UInt8) : List UInt8 :=
  let n : UInt8 := UInt8.ofNat extensions.length
  [0x30, n + 24, 0x30, n + 18] ++
    [0xa0, 0, 0x02, 0, 0x30, 0, 0x30, 0, 0x30, 0, 0x30, 0, 0x30, 0, 0xa3, n + 2, 0x30, n] ++
    extensions ++ [0x30, 0, 0x03, 0]

/- "1.2" with one byte, and "1.3", critical, with two. -/
def goodExtensions : List UInt8 :=
  [0x30, 6, 0x06, 1, 42, 0x04, 1, 7, 0x30, 10, 0x06, 1, 43, 0x01, 1, 0xff, 0x04, 2, 8, 9]

/- The length of the extension covers nothing. -/
def emptyExtension : List UInt8 :=
  [0x30, 0, 0x06, 1, 42, 0x04, 0]

def goodMem : Memory UInt8 := memOf (certOf goodExtensions)

def emptyMem : Memory UInt8 := memOf (certOf emptyExtension)

/- The text "1.3". -/
def otherOid : List UInt8 := [49, 46, 51]

def goodCert : Cert where
  tbs := ⟨0, 40, 2⟩
  v3Ext := ⟨0, 22, 20⟩
  pk := ⟨0, 2, 16⟩
  sigAlg := ⟨0, 2, 8⟩
  signature := ⟨0, 2, 44⟩
  extensions := [⟨22, 30, ⟨6, 1, 26⟩, 30⟩, ⟨30, 42, ⟨6, 1, 34⟩, 42⟩]

def emptyCert : Cert where
  tbs := ⟨0, 27, 2⟩
  v3Ext := ⟨0, 9, 20⟩
  pk := ⟨0, 2, 16⟩
  sigAlg := ⟨0, 2, 8⟩
  signature := ⟨0, 2, 31⟩
  extensions := [⟨22, 24, ⟨6, 1, 26⟩, 29⟩]

theorem ok_of_toOption {ε α : Type} {r : Except ε α} {a : α} (hSome : r.toOption = some a) :
    r = .ok a := by
  cases r with
  | error e => cases hSome
  | ok b => exact congrArg _ (Option.some.inj hSome)

/- Both extensions lie in their sequences. -/
theorem x509_query_good_extensions : certParse shortForm goodMem 0 46 = .ok goodCert ∧
    QueriesSafe shortForm goodMem 0 46 goodCert := by
  have hParse : certParse shortForm goodMem 0 46 = .ok goodCert :=
    ok_of_toOption (by decide +kernel)
  refine ⟨hParse, ?_⟩
  exact (x509_queries_safe shortForm shortForm_lawful goodMem
    0 46 goodCert hParse).mpr (by decide +kernel)

/- A round that changes nothing is taken again and again. -/
theorem getExtLoop_stuck {lib : Mbedtls} {oid : List UInt8} {e : Nat} {s : LoopState}
    (hBefore : ¬ e ≤ s.p) (hRound : (getExtRound lib mem oid e s).2 = .inr s) (fuel : Nat) :
    getExtLoop lib mem oid e fuel s = none := by
  induction fuel with
  | zero => rfl
  | succ fuel ih =>
    rw [getExtLoop_next hBefore hRound, ih]
    rfl

/-
  The length of the extension covers nothing.  The look-up of
  "1.3" moves behind the id, where each call fails and the
  last length read is 0, and it stays there.
-/
theorem x509_query_never_ends : certParse shortForm emptyMem 0 35 = .ok emptyCert ∧
    (∀ fuel, getExt shortForm emptyMem emptyCert.v3Ext otherOid fuel = none) ∧
    ¬ QueriesSafe shortForm emptyMem 0 35 emptyCert := by
  have hParse : certParse shortForm emptyMem 0 35 = .ok emptyCert :=
    ok_of_toOption (by decide +kernel)
  have hStuck : ∀ fuel, getExtLoop shortForm emptyMem otherOid 29 fuel ⟨27, 0⟩ = none :=
    getExtLoop_stuck (by decide) (by decide +kernel)
  have hLoop : ∀ fuel, getExtLoop shortForm emptyMem otherOid 29 fuel ⟨22, 7⟩ = none := by
    intro fuel
    cases fuel with
    | zero => rfl
    | succ fuel =>
      have hFirst : (getExtRound shortForm emptyMem otherOid 29 ⟨22, 7⟩).2 = .inr ⟨27, 0⟩ := by
        decide +kernel
      rw [getExtLoop_next (by decide) hFirst, hStuck]
      rfl
  have hSeq : shortForm.getTag emptyMem emptyCert.v3Ext.p
      emptyCert.v3Ext.stop tagSequence = ⟨0, 22, some 7⟩ := by
    decide +kernel
  have hNone : ∀ fuel, getExt shortForm emptyMem emptyCert.v3Ext otherOid fuel = none := by
    intro fuel
    unfold getExt
    dsimp only
    rw [hSeq]
    exact congrArg _ (hLoop fuel)
  refine ⟨hParse, hNone, ?_⟩
  rintro ⟨hSafe, -⟩
  rcases hSafe otherOid with ⟨fuel, events, verdict, hRun, -⟩
  rw [hNone fuel] at hRun
  cases hRun

end Tfa.X509
