import Mathlib.Algebra.Group.Nat.Defs
import BootFirmware.Lib.Memory

/-
  The X.509 parser on top of mbed TLS: the integrity check of
  a certificate, and the look-up of its extensions.

  Addresses are numbers, and a certificate is a range of the
  memory.  The functions of mbed TLS are parameters.

  Key definitions include:
    * `Mbedtls` and its `Lawful` behaviour
    * `certParse`
    * `getExt`
    * `getAuthParam`
-/

----
-- The Functions Of mbed TLS
----

namespace Tfa.X509

/- `MBEDTLS_ERR_ASN1_UNEXPECTED_TAG`. -/
def asn1UnexpectedTag : Int := -0x62

/- `MBEDTLS_ERR_OID_BUF_TOO_SMALL`. -/
def oidBufTooSmall : Int := -0x0b

def tagInteger : UInt8 := 0x02
def tagBitString : UInt8 := 0x03
def tagOctetString : UInt8 := 0x04
def tagOid : UInt8 := 0x06

/- `CONSTRUCTED | SEQUENCE`. -/
def tagSequence : UInt8 := 0x30

/- `CONTEXT_SPECIFIC | CONSTRUCTED | n`. -/
def tagContext (n : UInt8) : UInt8 := 0xa0 ||| n

structure Asn1Buf where
  tag : UInt8
  len : Nat
  p : Nat
deriving DecidableEq, Repr

/- The length is `none` where `*len` was not written. -/
structure TagResult where
  ret : Int
  p : Nat
  len : Option Nat
deriving DecidableEq, Repr

structure BoolResult where
  ret : Int
  p : Nat
deriving DecidableEq, Repr

/-
  `mbedtls_asn1_get_tag`, `mbedtls_asn1_get_bool` and
  `mbedtls_oid_get_numeric_string`, which returns a length or
  an error beside the string in the buffer.
-/
structure Mbedtls where
  getTag : Memory UInt8 → Nat → Nat → UInt8 → TagResult
  getBool : Memory UInt8 → Nat → Nat → BoolResult
  getNumericString : Memory UInt8 → Asn1Buf → Int × List UInt8

/-
  What is documented of them.  A call succeeds where what it
  looks for lies before `end`, and `end` matters for nothing
  else.  It moves the pointer behind what it has read, and
  never past `end`.
-/
structure Mbedtls.Lawful (lib : Mbedtls) : Prop where
  tag_ok : ∀ mem p e tag, (lib.getTag mem p e tag).ret = 0 →
      ∃ len, (lib.getTag mem p e tag).len = some len ∧ p < (lib.getTag mem p e tag).p ∧
        (lib.getTag mem p e tag).p + len ≤ e
  tag_fail : ∀ mem p e tag, (lib.getTag mem p e tag).ret ≠ 0 → p ≤ (lib.getTag mem p e tag).p ∧
        ((lib.getTag mem p e tag).p ≤ e ∨ (lib.getTag mem p e tag).p = p)
  tag_end : ∀ mem p e e' tag len, e ≤ e' → (lib.getTag mem p e' tag).ret = 0 →
    (lib.getTag mem p e' tag).len = some len →
    (lib.getTag mem p e' tag).p + len ≤ e → lib.getTag mem p e tag = lib.getTag mem p e' tag
  tag_more : ∀ mem p e e' tag, e ≤ e' →
    (lib.getTag mem p e tag).ret = 0 → lib.getTag mem p e' tag = lib.getTag mem p e tag
  bool_ok : ∀ mem p e, (lib.getBool mem p e).ret = 0 →
    p < (lib.getBool mem p e).p ∧ (lib.getBool mem p e).p ≤ e
  bool_fail : ∀ mem p e, (lib.getBool mem p e).ret ≠ 0 →
    p ≤ (lib.getBool mem p e).p ∧ ((lib.getBool mem p e).p ≤ e ∨ (lib.getBool mem p e).p = p)
  bool_end : ∀ mem p e e', e ≤ e' → (lib.getBool mem p e').ret = 0 →
    (lib.getBool mem p e').p ≤ e → lib.getBool mem p e = lib.getBool mem p e'
  bool_tag : ∀ mem p e e', p < e → e ≤ e' →
    (lib.getBool mem p e').ret = asn1UnexpectedTag → (lib.getBool mem p e).ret = asn1UnexpectedTag
  bool_unexpected : ∀ mem p e,
    (lib.getBool mem p e).ret = asn1UnexpectedTag → (lib.getBool mem p e).p = p
  -- No octet string begins inside a boolean that is cut off.
  bool_cut : ∀ mem p e e', e ≤ e' → (lib.getBool mem p e').ret = 0 →
    e < (lib.getBool mem p e').p → (lib.getTag mem (lib.getBool mem p e).p e tagOctetString).ret ≠ 0

----
-- cert_parse
----

/- An error, or a loop that has not ended in so many rounds. -/
inductive Failure where
  | format
  | loops
deriving DecidableEq, Repr

section Parse

variable (lib : Mbedtls) (mem : Memory UInt8)

/- A call that has to succeed. -/
def expectTag (p e : Nat) (tag : UInt8) : Except Failure (Nat × Nat) :=
  let r := lib.getTag mem p e tag
  if r.ret ≠ 0 then .error .format
  else .ok (r.p, r.len.getD 0)

def skipTag (p e : Nat) (tag : UInt8) : Except Failure Nat :=
  (expectTag lib mem p e tag).map fun r => r.1 + r.2

def skipOptional (p e : Nat) (tag : UInt8) : Except Failure Nat :=
  let r := lib.getTag mem p e tag
  if r.ret ≠ 0 then
    if r.ret ≠ asn1UnexpectedTag then .error .format
    else .ok r.p
  else .ok (r.p + r.len.getD 0)

/- What the check finds of an extension.  None of it is kept. -/
structure Extension where
  start : Nat
  seqEnd : Nat
  id : Asn1Buf
  next : Nat
deriving DecidableEq, Repr

/- The body of the loop over the extensions. -/
def checkExtension (start e : Nat) : Except Failure Extension := do
  let (q, seqLen) ← expectTag lib mem start e tagSequence
  let (o, oidLen) ← expectTag lib mem q e tagOid
  let crit := lib.getBool mem (o + oidLen) e
  if crit.ret ≠ 0 ∧ crit.ret ≠ asn1UnexpectedTag then
    .error .format
  let (d, dataLen) ← expectTag lib mem crit.p e tagOctetString
  return ⟨start, q + seqLen, ⟨mem q, oidLen, o⟩, d + dataLen⟩

def checkExtensions (e : Nat) : Nat → Nat → Except Failure (List Extension × Nat)
  | 0, _ => .error .loops
  | fuel + 1, p =>
    if p < e then do
      let x ← checkExtension lib mem p e
      let (rest, p) ← checkExtensions e fuel x.next
      return (x :: rest, p)
    else
      .ok ([], p)

/- The part of the certificate up to the public key. -/
structure Head where
  crtEnd : Nat
  tbs : Asn1Buf
  sigAlg1 : Asn1Buf
  pk : Asn1Buf
deriving DecidableEq, Repr

def buffer (p e : Nat) : Asn1Buf := ⟨0, e - p, p⟩

def Asn1Buf.stop (buf : Asn1Buf) : Nat := buf.p + buf.len

def parseHead (img imgLen : Nat) : Except Failure Head := do
  let e := img + imgLen
  let (tbsStart, len) ← expectTag lib mem img e tagSequence
  if e - tbsStart < len then
    .error .format
  let crtEnd := tbsStart + len
  let (p, len) ← expectTag lib mem tbsStart e tagSequence
  let e := p + len
  let p ← skipTag lib mem p e (tagContext 0)
  let sigStart ← skipTag lib mem p e tagInteger
  let (p, len) ← expectTag lib mem sigStart e tagSequence
  if e - p < 1 then
    .error .format
  let sigEnd := p + len
  let p ← skipTag lib mem sigEnd e tagSequence
  let p ← skipTag lib mem p e tagSequence
  let pkStart ← skipTag lib mem p e tagSequence
  let pkEnd ← skipTag lib mem pkStart e tagSequence
  .ok
    { crtEnd
      tbs := buffer tbsStart e
      sigAlg1 := buffer sigStart sigEnd
      pk := buffer pkStart pkEnd }

/- The inner sequence, and the extensions gone over. -/
def parseExtensions (head : Head) : Except Failure (Asn1Buf × List Extension × Nat) := do
  let e := head.tbs.stop
  let p ← skipOptional lib mem head.pk.stop e (tagContext 1)
  let p ← skipOptional lib mem p e (tagContext 2)
  let (v3Start, _) ← expectTag lib mem p e (tagContext 3)
  let (p, len) ← expectTag lib mem v3Start e tagSequence
  let v3Ext := buffer v3Start (p + len)
  let (extensions, p) ←
    checkExtensions lib mem e (e - p + 1) p
  if p ≠ e then
    .error .format
  return (v3Ext, extensions, p)

/- The signature, after both algorithms were compared. -/
def parseTail (head : Head) (p : Nat) : Except Failure Asn1Buf := do
  let e := head.crtEnd
  let sigAlg2 := p
  let (p, len) ← expectTag lib mem p e tagSequence
  if e - p < 1 then
    .error .format
  let signature := p + len
  if head.sigAlg1.len ≠ signature - sigAlg2 then
    .error .format
  if mem.slice head.sigAlg1.p head.sigAlg1.len ≠ mem.slice sigAlg2 head.sigAlg1.len then
    .error .format
  let p ← skipTag lib mem signature e tagBitString
  if p ≠ e then
    .error .format
  return buffer signature p

/-
  The static variables after a check that succeeded.  The
  extensions are not kept in the code.
-/
structure Cert where
  tbs : Asn1Buf
  v3Ext : Asn1Buf
  pk : Asn1Buf
  sigAlg : Asn1Buf
  signature : Asn1Buf
  extensions : List Extension
deriving DecidableEq, Repr

def certParse (img imgLen : Nat) : Except Failure Cert := do
  let head ← parseHead lib mem img imgLen
  let (v3Ext, extensions, p) ← parseExtensions lib mem head
  let signature ← parseTail lib mem head p
  .ok
    { tbs := head.tbs
      v3Ext
      pk := head.pk
      sigAlg := head.sigAlg1
      signature
      extensions }

end Parse

----
-- get_ext
----

/-
  A call that the look-up relies on, with the value returned,
  and addresses that may be read.
-/
inductive Event where
  | call (ret : Int)
  | read (lo hi : Nat)
deriving DecidableEq, Repr

inductive Verdict where
  | ok (ext extLen : Nat)
  | err
  | notFound
deriving DecidableEq, Repr

/- The variables that a round of the loop takes over. -/
structure LoopState where
  p : Nat
  len : Nat
deriving DecidableEq, Repr

section Look

variable (lib : Mbedtls) (mem : Memory UInt8) (oid : List UInt8) (e : Nat)

/- A round, which ignores what the calls return. -/
def getExtRound (s : LoopState) : List Event × (Verdict ⊕ LoopState) :=
  let seq := lib.getTag mem s.p e tagSequence
  let len := seq.len.getD s.len
  let endExtData := seq.p + len
  let id := lib.getTag mem seq.p e tagOid
  let extnOid := ⟨mem seq.p, id.len.getD 0, id.p⟩
  let p := extnOid.stop
  let crit := lib.getBool mem p endExtData
  let data := lib.getTag mem crit.p endExtData tagOctetString
  let len := data.len.getD len
  let endExtOctet := data.p + len
  let (oidLen, oidStr) := lib.getNumericString mem extnOid
  ([.read s.p e, .call seq.ret, .read seq.p (seq.p + 1),
      .read seq.p e, .call id.ret, .read p endExtData, .read crit.p endExtData, .call data.ret,
      .read extnOid.p extnOid.stop],
    if oidLen = oidBufTooSmall then .inl .err
    else if oidLen = oidStr.length ∧ oid = oidStr then
      .inl (.ok data.p (len % 2 ^ 32))
    else .inr ⟨endExtOctet, len⟩)

/- The loop, or `none` while it has not ended. -/
def getExtLoop : Nat → LoopState → Option (List Event × Verdict)
  | 0, _ => none
  | fuel + 1, s =>
    if s.p < e then
      match getExtRound lib mem oid e s with
      | (events, .inl verdict) => some (events, verdict)
      | (events, .inr s) =>
        (getExtLoop fuel s).map fun r => (events ++ r.1, r.2)
    else
      some ([], .notFound)

end Look

/- The variable `len` holds nothing before the first call. -/
def getExt (lib : Mbedtls) (mem : Memory UInt8) (v3Ext : Asn1Buf) (oid : List UInt8) (fuel : Nat) :
    Option (List Event × Verdict) :=
  let e := v3Ext.stop
  let seq := lib.getTag mem v3Ext.p e tagSequence
  (getExtLoop lib mem oid e fuel
    ⟨seq.p, seq.len.getD 0⟩).map fun r => (.read v3Ext.p e :: .call seq.ret :: r.1, r.2)

----
-- get_auth_param
----

inductive AuthParamType where
  | rawData
  | hash
  | nvCtr
  | pubKey
  | sigAlg
  | sig
  | other
deriving DecidableEq, Repr

def fromBuf (buf : Asn1Buf) : Verdict :=
  .ok buf.p (buf.len % 2 ^ 32)

/- The cookie is the extension's id, or NULL. -/
def getAuthParam (lib : Mbedtls) (mem : Memory UInt8) (cert : Cert)
    (type : AuthParamType) (cookie : Option (List UInt8)) (fuel : Nat) :
    Option (List Event × Verdict) :=
  match type, cookie with
  | .rawData, _ => some ([], fromBuf cert.tbs)
  | .hash, some oid => getExt lib mem cert.v3Ext oid fuel
  | .nvCtr, some oid => getExt lib mem cert.v3Ext oid fuel
  | .pubKey, some oid => getExt lib mem cert.v3Ext oid fuel
  | .pubKey, none => some ([], fromBuf cert.pk)
  | .sigAlg, _ => some ([], fromBuf cert.sigAlg)
  | .sig, _ => some ([], fromBuf cert.signature)
  | .other, _ => some ([], .notFound)
  -- An id of NULL fails the assertion of `get_ext`.
  | .hash, none => none
  | .nvCtr, none => none

end Tfa.X509
