import BootFirmware.Lib.Checks
import BootFirmware.Lib.Memory

/-
  The authentication module: an image is checked with the
  methods of its descriptor, and the parameters that its
  children are checked with are copied out of it.

  The image parser, the crypto module and the platform are
  hooks.  The platform has a state of its own, in which its
  non-volatile counters are.

  Key definitions include:
    * `AuthImgDesc` and `Hooks`
    * `authHash`, `authSignature` and `authNvctr`
    * `authModVerifyImg`
-/

----
-- Descriptors
----

namespace Tfa.Auth

def AUTH_METHOD_NUM : Nat := 4

def COT_MAX_VERIFIED_PARAMS : Nat := 4

def IMG_FLAG_AUTHENTICATED : BitVec 32 := 1#32

def ROTPK_IS_HASH : BitVec 32 := 1#32

def ROTPK_NOT_DEPLOYED : BitVec 32 := 2#32

def ASN1_INTEGER : UInt8 := 0x02

inductive ImgType where
  | raw
  | plat
  | cert
deriving DecidableEq, Repr

inductive AuthParamType where
  | none
  | rawData
  | sig
  | sigAlg
  | hash
  | pubKey
  | nvCtr
deriving DecidableEq, Repr

structure AuthParamTypeDesc where
  type : AuthParamType
  cookie : Nat
deriving DecidableEq, Repr

/- `auth_param_desc_t`, with the buffer of the parameter. -/
structure AuthParamDesc where
  typeDesc : Option AuthParamTypeDesc
  ptr : Nat
  len : Nat
deriving DecidableEq, Repr

inductive AuthMethodDesc where
  | none
  | hash (data hash : AuthParamTypeDesc)
  | sig (pk sig alg data : AuthParamTypeDesc)
  | nvCtr (certNvCtr platNvCtr : AuthParamTypeDesc)
  | unknown (type : Nat)
deriving DecidableEq, Repr

/- The parent is an image of the same chain of trust. -/
structure AuthImgDesc where
  imgId : Nat
  imgType : ImgType
  parent : Option Nat
  imgAuthMethods : List AuthMethodDesc
  authenticatedData : List AuthParamDesc
  hMethods : imgAuthMethods.length = AUTH_METHOD_NUM
  hData : authenticatedData.length = COT_MAX_VERIFIED_PARAMS

/- `cot_desc_ptr` -/
abbrev ChainOfTrust := Nat → AuthImgDesc

/-
  What a pointer and a length give.  The bytes after the
  length can be read as well.
-/
structure Data where
  byte : Nat → UInt8
  len : Nat

def Data.bytes (d : Data) : List UInt8 :=
  (List.range d.len).map d.byte

----
-- Hooks
----

structure Hooks (P : Type) where
  checkIntegrity : ImgType → Data → Int
  getAuthParam : ImgType → AuthParamTypeDesc → Data → Int × Data
  verifyHash (data digestInfo : Data) : Int
  verifySignature (data sig sigAlg pk : Data) : Int
  platGetRotpkInfo : P → Nat → Int × Data × BitVec 32
  platGetNvCtr : P → Nat → Int × BitVec 32
  platSetNvCtr2 : P → Nat → AuthImgDesc → BitVec 32 → Int × P

/- `platform` has the non-volatile counters. -/
structure State (P : Type) where
  authImgFlags : Nat → BitVec 32
  mem : Memory UInt8
  platform : P

/- A result that is not zero, or an access to no object. -/
inductive Failure where
  | code (rc : Int)
  | nullPointer
deriving DecidableEq, Repr

abbrev Result := Except Failure

/- `return_if_error` -/
def returnIfError (rc : Int) : Result Unit :=
  if rc = 0 then .ok () else .error (.code rc)

section Functions

variable {P : Type} (hooks : Hooks P) (cot : ChainOfTrust)

/- No integrity checks on raw images. -/
def imgParserCheckIntegrity (imgType : ImgType) (img : Data) : Result Unit :=
  if imgType = .raw then .ok ()
  else returnIfError (hooks.checkIntegrity imgType img)

/- In a raw image there is only the data itself. -/
def imgParserGetAuthParam (imgType : ImgType) (typeDesc : AuthParamTypeDesc)
    (img : Data) : Result Data :=
  if imgType = .raw then .ok img
  else do
    let r := hooks.getAuthParam imgType typeDesc img
    returnIfError r.1
    return r.2

/- What the buffer of a parameter holds. -/
def AuthParamDesc.held (e : AuthParamDesc) (mem : Memory UInt8) : Data where
  byte i := mem (e.ptr + i)
  len := e.len

/- The search reads every entry up to the one it finds. -/
def findParam (typeDesc : AuthParamTypeDesc)
    (mem : Memory UInt8) : List AuthParamDesc → Result Data
  | [] => .error (.code 1)
  | e :: rest =>
    match e.typeDesc with
    | none => .error .nullPointer
    | some t =>
      if t = typeDesc then .ok (e.held mem)
      else findParam typeDesc mem rest

def authGetParam (typeDesc : AuthParamTypeDesc) (imgDesc : AuthImgDesc)
    (mem : Memory UInt8) : Result Data :=
  findParam typeDesc mem imgDesc.authenticatedData

----
-- Methods
----

/- A parent that is not there is no object either. -/
def authHash (data hash : AuthParamTypeDesc) (imgDesc : AuthImgDesc) (img : Data)
    (mem : Memory UInt8) : Result Unit :=
  match imgDesc.parent with
  | none => .error .nullPointer
  | some parent => do
      let hashDer ← authGetParam hash (cot parent) mem
      let d ← imgParserGetAuthParam hooks imgDesc.imgType data img
      returnIfError (hooks.verifyHash d hashDer)

/- The public key, and how the platform has it. -/
def parentKey (pk : AuthParamTypeDesc) (imgDesc : AuthImgDesc) (mem : Memory UInt8)
    (platform : P) : Result (Data × BitVec 32) :=
  match imgDesc.parent with
  | some parent => do
      let key ← authGetParam pk (cot parent) mem
      return (key, 0#32)
  | none => do
      let r := hooks.platGetRotpkInfo platform pk.cookie
      returnIfError r.1
      return r.2

/- The key of the platform is a hash, or is not deployed. -/
def verifyOwnKey (pk : AuthParamTypeDesc) (imgDesc : AuthImgDesc) (img : Data) (d s a pkHash : Data)
    (flags : BitVec 32) : Result Unit := do
  let own ← imgParserGetAuthParam hooks imgDesc.imgType pk img
  returnIfError (hooks.verifySignature d s a own)
  if flags &&& ROTPK_NOT_DEPLOYED ≠ 0 then .ok ()
  else returnIfError (hooks.verifyHash own pkHash)

def authSignature
    (pk sig alg data : AuthParamTypeDesc) (imgDesc : AuthImgDesc) (img : Data) (mem : Memory UInt8)
    (platform : P) : Result Unit := do
  let get := fun t => imgParserGetAuthParam hooks imgDesc.imgType t img
  let d ← get data
  let s ← get sig
  let a ← get alg
  let (key, flags) ← parentKey hooks cot pk imgDesc mem platform
  if flags &&& (ROTPK_IS_HASH ||| ROTPK_NOT_DEPLOYED) ≠ 0 then
    verifyOwnKey hooks pk imgDesc img d s a key flags
  else
    returnIfError (hooks.verifySignature d s a key)

/- The DER encoded integer of up to 32 bits. -/
def derInteger (d : Data) : Option (BitVec 32) :=
  let len := (d.byte 1 &&& 0x7f).toNat
  if d.byte 0 ≠ ASN1_INTEGER then none
  else if d.byte 1 &&& 0x80 ≠ 0 ∨ 4 < len then none
  else if d.byte 2 &&& 0x80 ≠ 0 then none
  else
    some ((List.range len).foldl (fun ctr i => ctr <<< 8 ||| (d.byte (2 + i)).toBitVec.setWidth 32)
      0#32)

/- The counter of the certificate, and that of the platform. -/
def nvCounters (certNvCtr platNvCtr : AuthParamTypeDesc) (imgDesc : AuthImgDesc) (img : Data)
    (platform : P) : Result (BitVec 32 × BitVec 32) := do
  let d ← imgParserGetAuthParam hooks imgDesc.imgType certNvCtr img
  match derInteger d with
  | none => .error (.code 1)
  | some cert =>
    let r := hooks.platGetNvCtr platform platNvCtr.cookie
    returnIfError r.1
    return (cert, r.2)

def authNvctr (certNvCtr platNvCtr : AuthParamTypeDesc) (imgDesc : AuthImgDesc) (img : Data)
    (platform : P) : Result Unit × P :=
  match nvCounters hooks certNvCtr platNvCtr imgDesc img platform with
  | .error e => (.error e, platform)
  | .ok (cert, plat) =>
    if cert < plat then (.error (.code 1), platform)
    else if plat < cert then
      let r := hooks.platSetNvCtr2 platform platNvCtr.cookie imgDesc cert
      (returnIfError r.1, r.2)
    else (.ok (), platform)

/- One of the methods that the descriptor indicates. -/
def authMethod (imgDesc : AuthImgDesc) (img : Data) (mem : Memory UInt8) (method : AuthMethodDesc)
    (platform : P) : Result Unit × P :=
  match method with
  | .none => (.ok (), platform)
  | .hash data hash => (authHash hooks cot data hash imgDesc img mem, platform)
  | .sig pk sig alg data =>
    (authSignature hooks cot pk sig alg data imgDesc img mem platform, platform)
  | .nvCtr certNvCtr platNvCtr =>
    authNvctr hooks certNvCtr platNvCtr imgDesc img platform
  | .unknown _ => (.error (.code 1), platform)

----
-- Verification
----

/- Get a parameter, check its size, and copy it. -/
def copyParam (imgDesc : AuthImgDesc) (img : Data) (e : AuthParamDesc)
    (mem : Memory UInt8) : Result Unit × Memory UInt8 :=
  match e.typeDesc with
  | none => (.ok (), mem)
  | some t =>
    match imgParserGetAuthParam hooks imgDesc.imgType t img with
    | .error failure => (.error failure, mem)
    | .ok d =>
      if e.len < d.len then (.error (.code 1), mem)
      else (.ok (), mem.write e.ptr d.bytes)

def authModVerifyImg (imgId : Nat) (img : Data)
    (s : State P) : Result Unit × State P :=
  let imgDesc := cot imgId
  match imgParserCheckIntegrity hooks imgDesc.imgType img with
  | .error e => (.error e, s)
  | .ok () =>
    let r := runChecks (authMethod hooks cot imgDesc img s.mem) imgDesc.imgAuthMethods s.platform
    let s := { s with platform := r.2 }
    match r.1 with
    | .error e => (.error e, s)
    | .ok () =>
      let r := runChecks (copyParam hooks imgDesc img) imgDesc.authenticatedData s.mem
      let s := { s with mem := r.2 }
      match r.1 with
      | .error e => (.error e, s)
      | .ok () =>
        (.ok (),
          { s with
            authImgFlags :=
              Function.update s.authImgFlags imgDesc.imgId
                (s.authImgFlags imgDesc.imgId ||| IMG_FLAG_AUTHENTICATED) })

end Functions

end Tfa.Auth
