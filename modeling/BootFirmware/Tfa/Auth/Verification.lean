import BootFirmware.Tfa.Auth.Model

/-
  What a verification changes.

  An image is authenticated only in the end, but a method may
  raise a non-volatile counter before a later one fails, and
  parameters are copied before one that cannot be.

  Key definitions include:
    * `MethodPassed` and `MethodFailed`
    * `ParamCopied`
    * `Unverified` and `Verified`

  The main results are:
    * `authMethod_passed` and `authMethod_failed`
    * `verify_img_state`
    * `verify_img_not_atomic`
-/

----
-- Methods
----

namespace Tfa.Auth

section Methods

variable {P : Type} {hooks : Hooks P} {cot : ChainOfTrust} {imgDesc : AuthImgDesc} {img : Data}
  {mem : Memory UInt8}
  {p q : P}

/- The parameter is in the image. -/
def InImage (hooks : Hooks P) (imgDesc : AuthImgDesc) (img : Data) (typeDesc : AuthParamTypeDesc)
    (d : Data) : Prop :=
  imgParserGetAuthParam hooks imgDesc.imgType typeDesc img = .ok d

/- The parameter is authenticated data of the parent. -/
def InParent
    (cot : ChainOfTrust) (imgDesc : AuthImgDesc) (mem : Memory UInt8) (typeDesc : AuthParamTypeDesc)
    (d : Data) : Prop :=
  ∃ parent, imgDesc.parent = some parent ∧
    ∃ e ∈ (cot parent).authenticatedData, e.typeDesc = some typeDesc ∧ d = e.held mem

def HashPassed
    (hooks : Hooks P) (cot : ChainOfTrust) (imgDesc : AuthImgDesc) (img : Data) (mem : Memory UInt8)
    (data hash : AuthParamTypeDesc) : Prop :=
  ∃ d hashDer, InImage hooks imgDesc img data d ∧ InParent cot imgDesc mem hash hashDer ∧
    hooks.verifyHash d hashDer = 0

/- The key is that of the parent, or that of the platform. -/
def KeyPassed (hooks : Hooks P) (cot : ChainOfTrust) (imgDesc : AuthImgDesc)
    (img : Data) (mem : Memory UInt8) (platform : P) (pk : AuthParamTypeDesc)
    (key : Data) : Prop :=
  InParent cot imgDesc mem pk key ∨ imgDesc.parent = none ∧
      ∃ rotpk flags, hooks.platGetRotpkInfo platform pk.cookie = (0, rotpk, flags) ∧
        if flags &&& (ROTPK_IS_HASH ||| ROTPK_NOT_DEPLOYED) = 0
        then key = rotpk
        else
          InImage hooks imgDesc img pk key ∧
            (flags &&& ROTPK_NOT_DEPLOYED ≠ 0 ∨ hooks.verifyHash key rotpk = 0)

def SignaturePassed (hooks : Hooks P) (cot : ChainOfTrust) (imgDesc : AuthImgDesc)
    (img : Data) (mem : Memory UInt8) (platform : P)
    (pk sig alg data : AuthParamTypeDesc) : Prop :=
  ∃ d s a key, InImage hooks imgDesc img data d ∧ InImage hooks imgDesc img sig s ∧
    InImage hooks imgDesc img alg a ∧ KeyPassed hooks cot imgDesc img mem platform pk key ∧
    hooks.verifySignature d s a key = 0

/- The two counters that are compared. -/
def HasCounters (hooks : Hooks P) (imgDesc : AuthImgDesc) (img : Data) (platform : P)
    (certNvCtr platNvCtr : AuthParamTypeDesc)
    (cert plat : BitVec 32) : Prop :=
  ∃ d, InImage hooks imgDesc img certNvCtr d ∧ derInteger d = some cert ∧
    hooks.platGetNvCtr platform platNvCtr.cookie = (0, plat)

/- The counter of the platform is raised, if it is less. -/
def CounterPassed
    (hooks : Hooks P) (imgDesc : AuthImgDesc) (img : Data) (certNvCtr platNvCtr : AuthParamTypeDesc)
    (p q : P) : Prop :=
  ∃ cert plat, HasCounters hooks imgDesc img p certNvCtr platNvCtr cert plat ∧
    (plat = cert ∧ q = p ∨
      plat < cert ∧ hooks.platSetNvCtr2 p platNvCtr.cookie imgDesc cert = (0, q))

/- The image passes, which may raise a counter. -/
inductive MethodPassed
    (hooks : Hooks P) (cot : ChainOfTrust) (imgDesc : AuthImgDesc) (img : Data)
    (mem : Memory UInt8) : AuthMethodDesc → P → P → Prop
  | none {p : P} : MethodPassed hooks cot imgDesc img mem .none p p
  | hash {p : P} {data hash : AuthParamTypeDesc} :
      HashPassed hooks cot imgDesc img mem data hash →
        MethodPassed hooks cot imgDesc img mem (.hash data hash) p p
  | sig {p : P} {pk sig alg data : AuthParamTypeDesc} :
      SignaturePassed hooks cot imgDesc img mem p pk sig alg data →
        MethodPassed hooks cot imgDesc img mem (.sig pk sig alg data) p p
  | nvCtr {p q : P} {certNvCtr platNvCtr : AuthParamTypeDesc} :
      CounterPassed hooks imgDesc img certNvCtr platNvCtr p q →
        MethodPassed hooks cot imgDesc img mem (.nvCtr certNvCtr platNvCtr) p q

/-
  The platform changes only if it is to raise a counter, and
  reports an error.
-/
def PlatformLeft (hooks : Hooks P) (imgDesc : AuthImgDesc) (img : Data) (method : AuthMethodDesc)
    (p q : P) : Prop :=
  q = p ∨ ∃ certNvCtr platNvCtr cert plat rc, method = .nvCtr certNvCtr platNvCtr ∧
      HasCounters hooks imgDesc img p certNvCtr platNvCtr cert plat ∧ plat < cert ∧ rc ≠ 0 ∧
      hooks.platSetNvCtr2 p platNvCtr.cookie imgDesc cert = (rc, q)

/- The method reports an error for the image. -/
def MethodFailed (hooks : Hooks P) (cot : ChainOfTrust) (imgDesc : AuthImgDesc) (img : Data)
    (mem : Memory UInt8) (method : AuthMethodDesc) (p q : P) : Prop :=
  (∃ e, authMethod hooks cot imgDesc img mem method p = (.error e, q)) ∧
    PlatformLeft hooks imgDesc img method p q

theorem returnIfError_ok {rc : Int} (hOk : returnIfError rc = .ok ()) :
    rc = 0 := by
  unfold returnIfError at hOk
  by_cases hZero : rc = 0
  · exact hZero
  · rw [if_neg hZero] at hOk
    cases hOk

/- What is found is an entry that was looked for. -/
theorem findParam_ok {typeDesc : AuthParamTypeDesc} {entries : List AuthParamDesc} {d : Data}
    (hOk : findParam typeDesc mem entries = .ok d) :
    ∃ e ∈ entries, e.typeDesc = some typeDesc ∧ d = e.held mem := by
  induction entries with
  | nil => cases hOk
  | cons e rest ih =>
    unfold findParam at hOk
    cases hType : e.typeDesc with
    | none =>
      rw [hType] at hOk
      cases hOk
    | some t =>
      rw [hType] at hOk
      simp only at hOk
      split_ifs at hOk with hFound
      · cases hOk
        rw [← hFound]
        exact ⟨e, List.mem_cons_self, hType, rfl⟩
      · rcases ih hOk with ⟨x, hx, hSame⟩
        exact ⟨x, List.mem_cons_of_mem e hx, hSame⟩

/- A computation goes on only after a result. -/
theorem bind_ok {α β : Type} {r : Result α} {f : α → Result β} {b : β} (hOk : r >>= f = .ok b) :
    ∃ a, r = .ok a ∧ f a = .ok b := by
  cases r with
  | error e => cases hOk
  | ok a => exact ⟨a, rfl, hOk⟩

theorem authHash_ok
    {data hash : AuthParamTypeDesc} (hOk : authHash hooks cot data hash imgDesc img mem = .ok ()) :
    HashPassed hooks cot imgDesc img mem data hash := by
  unfold authHash at hOk
  cases hParent : imgDesc.parent with
  | none =>
    rw [hParent] at hOk
    cases hOk
  | some parent =>
    rw [hParent] at hOk
    rcases bind_ok hOk with ⟨hashDer, hFound, hRest⟩
    rcases bind_ok hRest with ⟨d, hData, hVerify⟩
    exact ⟨d, hashDer, hData, ⟨parent, hParent, findParam_ok hFound⟩, returnIfError_ok hVerify⟩

variable {pk : AuthParamTypeDesc} {flags : BitVec 32}

theorem parentKey_ok {key : Data} (hOk : parentKey hooks cot pk imgDesc mem p = .ok (key, flags)) :
    (InParent cot imgDesc mem pk key ∧ flags = 0#32) ∨
      (imgDesc.parent = none ∧ hooks.platGetRotpkInfo p pk.cookie = (0, key, flags)) := by
  unfold parentKey at hOk
  cases hParent : imgDesc.parent with
  | none =>
    rw [hParent] at hOk
    rcases bind_ok hOk with ⟨_, hZero, hKey⟩
    refine .inr ⟨rfl, ?_⟩
    exact Prod.ext (returnIfError_ok hZero) (Except.ok.inj hKey)
  | some parent =>
    rw [hParent] at hOk
    rcases bind_ok hOk with ⟨found, hFound, hKey⟩
    cases Except.ok.inj hKey
    exact .inl ⟨⟨parent, hParent, findParam_ok hFound⟩, rfl⟩

theorem verifyOwnKey_ok
    {d s a pkHash : Data} (hOk : verifyOwnKey hooks pk imgDesc img d s a pkHash flags = .ok ()) :
    ∃ own, InImage hooks imgDesc img pk own ∧ hooks.verifySignature d s a own = 0 ∧
      (flags &&& ROTPK_NOT_DEPLOYED ≠ 0 ∨ hooks.verifyHash own pkHash = 0) := by
  rcases bind_ok hOk with ⟨own, hOwn, hRest⟩
  rcases bind_ok hRest with ⟨_, hVerify, hRest⟩
  refine ⟨own, hOwn, returnIfError_ok hVerify, ?_⟩
  split_ifs at hRest with hDeployed
  · exact .inl hDeployed
  · exact .inr (returnIfError_ok hRest)

theorem authSignature_ok {pk sig alg data : AuthParamTypeDesc}
    (hOk : authSignature hooks cot pk sig alg data imgDesc img mem p = .ok ()) :
    SignaturePassed hooks cot imgDesc img mem p pk sig alg
      data := by
  rcases bind_ok hOk with ⟨d, hData, hRest⟩
  rcases bind_ok hRest with ⟨s, hSig, hRest⟩
  rcases bind_ok hRest with ⟨a, hAlg, hRest⟩
  rcases bind_ok hRest with ⟨⟨key, flags⟩, hKey, hRest⟩
  have hParent := parentKey_ok hKey
  simp only at hRest
  split_ifs at hRest with hFlags
  · -- the image has the key
    rcases verifyOwnKey_ok hRest with ⟨own, hOwn, hVerify, hDeployed⟩
    refine ⟨d, s, a, own, hData, hSig, hAlg, .inr ?_, hVerify⟩
    rcases hParent with ⟨-, rfl⟩ | ⟨hNone, hRotpk⟩
    · exact absurd rfl hFlags
    · refine ⟨hNone, key, flags, hRotpk, ?_⟩
      rw [if_neg hFlags]
      exact ⟨hOwn, hDeployed⟩
  · -- the key is that of the parent or of the platform
    refine ⟨d, s, a, key, hData, hSig, hAlg, ?_, returnIfError_ok hRest⟩
    rcases hParent with ⟨hIn, -⟩ | ⟨hNone, hRotpk⟩
    · exact .inl hIn
    · refine .inr ⟨hNone, key, flags, hRotpk, ?_⟩
      rw [if_pos (not_not.mp hFlags)]

theorem nvCounters_ok {certNvCtr platNvCtr : AuthParamTypeDesc} {cert plat : BitVec 32}
    (hOk : nvCounters hooks certNvCtr platNvCtr imgDesc img p = .ok (cert, plat)) :
    HasCounters hooks imgDesc img p certNvCtr platNvCtr cert
      plat := by
  rcases bind_ok hOk with ⟨d, hData, hRest⟩
  cases hDer : derInteger d with
  | none =>
    rw [hDer] at hRest
    cases hRest
  | some n =>
    rw [hDer] at hRest
    rcases bind_ok hRest with ⟨_, hZero, hBoth⟩
    cases Except.ok.inj hBoth
    exact ⟨d, hData, hDer, Prod.ext (returnIfError_ok hZero) rfl⟩

/- The three outcomes of the counter method. -/
theorem authNvctr_cases (hooks : Hooks P) (imgDesc : AuthImgDesc) (img : Data)
    (certNvCtr platNvCtr : AuthParamTypeDesc) (p : P) :
    let r := authNvctr hooks certNvCtr platNvCtr imgDesc img p
    (r.1 = .ok () → CounterPassed hooks imgDesc img certNvCtr platNvCtr p r.2) ∧
    (r.1 ≠ .ok () → PlatformLeft hooks imgDesc img (.nvCtr certNvCtr platNvCtr) p r.2) := by
  unfold authNvctr
  cases hBoth : nvCounters hooks certNvCtr platNvCtr imgDesc img p with
  | error e => exact ⟨nofun, fun _ => .inl rfl⟩
  | ok counters =>
    rcases counters with ⟨cert, plat⟩
    have hCounters := nvCounters_ok hBoth
    simp only
    split_ifs with hLess hMore
    · exact ⟨nofun, fun _ => .inl rfl⟩
    · -- the counter of the platform is raised
      cases hSet : hooks.platSetNvCtr2 p platNvCtr.cookie imgDesc cert with
      | mk rc q =>
        simp only
        constructor
        · intro hOk
          rw [returnIfError_ok hOk] at hSet
          exact ⟨cert, plat, hCounters, .inr ⟨hMore, hSet⟩⟩
        · intro hError
          refine .inr ⟨certNvCtr, platNvCtr, cert, plat, rc, rfl, hCounters, hMore, ?_, hSet⟩
          rintro rfl
          exact hError rfl
    · have hEq : plat = cert := BitVec.le_antisymm (BitVec.not_lt.mp hLess) (BitVec.not_lt.mp hMore)
      exact ⟨fun _ => ⟨cert, plat, hCounters, .inl ⟨hEq, rfl⟩⟩, fun hError => absurd rfl hError⟩

theorem authMethod_passed (method : AuthMethodDesc) (p q : P)
    (hOk : authMethod hooks cot imgDesc img mem method p = (.ok (), q)) :
    MethodPassed hooks cot imgDesc img mem method p q := by
  cases method with
  | none =>
    cases hOk
    exact .none
  | hash data hash =>
    rcases Prod.mk.inj hOk with ⟨hResult, rfl⟩
    exact .hash (authHash_ok hResult)
  | sig pk sig alg data =>
    rcases Prod.mk.inj hOk with ⟨hResult, rfl⟩
    exact .sig (authSignature_ok hResult)
  | nvCtr certNvCtr platNvCtr =>
    have hCases := (authNvctr_cases hooks imgDesc img certNvCtr platNvCtr p).1
    simp only [authMethod] at hOk
    rw [hOk] at hCases
    exact .nvCtr (hCases rfl)
  | unknown type => cases hOk

theorem authMethod_failed {e : Failure} (method : AuthMethodDesc) (p q : P)
    (hError : authMethod hooks cot imgDesc img mem method p = (.error e, q)) :
    MethodFailed hooks cot imgDesc img mem method p q := by
  refine ⟨⟨e, hError⟩, ?_⟩
  cases method with
  | none => cases hError
  | hash data hash => exact .inl (Prod.mk.inj hError).2.symm
  | sig pk sig alg data => exact .inl (Prod.mk.inj hError).2.symm
  | nvCtr certNvCtr platNvCtr =>
    have hCases := (authNvctr_cases hooks imgDesc img certNvCtr platNvCtr p).2
    simp only [authMethod] at hError
    rw [hError] at hCases
    exact hCases nofun
  | unknown type => exact .inl (Prod.mk.inj hError).2.symm

end Methods

----
-- Parameters
----

section Parameters

variable {P : Type} {hooks : Hooks P} {imgDesc : AuthImgDesc} {img : Data} {mem mem' : Memory UInt8}
  {e : AuthParamDesc}

/- A parameter of the image goes to its buffer. -/
def ParamCopied (hooks : Hooks P) (imgDesc : AuthImgDesc) (img : Data) (e : AuthParamDesc)
    (mem mem' : Memory UInt8) : Prop :=
  (e.typeDesc = none ∧ mem' = mem) ∨
    ∃ t d, e.typeDesc = some t ∧ InImage hooks imgDesc img t d ∧ d.len ≤ e.len ∧
      mem' = mem.write e.ptr d.bytes

/- A parameter that is not there, or has no room. -/
def ParamMissing (hooks : Hooks P) (imgDesc : AuthImgDesc) (img : Data)
    (e : AuthParamDesc) : Prop :=
  ∃ t, e.typeDesc = some t ∧ ∀ d, InImage hooks imgDesc img t d → e.len < d.len

/- A buffer has no bytes of another one. -/
def ApartFrom (e x : AuthParamDesc) : Prop :=
  x.typeDesc = none ∨ e.ptr + e.len ≤ x.ptr ∨ x.ptr + x.len ≤ e.ptr

/- The buffer begins with the parameter of the image. -/
def Extracted (hooks : Hooks P) (imgDesc : AuthImgDesc) (img : Data) (mem : Memory UInt8)
    (e : AuthParamDesc) : Prop :=
  ∀ t, e.typeDesc = some t →
    ∃ d, InImage hooks imgDesc img t d ∧ d.len ≤ e.len ∧ mem.slice e.ptr d.len = d.bytes

theorem Data.length_bytes (d : Data) :
    d.bytes.length = d.len := by
  unfold Data.bytes
  rw [List.length_map, List.length_range]

theorem copyParam_cases (hooks : Hooks P) (imgDesc : AuthImgDesc) (img : Data)
    (e : AuthParamDesc) (mem : Memory UInt8) :
    let r := copyParam hooks imgDesc img e mem
    (r.1 = .ok () → ParamCopied hooks imgDesc img e mem r.2) ∧
    (r.1 ≠ .ok () → ParamMissing hooks imgDesc img e ∧ r.2 = mem) := by
  unfold copyParam
  cases hType : e.typeDesc with
  | none => exact ⟨fun _ => .inl ⟨hType, rfl⟩, fun hError => absurd rfl hError⟩
  | some t =>
    simp only
    cases hParam : imgParserGetAuthParam hooks imgDesc.imgType t img with
    | error failure =>
      refine ⟨nofun, fun _ => ⟨⟨t, hType, ?_⟩, rfl⟩⟩
      intro d hd
      cases hParam.symm.trans hd
    | ok d =>
      simp only
      split_ifs with hLong
      · refine ⟨nofun, fun _ => ⟨⟨t, hType, ?_⟩, rfl⟩⟩
        intro d' hd
        cases hParam.symm.trans hd
        exact hLong
      · exact ⟨fun _ => .inr ⟨t, d, hType, hParam, Nat.not_lt.mp hLong, rfl⟩,
          fun hError => absurd rfl hError⟩

theorem copyParam_error
    {failure : Failure} (hError : copyParam hooks imgDesc img e mem = (.error failure, mem')) :
    ParamMissing hooks imgDesc img e ∧ mem' = mem := by
  have hCases := (copyParam_cases hooks imgDesc img e mem).2
  rw [hError] at hCases
  exact hCases nofun

theorem copyParam_ok (e : AuthParamDesc) (mem mem' : Memory UInt8)
    (hOk : copyParam hooks imgDesc img e mem = (.ok (), mem')) :
    ParamCopied hooks imgDesc img e mem mem' := by
  have hCases := (copyParam_cases hooks imgDesc img e mem).1
  rw [hOk] at hCases
  exact hCases rfl

/- A buffer that is apart keeps what it begins with. -/
theorem ParamCopied.extracted {x : AuthParamDesc}
    (hCopied : ParamCopied hooks imgDesc img x mem mem') (hApart : ApartFrom e x)
    (hBefore : Extracted hooks imgDesc img mem e) :
    Extracted hooks imgDesc img mem' e := by
  intro t hType
  rcases hBefore t hType with ⟨d, hIn, hLen, hSlice⟩
  refine ⟨d, hIn, hLen, ?_⟩
  rcases hCopied with ⟨-, rfl⟩ | ⟨t', d', hType', -, hLen', rfl⟩
  · exact hSlice
  · have hRoom : e.ptr + d.len ≤ x.ptr ∨ x.ptr + d'.bytes.length ≤ e.ptr := by
      rw [Data.length_bytes]
      rcases hApart with hNone | hLow | hHigh
      · rw [hNone] at hType'
        cases hType'
      · exact .inl (by omega)
      · exact .inr (by omega)
    rw [Memory.slice_write_apart hRoom]
    exact hSlice

/- Just after it was copied, the parameter is there. -/
theorem ParamCopied.self (hCopied : ParamCopied hooks imgDesc img e mem mem') :
    Extracted hooks imgDesc img mem' e := by
  intro t hType
  rcases hCopied with ⟨hNone, -⟩ | ⟨t', d, hType', hIn, hLen, rfl⟩
  · rw [hNone] at hType
    cases hType
  · cases hType.symm.trans hType'
    refine ⟨d, hIn, hLen, ?_⟩
    have hSelf := Memory.slice_write_self mem e.ptr d.bytes
    rwa [Data.length_bytes] at hSelf

/- After all were copied, none of the later is in the way. -/
theorem extracted_of_chain
    {before after : List AuthParamDesc} (hChain : Chain (ParamCopied hooks imgDesc img)
      (before ++ e :: after) mem mem')
    (hApart : ∀ x ∈ after, ApartFrom e x) :
    Extracted hooks imgDesc img mem' e := by
  rcases hChain.split with ⟨mid, -, hRest⟩
  cases hRest with
  | cons hCopied hAfter =>
    exact hAfter.keeps
      (fun x hx _ _ hNext hBefore => hNext.extracted (hApart x hx) hBefore)
      hCopied.self

/- Only the buffers of these parameters change. -/
theorem outside_of_chain {entries : List AuthParamDesc} {a : Nat}
    (hChain : Chain (ParamCopied hooks imgDesc img) entries mem mem')
    (hOutside : ∀ x ∈ entries, x.typeDesc ≠ none → a < x.ptr ∨ x.ptr + x.len ≤ a) :
    mem' a = mem a := by
  refine hChain.keeps (I := fun m => m a = mem a) ?_ rfl
  rintro x hx m m' (⟨-, rfl⟩ | ⟨t, d, hType, -, hLen, rfl⟩) hSame
  · exact hSame
  · have hSome : x.typeDesc ≠ none := by
      rw [hType]
      exact nofun
    rw [← hSame]
    rcases hOutside x hx hSome with hLow | hHigh
    · exact Memory.write_of_lt hLow
    · refine Memory.write_of_le ?_
      rw [Data.length_bytes]
      omega

end Parameters

----
-- Verification
----

section Verification

variable {P : Type}

/-
  What a verification leaves that fails: with a method, after
  those before it; or with a parameter, after all methods and
  the parameters before it.
-/
inductive Unverified
    (hooks : Hooks P) (cot : ChainOfTrust) (imgDesc : AuthImgDesc) (img : Data)
    (s : State P) : State P → Prop
  | integrity : imgParserCheckIntegrity hooks imgDesc.imgType img ≠ .ok () →
      Unverified hooks cot imgDesc img s s
  | method {before after : List AuthMethodDesc} {method : AuthMethodDesc} {p q : P} :
      imgDesc.imgAuthMethods = before ++ method :: after →
      Chain (MethodPassed hooks cot imgDesc img s.mem) before s.platform p →
      MethodFailed hooks cot imgDesc img s.mem method p q →
      Unverified hooks cot imgDesc img s { s with platform := q }
  | param {before after : List AuthParamDesc} {e : AuthParamDesc} {p : P} {mem : Memory UInt8} :
      Chain (MethodPassed hooks cot imgDesc img s.mem) imgDesc.imgAuthMethods s.platform p →
      imgDesc.authenticatedData = before ++ e :: after →
      Chain (ParamCopied hooks imgDesc img) before s.mem mem → ParamMissing hooks imgDesc img e →
      Unverified hooks cot imgDesc img s { s with platform := p, mem }

/- What a verification leaves that succeeds. -/
structure Verified
    (hooks : Hooks P) (cot : ChainOfTrust) (imgDesc : AuthImgDesc) (img : Data)
    (s t : State P) : Prop where
  hIntegrity : imgParserCheckIntegrity hooks imgDesc.imgType img = .ok ()
  hMethods : Chain (MethodPassed hooks cot imgDesc img s.mem)
    imgDesc.imgAuthMethods s.platform t.platform
  hParams : Chain (ParamCopied hooks imgDesc img) imgDesc.authenticatedData s.mem t.mem
  hExtracted : ∀ before e after, imgDesc.authenticatedData = before ++ e :: after →
      (∀ x ∈ after, ApartFrom e x) → Extracted hooks imgDesc img t.mem e
  hFlags : t.authImgFlags = Function.update s.authImgFlags imgDesc.imgId
      (s.authImgFlags imgDesc.imgId ||| IMG_FLAG_AUTHENTICATED)

/- The buffers of the other images are left alone. -/
theorem Unverified.outside {hooks : Hooks P} {cot : ChainOfTrust} {imgDesc : AuthImgDesc}
    {img : Data} {s t : State P} {a : Nat} (hUnverified : Unverified hooks cot imgDesc img s t)
    (hOutside : ∀ x ∈ imgDesc.authenticatedData,
      x.typeDesc ≠ none → a < x.ptr ∨ x.ptr + x.len ≤ a) :
    t.mem a = s.mem a := by
  cases hUnverified with
  | integrity _ => rfl
  | method _ _ _ => rfl
  | param _ hData hCopied _ =>
    refine outside_of_chain hCopied fun x hx => ?_
    refine hOutside x ?_
    rw [hData]
    exact List.mem_append_left _ hx

theorem authModVerifyImg_cases
    (hooks : Hooks P) (cot : ChainOfTrust) (imgId : Nat) (img : Data) (s : State P) :
    let r := authModVerifyImg hooks cot imgId img s
    (r.1 ≠ .ok () ∧ Unverified hooks cot (cot imgId) img s r.2 ∧
      r.2.authImgFlags = s.authImgFlags) ∨
    (r.1 = .ok () ∧ Verified hooks cot (cot imgId) img s r.2) := by
  unfold authModVerifyImg
  simp only
  cases hIntegrity : imgParserCheckIntegrity hooks (cot imgId).imgType img with
  | error e =>
    refine .inl ⟨nofun, .integrity ?_, rfl⟩
    rw [hIntegrity]
    exact nofun
  | ok =>
    simp only
    cases hMethods : runChecks (authMethod hooks cot (cot imgId) img s.mem)
        (cot imgId).imgAuthMethods s.platform with
    | mk ret p =>
    cases ret with
    | error e =>
      rcases runChecks_error authMethod_passed hMethods with
        ⟨before, m, after, q, hSplit, hBefore, hFailed⟩
      exact .inl ⟨nofun, .method hSplit hBefore (authMethod_failed m q p hFailed), rfl⟩
    | ok =>
      have hPassed := runChecks_ok authMethod_passed hMethods
      simp only
      cases hParams : runChecks (copyParam hooks (cot imgId) img)
          (cot imgId).authenticatedData s.mem with
      | mk ret mem =>
      cases ret with
      | error e =>
        rcases runChecks_error copyParam_ok hParams with
          ⟨before, x, after, m, hSplit, hBefore, hFailed⟩
        rcases copyParam_error hFailed with ⟨hMissing, rfl⟩
        exact .inl ⟨nofun, .param hPassed hSplit hBefore hMissing, rfl⟩
      | ok =>
        have hCopied := runChecks_ok copyParam_ok hParams
        refine .inr ⟨rfl, hIntegrity, hPassed, hCopied, ?_, rfl⟩
        intro before e after hSplit hApart
        rw [hSplit] at hCopied
        exact extracted_of_chain hCopied hApart

/-
  A verification that fails leaves the flags, the buffers but
  for the parameters that were copied before one that is
  missing, and the counters but for those that a method which
  was reached has raised.  One that succeeds has passed every
  method, and the buffers of the image have its parameters.
-/
theorem verify_img_state
    (hooks : Hooks P) (cot : ChainOfTrust) (imgId : Nat) (img : Data) (s : State P) :
    let r := authModVerifyImg hooks cot imgId img s
    (r.1 ≠ .ok () → r.2.authImgFlags = s.authImgFlags ∧ (∀ a, (∀ x ∈ (cot imgId).authenticatedData,
        x.typeDesc ≠ none → a < x.ptr ∨ x.ptr + x.len ≤ a) → r.2.mem a = s.mem a) ∧
      Unverified hooks cot (cot imgId) img s r.2) ∧
    (r.1 = .ok () → Verified hooks cot (cot imgId) img s r.2) := by
  rcases authModVerifyImg_cases hooks cot imgId img s with
    ⟨hError, hUnverified, hFlags⟩ | ⟨hOk, hVerified⟩
  · refine ⟨fun _ => ⟨hFlags, ?_, hUnverified⟩, fun hOk => absurd hOk hError⟩
    exact fun a hOutside => hUnverified.outside hOutside
  · exact ⟨fun hError => absurd hOk hError, fun _ => hVerified⟩

end Verification

----
-- Failures That Leave A Trace
----

def hashParam (cookie : Nat) : AuthParamTypeDesc :=
  ⟨.hash, cookie⟩

def trustedNvCtr : AuthParamTypeDesc :=
  ⟨.nvCtr, 0⟩

def unusedParam : AuthParamDesc :=
  ⟨none, 0, 0⟩

/- A certificate that nobody has signed. -/
def certificate
    (imgId : Nat) (parent : Option Nat) (methods : List AuthMethodDesc) (data : List AuthParamDesc)
    (hMethods : methods.length = AUTH_METHOD_NUM) (hData : data.length = COT_MAX_VERIFIED_PARAMS) :
    AuthImgDesc where
  imgId := imgId
  imgType := .cert
  parent := parent
  imgAuthMethods := methods
  authenticatedData := data
  hMethods := hMethods
  hData := hData

/-
  There is no parameter with the cookie seven, and no hash
  matches.  The counter of every certificate is five.
-/
def certHooks : Hooks (BitVec 32) where
  checkIntegrity _ _ := 0
  getAuthParam _ t _ :=
    if t = trustedNvCtr then
      (0, ⟨fun i => [2, 1, 5].getD i 0, 3⟩)
    else if t.cookie = 7 then (3, ⟨fun _ => 0, 0⟩)
    else (0, ⟨fun _ => UInt8.ofNat t.cookie, 4⟩)
  verifyHash _ _ := 1
  verifySignature _ _ _ _ := 0
  platGetRotpkInfo _ _ := (0, ⟨fun _ => 0, 0⟩, 0)
  platGetNvCtr p _ := (0, p)
  platSetNvCtr2 _ _ _ ctr := (0, ctr)

/- The second parameter is missing. -/
def missingCert : AuthImgDesc :=
  certificate 0 none [.nvCtr trustedNvCtr trustedNvCtr, .none, .none, .none]
    [⟨hashParam 1, 0, 4⟩, ⟨hashParam 7, 4, 4⟩, unusedParam, unusedParam] rfl rfl

/- The hash is checked after the counter. -/
def hashedCert : AuthImgDesc :=
  certificate 1 (some 0)
    [.nvCtr trustedNvCtr trustedNvCtr, .hash (hashParam 1) (hashParam 1), .none, .none]
    [unusedParam, unusedParam, unusedParam, unusedParam] rfl rfl

/- Two parameters share a buffer. -/
def sharedCert : AuthImgDesc :=
  certificate 2 none [.none, .none, .none, .none]
    [⟨hashParam 1, 0, 4⟩, ⟨hashParam 2, 0, 4⟩, unusedParam, unusedParam] rfl rfl

def certChain : ChainOfTrust
  | 1 => hashedCert
  | 2 => sharedCert
  | _ => missingCert

def certStart : State (BitVec 32) where
  authImgFlags _ := 0
  mem _ := 0
  platform := 0

def certImage : Data :=
  ⟨fun _ => 0, 16⟩

/-
  A parameter is copied and a counter raised, and the next
  parameter is missing; a counter is raised, and the next
  method fails; and a parameter is overwritten by the next.
-/
theorem verify_img_not_atomic : (let r := authModVerifyImg certHooks certChain 0 certImage certStart
    r.1 = .error (.code 3) ∧ r.2.platform ≠ certStart.platform ∧ r.2.mem 0 ≠ certStart.mem 0) ∧
    (let r := authModVerifyImg certHooks certChain 1 certImage certStart
    r.1 = .error (.code 1) ∧ r.2.platform ≠ certStart.platform) ∧
    (let r := authModVerifyImg certHooks certChain 2 certImage certStart
    r.1 = .ok () ∧ ∃ d, InImage certHooks sharedCert certImage (hashParam 1) d ∧
        r.2.mem.slice 0 d.len ≠ d.bytes) := by
  refine ⟨⟨rfl, by decide, by decide⟩, ⟨rfl, by decide⟩, rfl, ⟨fun _ => 1, 4⟩, rfl, by decide⟩

end Tfa.Auth
