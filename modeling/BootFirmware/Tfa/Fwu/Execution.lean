import BootFirmware.Tfa.Fwu.History

/-
  What runs in the secure world during a firmware update.

  Whenever control goes to the secure world, the image has
  been authenticated and its bytes are the ones that were
  verified, and no assertion of the resume call fails, as
  long as the image that was interrupted is not reset: the
  reset call does not forget it as the one to resume.

  Key definitions include:
    * `FromRunningWorld` and `ResetsSuspended`
    * `HandsOverVerified`
    * `ExecInv`

  The main results are:
    * `fwu_secure_handover`
    * `fwu_reset_then_resume_asserts`
-/

----
-- Handing Over
----

namespace Tfa.Fwu

open Function

/- The calls a secure image makes. -/
def Call.fromSecure : Call → Bool
  | .imageResume _ => true
  | .secImageDone => true
  | _ => false

/-
  The world that runs makes the call, and a secure image
  only gives control back.
-/
def FromRunningWorld (s : State) (l : Smc) : Prop :=
  l.caller = s.world ∧ (l.caller = .secure → l.call.fromSecure = true)

instance (s : State) (l : Smc) : Decidable (FromRunningWorld s l) :=
  inferInstanceAs (Decidable (_ ∧ _))

/-
  A request to reset the interrupted image that the next
  resume call is about.
-/
def ResetsSuspended (s : State) (l : Smc) : Prop :=
  match l.call with
  | .imageReset imageId =>
    l.caller = .nonSecure ∧ imageId % 2 ^ 32 = s.secExecImageId ∧
      (s.image s.secExecImageId).state = .interrupted
  | _ => False

instance (s : State) (l : Smc) : Decidable (ResetsSuspended s l) := by
  unfold ResetsSuspended
  split <;> infer_instance

/-
  Whatever the running world calls next: if that hands over
  to the secure world, the image was authenticated (execute)
  or interrupted (resume) and holds the bytes last verified;
  and no assertion of the resume call fails.
-/
structure HandsOverVerified
    (p : Platform)
    (t : Tracked) : Prop where
  verified :
    ∀ l s' ret, FromRunningWorld t.state l → t.state.bl1FwuSmcHandler p l = .ok (s', ret) →
      l.caller = .nonSecure → s'.world = .secure →
        ∃ d, p.bl1PlatGetImageDesc s'.secExecImageId = some d ∧
          ((∃ imageId, l.call = .imageExecute imageId ∧ s'.secExecImageId = imageId % 2 ^ 32 ∧
              (t.state.image s'.secExecImageId).state = .authenticated) ∨
            (∃ param, l.call = .imageResume param ∧ s'.secExecImageId = t.state.secExecImageId ∧
              (t.state.image s'.secExecImageId).state = .interrupted)) ∧
          t.verified s'.secExecImageId =
            some (s'.readMem d.imageBase (s'.image s'.secExecImageId).imageSize)
  no_assertion :
    ∀ l, FromRunningWorld t.state l → t.state.bl1FwuSmcHandler p l ≠ .error .resumeAssertion

----
-- The Invariant
----

/- Authenticated, and not reset since. -/
def ImageState.Trusted (st : ImageState) : Prop :=
  st = .authenticated ∨ st = .executed ∨ st = .interrupted

/-
  The image to resume runs exactly while the secure world
  does, and is interrupted otherwise.
-/
structure Control (p : Platform) (s : State) : Prop where
  sec_image :
    ∀ d, p.bl1PlatGetImageDesc s.secExecImageId = some d →
      d.security = .secure ∧ d.executable = true ∧ (s.image s.secExecImageId).state =
          if s.world = .secure then .executed
          else .interrupted
  world_secure : s.world = .secure → ∃ d, p.bl1PlatGetImageDesc s.secExecImageId = some d

/-
  Secure images are in use only after a copy, and once they
  have been authenticated memory holds the verified bytes.
-/
structure ExecInv (p : Platform) (t : Tracked) : Prop where
  base : BaseInv p t
  secure_copied :
    ∀ id d, p.bl1PlatGetImageDesc id = some d → d.security = .secure →
      (t.state.image id).state ≠ .reset → t.copied id = true
  copied_size :
    ∀ id, t.copied id = true → (t.state.image id).copiedSize ≤ (t.state.image id).imageSize
  verified_bytes :
    ∀ id d, p.bl1PlatGetImageDesc id = some d → d.security = .secure →
      (t.state.image id).state.Trusted →
        t.verified id = some (t.state.readMem d.imageBase (t.state.image id).imageSize)
  control : Control p t.state

/- A range keeps its bytes when another one is written. -/
theorem State.readMem_writeMem (s : State) {base size start len : Nat} {bytes : Nat → UInt8}
    (hApart : base + size ≤ start ∨ start + len ≤ base) :
    (s.writeMem base size bytes).readMem start len = s.readMem start len := by
  apply List.map_congr_left
  intro i hi
  have hLess : i < len := List.mem_range.mp hi
  show (if base ≤ start + i ∧ start + i < base + size then
    bytes (start + i - base) else s.mem (start + i)) = _
  rw [if_neg]
  omega

namespace Control

variable {p : Platform} {s s' : State}

/- A change to an image that neither runs nor waits. -/
theorem keep {id : Nat} {image : Image}
    (hControl : Control p s) (hImage : s'.image = update s.image id image)
    (hSec : s'.secExecImageId = s.secExecImageId) (hWorld : s'.world = s.world)
    (hIdle : id = s.secExecImageId → p.bl1PlatGetImageDesc s.secExecImageId = none) :
    Control p s' := by
  constructor
  · intro d hDesc
    rw [hSec] at hDesc ⊢
    rw [hWorld]
    have hNe : s.secExecImageId ≠ id := by
      intro hEq
      rw [hIdle hEq.symm] at hDesc
      cases hDesc
    rw [hImage, update_of_ne hNe]
    exact hControl.sec_image d hDesc
  · intro hSecure
    rw [hWorld] at hSecure
    rw [hSec]
    exact hControl.world_secure hSecure

/- The image to resume has one of two states. -/
theorem idle {id : Nat} (hControl : Control p s) (hExecuted : (s.image id).state ≠ .executed)
    (hInterrupted : (s.image id).state ≠ .interrupted) (hSec : id = s.secExecImageId) :
    p.bl1PlatGetImageDesc s.secExecImageId = none := by
  cases hDesc : p.bl1PlatGetImageDesc s.secExecImageId with
  | none => rfl
  | some d =>
    have hState := (hControl.sec_image d hDesc).2.2
    rw [← hSec] at hState
    split at hState
    · exact absurd hState hExecuted
    · exact absurd hState hInterrupted

end Control

namespace ExecInv

variable {p : Platform} {t t' : Tracked}

theorem initial (p : Platform) (mem : Nat → UInt8) :
    ExecInv p (Tracked.initial p mem) := by
  have hReset :
      ∀ id d, p.bl1PlatGetImageDesc id = some d → d.security = .secure →
          ((Tracked.initial p mem).state.image id).state = .reset := by
    intro id d hDesc hSecure
    exact if_neg (BaseInv.ne_next_of_secure hDesc hSecure)
  refine ⟨BaseInv.initial p mem, ?_, ?_, ?_, ?_, ?_⟩
  · intro id d hDesc hSecure hState
    exact absurd (hReset id d hDesc hSecure) hState
  · intro id hCopied
    cases hCopied
  · intro id d hDesc hSecure hTrusted
    rw [hReset id d hDesc hSecure] at hTrusted
    rcases hTrusted with h | h | h <;> cases h
  · intro d hDesc
    have hNone :
        p.bl1PlatGetImageDesc
          (Tracked.initial p mem).state.secExecImageId = none := p.invalid_none
    rw [hNone] at hDesc
    cases hDesc
  · intro hWorld
    cases hWorld

variable {id : Nat} {d : ImageDesc} {l : Smc} {s' : State} {ret : Int}

/- The copied images other than `id` keep their bytes. -/
def OthersKept (p : Platform) (t : Tracked) (s' : State) (id : Nat) :
    Prop :=
  ∀ x d', x ≠ id → t.copied x = true → p.bl1PlatGetImageDesc x = some d' →
      s'.readMem d'.imageBase (t.state.image x).imageSize =
        t.state.readMem d'.imageBase (t.state.image x).imageSize

section

variable (hInv : ExecInv p t)
include hInv

section

variable (hBase : BaseInv p (BaseInv.after p t l s' ret))
  (hDesc : p.bl1PlatGetImageDesc id = some d)
include hBase hDesc

variable {image : Image}

/- One image has changed; the others kept their bytes. -/
theorem put (hImage : s'.image = update t.state.image id image)
    (hOnly : ∀ x, l.call.copies = some x → ret = 0 → x = id)
    (hAuth : ∀ x, l.call.authenticates = some x → ret = 0 → x = id) (hMem : OthersKept p t s' id)
    (hCopied :
      d.security = .secure → image.state ≠ .reset → Tracked.copiedAfter t.copied l s' ret id = true)
    (hSize : Tracked.copiedAfter t.copied l s' ret id = true → image.copiedSize ≤ image.imageSize)
    (hVerified :
      d.security = .secure → image.state.Trusted →
        t.verifiedAfter p l ret id = some (s'.readMem d.imageBase image.imageSize))
    (hControl : Control p s') :
    ExecInv p (BaseInv.after p t l s' ret) := by
  have hSelf : s'.image id = image := by rw [hImage, update_self]
  have hOther : ∀ x, x ≠ id → s'.image x = t.state.image x := by
    intro x hNe
    rw [hImage, update_of_ne hNe]
  have hCopiedOther : ∀ x, x ≠ id → Tracked.copiedAfter t.copied l s' ret x = t.copied x := by
    intro x hNe
    rw [hInv.base.copiedAfter_eq hImage hOnly, update_of_ne hNe]
  have hVerifiedOther : ∀ x, x ≠ id → t.verifiedAfter p l ret x = t.verified x := by
    intro x hNe
    unfold Tracked.verifiedAfter
    rw [if_neg]
    rintro ⟨hCall, hRet⟩
    exact hNe (hAuth x hCall hRet)
  refine ⟨hBase, ?_, ?_, ?_, hControl⟩
  · intro x dx hdx hSecure hState
    change Tracked.copiedAfter t.copied l s' ret x = true
    change (s'.image x).state ≠ .reset at hState
    by_cases hHere : x = id
    · subst hHere
      rw [hDesc] at hdx
      cases hdx
      rw [hSelf] at hState
      exact hCopied hSecure hState
    · rw [hOther x hHere] at hState
      rw [hCopiedOther x hHere]
      exact hInv.secure_copied x dx hdx hSecure hState
  · intro x hx
    change Tracked.copiedAfter t.copied l s' ret x = true at hx
    change (s'.image x).copiedSize ≤ (s'.image x).imageSize
    by_cases hHere : x = id
    · subst hHere
      rw [hSelf]
      exact hSize hx
    · rw [hCopiedOther x hHere] at hx
      rw [hOther x hHere]
      exact hInv.copied_size x hx
  · intro x dx hdx hSecure hTrusted
    change (s'.image x).state.Trusted at hTrusted
    change t.verifiedAfter p l ret x = some (s'.readMem dx.imageBase (s'.image x).imageSize)
    by_cases hHere : x = id
    · subst hHere
      rw [hDesc] at hdx
      cases hdx
      rw [hSelf] at hTrusted ⊢
      exact hVerified hSecure hTrusted
    · rw [hOther x hHere] at hTrusted ⊢
      have hReset : (t.state.image x).state ≠ .reset := by
        rcases hTrusted with h | h | h <;> simp [h]
      have hIn := hInv.secure_copied x dx hdx hSecure hReset
      rw [hVerifiedOther x hHere, hMem x dx hHere hIn hdx]
      exact hInv.verified_bytes x dx hdx hSecure hTrusted

/- An image leaves or stays in the reset state. -/
theorem drop (hImage : s'.image = update t.state.image id image) (hReset : image.state = .reset)
    (hOnly : ∀ x, l.call.copies = some x → ret = 0 → x = id)
    (hAuth : ∀ x, l.call.authenticates = some x → ret = 0 → x = id)
    (hMem : OthersKept p t s' id) (hControl : Control p s') :
    ExecInv p (BaseInv.after p t l s' ret) := by
  refine hInv.put hBase hDesc hImage hOnly hAuth hMem ?_ ?_ ?_ hControl
  · intro _ hState
    exact absurd hReset hState
  · intro hCopied
    rw [hInv.base.copiedAfter_eq hImage hOnly, update_self, if_pos hReset] at hCopied
    cases hCopied
  · intro _ hTrusted
    rw [hReset] at hTrusted
    rcases hTrusted with h | h | h <;> cases h

theorem fail (hImage : s'.image = update t.state.image id image)
    (hReset : image.state = .reset) (hRet : ret ≠ 0) (hMem : OthersKept p t s' id)
    (hSec : s'.secExecImageId = t.state.secExecImageId) (hWorld : s'.world = t.state.world)
    (hExecuted : (t.state.image id).state ≠ .executed)
    (hInterrupted : (t.state.image id).state ≠ .interrupted) :
    ExecInv p (BaseInv.after p t l s' ret) :=
  hInv.drop hBase hDesc hImage hReset (fun _ _ hZero => absurd hZero hRet)
    (fun _ _ hZero => absurd hZero hRet) hMem
    (hInv.control.keep hImage hSec hWorld (hInv.control.idle hExecuted hInterrupted))

theorem run {st : ImageState}
    (hImage : s'.image = update t.state.image id { t.state.image id with state := st })
    (hBefore : (t.state.image id).state.Trusted) (hAfter : st.Trusted)
    (hCopies : l.call.copies = none)
    (hAuth : l.call.authenticates = none) (hMem : s'.mem = t.state.mem) (hControl : Control p s') :
    ExecInv p (BaseInv.after p t l s' ret) := by
  have hRead : ∀ base size, s'.readMem base size = t.state.readMem base size := by
    intro base size
    unfold State.readMem
    rw [hMem]
  have hCopied : Tracked.copiedAfter t.copied l s' ret id = t.copied id := by
    rw [hInv.base.copiedAfter_eq hImage (by simp [hCopies]),
      update_self, if_neg, if_neg (by simp [hCopies])]
    rcases hAfter with h | h | h <;> simp [h]
  refine hInv.put hBase hDesc hImage (by simp [hCopies]) (by simp [hAuth]) ?_ ?_ ?_ ?_ hControl
  · intro x d' _ _ _
    exact hRead _ _
  · intro hSecure _
    rw [hCopied]
    apply hInv.secure_copied id d hDesc hSecure
    rcases hBefore with h | h | h <;> simp [h]
  · intro hIn
    rw [hCopied] at hIn
    exact hInv.copied_size id hIn
  · intro hSecure _
    unfold Tracked.verifiedAfter
    rw [if_neg (by simp [hAuth]), hRead]
    exact hInv.verified_bytes id d hDesc hSecure hBefore

end

theorem refused
    (hCopy : l.call.copies ≠ none → ret ≠ 0) (hAuth : l.call.authenticates ≠ none → ret ≠ 0) :
    ExecInv p (BaseInv.after p t l t.state ret) := by
  have hVerified : t.verifiedAfter p l ret = t.verified := by
    funext x
    unfold Tracked.verifiedAfter
    rw [if_neg]
    rintro ⟨hCall, hRet⟩
    exact hAuth (by simp [hCall]) hRet
  have hSame : BaseInv.after p t l t.state ret = t := by
    unfold BaseInv.after
    rw [hInv.base.copiedAfter_refused hCopy, hVerified]
  rw [hSame]
  exact hInv

end

theorem read_of_apart
    {s : State} {base size start block : Nat} {bytes : Nat → UInt8} {d' : ImageDesc} {x : Nat}
    (hMem : s.mem = t.state.mem)
    (hApart : base + size ≤ d'.imageBase ∨ d'.imageBase + (t.state.image x).imageSize ≤ base)
    (hStart : base ≤ start) (hBlock : start + block ≤ base + size) :
    (s.writeMem start block bytes).readMem d'.imageBase (t.state.image x).imageSize =
      t.state.readMem d'.imageBase (t.state.image x).imageSize := by
  rw [State.readMem_writeMem _ (by omega)]
  unfold State.readMem
  rw [hMem]

/- A copy request authenticates nothing. -/
theorem authenticates_none_of_copies (hCall : l.call.copies = some id) :
    l.call.authenticates = none := by
  cases hKind : l.call <;>
    simp_all [Call.copies, Call.authenticates]

/- A block of an image has been copied. -/
theorem load {image : Image} (hInv : ExecInv p t) (hBase : BaseInv p (BaseInv.after p t l s' 0))
    (hDesc : p.bl1PlatGetImageDesc id = some d) (hImage : s'.image = update t.state.image id image)
    (hState : image.state = .copied ∨ image.state = .copying)
    (hSize : image.copiedSize ≤ image.imageSize)
    (hCall : l.call.copies = some id) (hMem : OthersKept p t s' id) (hControl : Control p s') :
    ExecInv p (BaseInv.after p t l s' 0) := by
  have hNoAuth := authenticates_none_of_copies hCall
  have hOnly : ∀ x, l.call.copies = some x → (0 : Int) = 0 → x = id := by
    intro x hx _
    exact Option.some.inj (hx.symm.trans hCall)
  refine hInv.put hBase hDesc hImage hOnly (by simp [hNoAuth]) hMem ?_ ?_ ?_ hControl
  · intro _ hReset
    rw [hInv.base.copiedAfter_eq hImage hOnly, update_self, if_neg hReset,
      if_pos ⟨hCall, rfl⟩]
  · intro _
    exact hSize
  · intro _ hTrusted
    unfold ImageState.Trusted at hTrusted
    rcases hState with h | h <;> simp [h] at hTrusted

theorem caller_of_authenticates
    (hWorld : FromRunningWorld t.state l) (hCall : l.call.authenticates = some id) :
    l.caller = .nonSecure := by
  apply l.caller.eq_nonSecure
  intro hSecure
  have hKind := hWorld.2 hSecure
  cases hCase : l.call <;>
    simp_all [Call.fromSecure, Call.authenticates]

theorem idle_of_reset (hInv : ExecInv p t) (hKeeps : ¬ ResetsSuspended t.state l)
    (hExecuted : (t.state.image id).state ≠ .executed) (hCaller : l.caller = .nonSecure)
    (hCall : ∃ imageId, l.call = .imageReset imageId ∧ id = imageId % 2 ^ 32)
    (hSec : id = t.state.secExecImageId) :
    p.bl1PlatGetImageDesc t.state.secExecImageId = none := by
  rcases hCall with ⟨imageId, hCall, hId⟩
  apply hInv.control.idle hExecuted ?_ hSec
  intro hInterrupted
  apply hKeeps
  unfold ResetsSuspended
  rw [hCall]
  exact ⟨hCaller, hId.symm.trans hSec, hSec ▸ hInterrupted⟩

/- Every admitted effect keeps the invariant. -/
theorem effect (hInv : ExecInv p t) (hWorld : FromRunningWorld t.state l)
    (hKeeps : ¬ ResetsSuspended t.state l) (hEffect : Effect p t.state l s' ret) :
    ExecInv p (BaseInv.after p t l s' ret) := by
  have hBase := hInv.base.effect hEffect
  cases hEffect with
  | refused ret hCopy hAuth => exact hInv.refused hCopy hAuth
  | recorded id d image ret hDesc hSecure hBefore hAfter hRet =>
    exact hInv.fail hBase hDesc rfl hAfter hRet (fun x d' _ _ _ => rfl) rfl rfl (by simp [hBefore])
      (by simp [hBefore])
  | preLoadFailed id d image size ids hStart hFits hMem hPre hAdd hAfter =>
    rcases startsLoad_iff hStart with ⟨hDesc, -, hBefore, -⟩
    have hRet : (-eperm : Int) ≠ 0 := by decide
    exact hInv.fail hBase hDesc rfl hAfter hRet (fun x d' _ _ _ => rfl) rfl rfl (by simp [hBefore])
      (by simp [hBefore])
  | loaded id d size block ids hStart hFits hAdd hCall hBlock =>
    rcases startsLoad_iff hStart with ⟨hDesc, -, hBefore, hSize, hMax, -⟩
    refine hInv.load hBase hDesc rfl ?_ hBlock hCall ?_ ?_
    · split <;> simp
    · intro x d' hNe hCopied hDesc'
      have hApart := hInv.base.apart_of_fits hDesc hSize hMax hFits hNe hCopied hDesc'
      exact read_of_apart rfl hApart (Nat.le_refl _) (by omega)
    · exact hInv.control.keep rfl rfl rfl
        (hInv.control.idle (by simp [hBefore]) (by simp [hBefore]))
  | continued id d block ids hDesc hSecure hBefore hAdd hCall hBlock =>
    have hHere := hInv.base.loading id (Or.inl hBefore)
    refine hInv.load hBase hDesc rfl ?_ hBlock hCall ?_ ?_
    · split <;> simp
    · intro x d' hNe hCopied hDesc'
      have hApart := hInv.base.copied_apart id x d d' (Ne.symm hNe) hHere hCopied hDesc hDesc'
      exact read_of_apart rfl hApart (by omega) (by omega)
    · exact hInv.control.keep rfl rfl rfl
        (hInv.control.idle (by simp [hBefore]) (by simp [hBefore]))
  | authFailedInPlace id d size ids hDesc hBefore hAdd =>
    have hRet : (-eauth : Int) ≠ 0 := by decide
    exact hInv.fail hBase hDesc rfl (by exact hBefore) hRet
      (fun x d' _ _ _ => rfl) rfl rfl (by simp [hBefore])
      (by simp [hBefore])
  | authInPlace id d size ids hDesc hBefore hOrigin hAdd hCall =>
    have hCaller := caller_of_authenticates hWorld hCall
    have hNonSecure : d.security = .nonSecure := by
      rcases hOrigin with hSecure | hKind
      · rw [hCaller] at hSecure
        cases hSecure
      · exact hKind
    have hCopies := BaseInv.copies_none_of_authenticates hCall
    refine hInv.put hBase hDesc rfl (by simp [hCopies]) ?_ ?_
      ?_ ?_ ?_ ?_
    · intro x hx _
      exact Option.some.inj (hx.symm.trans hCall)
    · intro x d' _ _ _
      rfl
    · intro hSecure
      rw [hNonSecure] at hSecure
      cases hSecure
    · intro hCopied
      rw [hInv.base.copiedAfter_eq rfl (by simp [hCopies]), update_self, if_neg (by simp),
        if_neg (by simp [hCopies])] at hCopied
      exact absurd hBefore (hInv.base.copied_image id hCopied).1
    · intro hSecure
      rw [hNonSecure] at hSecure
      cases hSecure
    · exact hInv.control.keep rfl rfl rfl
        (hInv.control.idle (by simp [hBefore]) (by simp [hBefore]))
  | authFailed id d hDesc hBefore =>
    have hHere := hInv.base.loading id (Or.inr hBefore)
    have hRet : (-eauth : Int) ≠ 0 := by decide
    refine hInv.fail hBase hDesc rfl rfl hRet ?_ rfl rfl (by simp [hBefore]) (by simp [hBefore])
    intro x d' hNe hCopied hDesc'
    have hApart := hInv.base.copied_apart id x d d' (Ne.symm hNe) hHere hCopied hDesc hDesc'
    exact read_of_apart rfl hApart (Nat.le_refl _) (Nat.le_refl _)
  | authCopied id d hDesc hBefore hCall =>
    have hHere := hInv.base.loading id (Or.inr hBefore)
    have hCopies := BaseInv.copies_none_of_authenticates hCall
    have hCopied :
        Tracked.copiedAfter t.copied l
          (t.state.put id { t.state.image id with state := .authenticated }
            t.state.loadedIds) 0 id = true := by
      rw [hInv.base.copiedAfter_eq rfl (by simp [hCopies]), update_self, if_neg (by simp),
        if_neg (by simp [hCopies]), hHere]
    refine hInv.put hBase hDesc rfl (by simp [hCopies]) ?_ ?_ (fun _ _ => hCopied) ?_ ?_ ?_
    · intro x hx _
      exact Option.some.inj (hx.symm.trans hCall)
    · intro x d' _ _ _
      rfl
    · intro _
      exact hInv.copied_size id hHere
    -- what was verified is what was copied
    · intro _ _
      unfold Tracked.verifiedAfter State.authBytes
      rw [if_pos ⟨hCall, rfl⟩, hDesc, Option.map_some, if_pos hBefore]
      rfl
    · exact hInv.control.keep rfl rfl rfl
        (hInv.control.idle (by simp [hBefore]) (by simp [hBefore]))
  | executed id d hDesc hSecure hExecutable hBefore hCaller hCall =>
    rcases hCall with ⟨imageId, hCall, -⟩
    refine hInv.run hBase hDesc rfl (Or.inl hBefore)
      (Or.inr (Or.inl rfl)) (by simp [hCall, Call.copies])
      (by simp [hCall, Call.authenticates]) rfl ?_
    constructor
    · intro d' hDesc'
      cases hDesc.symm.trans hDesc'
      refine ⟨hSecure, hExecutable, ?_⟩
      simp [State.put]
    · intro _
      exact ⟨d, hDesc⟩
  | resumed d param hDesc hSecure hExecutable hBefore hCaller hCall =>
    refine hInv.run hBase hDesc rfl (Or.inr (Or.inr hBefore)) (Or.inr (Or.inl rfl))
      (by simp [hCall, Call.copies])
      (by simp [hCall, Call.authenticates]) rfl ?_
    constructor
    · intro d' hDesc'
      cases hDesc.symm.trans hDesc'
      refine ⟨hSecure, hExecutable, ?_⟩
      simp [State.put]
    · intro _
      exact ⟨d, hDesc⟩
  | yielded d param hDesc hSecure hExecutable hBefore hCaller hCall =>
    refine hInv.run hBase hDesc rfl (Or.inr (Or.inl hBefore)) (Or.inr (Or.inr rfl))
      (by simp [hCall, Call.copies])
      (by simp [hCall, Call.authenticates]) rfl ?_
    constructor
    · intro d' hDesc'
      cases hDesc.symm.trans hDesc'
      refine ⟨hSecure, hExecutable, ?_⟩
      simp [State.put]
    · intro hRun
      cases hRun
  | done d ids hDesc hSecure hBefore hRemove hCaller hCall =>
    refine hInv.drop hBase hDesc rfl rfl (by simp [hCall, Call.copies])
      (by simp [hCall, Call.authenticates]) ?_ ?_
    · intro x d' _ _ _
      rfl
    · constructor
      · intro d' hDesc'
        cases p.invalid_none.symm.trans hDesc'
      · intro hRun
        cases hRun
  | reset id d ids hDesc hBefore hRemove hSecure hCaller hCall =>
    have hIdle := hInv.idle_of_reset hKeeps hBefore.2 hCaller hCall
    rcases hCall with ⟨imageId, hCall, -⟩
    refine hInv.drop hBase hDesc rfl rfl (by simp [hCall, Call.copies])
      (by simp [hCall, Call.authenticates]) ?_
      (hInv.control.keep rfl rfl rfl hIdle)
    intro x d' hNe hCopied hDesc'
    by_cases hZero : (t.state.image id).copiedSize = 0
    · rw [hZero, State.zeroNormalmem, State.writeMem_zero]
      rfl
    · have hHere := hInv.secure_copied id d hDesc (hSecure hZero) hBefore.1
      have hLess := hInv.copied_size id hHere
      have hApart := hInv.base.copied_apart id x d d' (Ne.symm hNe) hHere hCopied hDesc hDesc'
      exact read_of_apart rfl hApart (Nat.le_refl _) (by omega)

theorem step (hInv : ExecInv p t) (hWorld : FromRunningWorld t.state l)
    (hKeeps : ¬ ResetsSuspended t.state l) (hStep : t.step p l = some t') :
    ExecInv p t' := by
  rcases BaseInv.effect_of_step hStep with ⟨s', ret, -, hEffect, rfl⟩
  exact hInv.effect hWorld hKeeps hEffect

/- The invariant holds in every admitted run. -/
theorem reachable {mem : Nat → UInt8}
    (hReach :
      (TransitionSystem.ofStep (Tracked.initial p mem)
        (Tracked.step p)).ReachableBy
          (fun t l => FromRunningWorld t.state l ∧ ¬ ResetsSuspended t.state l) t) :
    ExecInv p t := by
  refine hReach.invariant ?_ ?_
  · rintro s rfl
    exact initial p mem
  · intro s l s' hInv hOk hStep
    exact hInv.step hOk.1 hOk.2 hStep

----
-- Control Of The Secure World
----

/- What hands over to the secure world. -/
theorem verified_of_effect
    (hInv : ExecInv p t) (hWorld : FromRunningWorld t.state l) (hEffect : Effect p t.state l s' ret)
    (hCaller : l.caller = .nonSecure) (hAfter : s'.world = .secure) :
    ∃ d, p.bl1PlatGetImageDesc s'.secExecImageId = some d ∧
      ((∃ imageId, l.call = .imageExecute imageId ∧ s'.secExecImageId = imageId % 2 ^ 32 ∧
          (t.state.image s'.secExecImageId).state = .authenticated) ∨
        (∃ param, l.call = .imageResume param ∧ s'.secExecImageId = t.state.secExecImageId ∧
          (t.state.image s'.secExecImageId).state = .interrupted)) ∧
      t.verified s'.secExecImageId =
        some (s'.readMem d.imageBase (s'.image s'.secExecImageId).imageSize) := by
  have hBefore : t.state.world = .nonSecure := hWorld.1.symm.trans hCaller
  have hStays : t.state.world ≠ .secure := by simp [hBefore]
  cases hEffect with
  | executed id d hDesc hSecure hExecutable hState hFrom hCall =>
    rcases hCall with ⟨imageId, hCall, hId⟩
    refine ⟨d, hDesc, Or.inl ⟨imageId, hCall, hId, hState⟩, ?_⟩
    have hVerified := hInv.verified_bytes id d hDesc hSecure (Or.inl hState)
    rw [hVerified]
    simp [State.put, State.readMem]
  | resumed d param hDesc hSecure hExecutable hState hFrom hCall =>
    refine ⟨d, hDesc, Or.inr ⟨_, hCall, rfl, hState⟩, ?_⟩
    have hVerified := hInv.verified_bytes _ d hDesc hSecure (Or.inr (Or.inr hState))
    refine hVerified.trans ?_
    simp [State.put, State.readMem]
  | yielded d param hDesc hSecure hExecutable hState hFrom hCall => cases hAfter
  | done d ids hDesc hSecure hState hRemove hFrom hCall => cases hAfter
  | refused | recorded | preLoadFailed | loaded | continued
  | authFailedInPlace | authInPlace | authFailed | authCopied
  | reset => exact absurd hAfter hStays

theorem resume_of_assertion {s : State} (hFail : s.bl1FwuSmcHandler p l = .error .resumeAssertion) :
    ∃ param, l.call = .imageResume param ∧
      s.bl1FwuImageResume p l.caller param = .error .resumeAssertion := by
  unfold State.bl1FwuSmcHandler at hFail
  split at hFail
  case h_1 hCall =>
    simp only [State.bl1FwuImageCopy] at hFail
    repeat' split at hFail
    all_goals first | cases hFail | skip
    · exact absurd hFail copyBlock_ne_error
    · cases fitsBeside_error (startCopy_error_iff.mp hFail)
  case h_2 hCall =>
    simp only [State.bl1FwuImageAuth, State.finishAuth] at hFail
    repeat' split at hFail
    all_goals cases hFail
  case h_3 hCall =>
    simp only [State.bl1FwuImageExecute] at hFail
    repeat' split at hFail
    all_goals cases hFail
  case h_4 param hCall => exact ⟨param, hCall, hFail⟩
  case h_5 hCall =>
    simp only [State.bl1FwuSecImageDone] at hFail
    repeat' split at hFail
    all_goals cases hFail
  case h_6 hCall =>
    simp only [State.bl1FwuImageReset] at hFail
    repeat' split at hFail
    all_goals cases hFail

theorem no_assertion (hInv : ExecInv p t) (hWorld : FromRunningWorld t.state l) :
    t.state.bl1FwuSmcHandler p l ≠ .error .resumeAssertion := by
  intro hFail
  rcases resume_of_assertion hFail with ⟨param, -, hResume⟩
  unfold State.bl1FwuImageResume at hResume
  cases hDesc : p.bl1PlatGetImageDesc t.state.secExecImageId with
  | none =>
    cases hCaller : l.caller with
    | nonSecure =>
      simp only [hDesc, hCaller] at hResume
      cases hResume
    | secure =>
      have hRuns : t.state.world = .secure := hWorld.1.symm.trans hCaller
      rcases hInv.control.world_secure hRuns with ⟨d, hSome⟩
      rw [hDesc] at hSome
      cases hSome
  | some d =>
    rcases hInv.control.sec_image d hDesc with ⟨hSecure, hExecutable, hState⟩
    simp only [hDesc] at hResume
    rw [if_neg (by simp [hSecure, hExecutable])] at hResume
    cases hCaller : l.caller with
    | secure =>
      have hRuns : t.state.world = .secure := hWorld.1.symm.trans hCaller
      rw [if_pos hRuns] at hState
      simp only [hCaller] at hResume
      rw [if_neg (by simp [hState])] at hResume
      cases hResume
    | nonSecure =>
      have hRuns : t.state.world = .nonSecure := hWorld.1.symm.trans hCaller
      rw [if_neg (by simp [hRuns])] at hState
      simp only [hCaller] at hResume
      rw [if_neg (by simp [hState])] at hResume
      cases hResume

theorem handsOverVerified (hInv : ExecInv p t) :
    HandsOverVerified p t := by
  constructor
  · intro l s' ret hWorld hRun hCaller hAfter
    exact hInv.verified_of_effect hWorld (effect_of_handler hRun) hCaller hAfter
  · intro l hWorld
    exact hInv.no_assertion hWorld

/-
  A reset of the interrupted image is done, and leaves it as
  the one to resume.
-/
theorem step_of_resets_suspended (hInv : ExecInv p t) (hWorld : FromRunningWorld t.state l)
    (hResets : ResetsSuspended t.state l) :
    ∃ t', t.step p l = some t' ∧ ¬ HandsOverVerified p t' := by
  unfold ResetsSuspended at hResets
  split at hResets
  case h_2 => cases hResets
  rename_i imageId hCall
  rcases hResets with ⟨hCaller, hId, hState⟩
  rcases hInv.base.valid t.state.secExecImageId (by simp [hState]) with ⟨d, hDesc⟩
  rcases hInv.control.sec_image d hDesc with ⟨hSecure, hExecutable, -⟩
  have hListed :=
    hInv.base.listed t.state.secExecImageId (hInv.base.ne_next_of_state (by simp [hState]))
      (by simp [hState])
  rcases removeLoadedId_isSome hListed with ⟨ids, hRemove⟩
  have hRun :
      ∃ s', t.state.bl1FwuSmcHandler p l = .ok (s', 0) ∧
        s'.secExecImageId = t.state.secExecImageId ∧ s'.world = t.state.world ∧
        (s'.image s'.secExecImageId).state = .reset := by
    simp only [State.bl1FwuSmcHandler, hCall, State.bl1FwuImageReset, hId, hDesc, hCaller, hState,
      hRemove]
    rw [if_neg (by simp [hSecure])]
    refine ⟨_, rfl, ?_, ?_, ?_⟩
    · split <;> rfl
    · split <;> rfl
    · split <;> simp [State.setImage, State.zeroNormalmem, State.writeMem]
  rcases hRun with ⟨s', hRun, hSec, hStays, hReset⟩
  refine ⟨BaseInv.after p t l s' 0, ?_, ?_⟩
  · unfold Tracked.step
    rw [hRun]
    rfl
  -- the next resume call is about an image in reset state
  · intro hSafe
    let resume : Smc :=
      { caller := .nonSecure
        call := .imageResume 0
        env := l.env }
    apply hSafe.no_assertion resume
    · refine ⟨?_, ?_⟩
      · show World.nonSecure = s'.world
        rw [hStays, ← hWorld.1, hCaller]
      · intro hNever
        cases hNever
    · show s'.bl1FwuImageResume p .nonSecure 0 = _
      unfold State.bl1FwuImageResume
      have hDesc' : p.bl1PlatGetImageDesc s'.secExecImageId = some d := by
        rw [hSec]
        exact hDesc
      simp only [hDesc']
      rw [if_neg (by simp [hSecure, hExecutable]), if_pos (by simp [hReset])]

end ExecInv

/-
  In every run whose callers are the running worlds and in
  which the interrupted image is not reset, only verified
  images get control of the secure world and no assertion of
  the resume call fails.  From each state of such a run,
  exactly the calls that reset the interrupted image break
  this.
-/
theorem fwu_secure_handover (p : Platform) (mem : Nat → UInt8) (t : Tracked)
    (hReach :
      (TransitionSystem.ofStep (Tracked.initial p mem)
        (Tracked.step p)).ReachableBy
          (fun t l => FromRunningWorld t.state l ∧ ¬ ResetsSuspended t.state l) t) :
    HandsOverVerified p t ∧ ∀ l, FromRunningWorld t.state l →
        ((∀ t', t.step p l = some t' → HandsOverVerified p t') ↔ ¬ ResetsSuspended t.state l) := by
  have hInv := ExecInv.reachable hReach
  refine ⟨hInv.handsOverVerified, ?_⟩
  intro l hWorld
  constructor
  · intro hSafe hResets
    rcases hInv.step_of_resets_suspended hWorld hResets with ⟨t', hStep, hUnsafe⟩
    exact hUnsafe (hSafe t' hStep)
  · intro hKeeps t' hStep
    exact (hInv.step hWorld hKeeps hStep).handsOverVerified

/- An image is interrupted, and its bytes were verified. -/
theorem fwu_secure_handover_interrupted :
    ∃ t : Tracked, (TransitionSystem.ofStep (Tracked.initial twoImages (fun _ => 0))
        (Tracked.step twoImages)).ReachableBy
          (fun t l => FromRunningWorld t.state l ∧ ¬ ResetsSuspended t.state l) t ∧
      ((t.state.image 1).state = .interrupted ∧ t.state.secExecImageId = 1 ∧
        t.verified 1 = some (List.replicate 0x10 7)) ∧
      HandsOverVerified twoImages t := by
  rcases TransitionSystem.exists_reachableBy (Tracked.step twoImages)
    (fun t l => FromRunningWorld t.state l ∧ ¬ ResetsSuspended t.state l)
    (Tracked.initial twoImages (fun _ => 0))
    [copyWhole 1 0x10 true, fromNonSecure (.imageAuth 1 0 0), fromNonSecure (.imageExecute 1),
      fromSecureImage (.imageResume 0)]
    (fun t => (t.state.image 1).state = .interrupted ∧ t.state.secExecImageId = 1 ∧
      t.verified 1 = some (List.replicate 0x10 7))
    (by decide +kernel) with ⟨t, hReach, hFacts⟩
  exact ⟨t, hReach, hFacts, (fwu_secure_handover twoImages (fun _ => 0) t hReach).1⟩

/-
  An image that was interrupted is reset, and resuming it
  then fails an assertion.
-/
theorem fwu_reset_then_resume_asserts :
    ∃ t : Tracked, (TransitionSystem.ofStep (Tracked.initial twoImages (fun _ => 0))
        (Tracked.step twoImages)).ReachableBy (fun t l => FromRunningWorld t.state l) t ∧
      FromRunningWorld t.state (fromNonSecure (.imageResume 0)) ∧ t.state.bl1FwuSmcHandler twoImages
        (fromNonSecure (.imageResume 0)) = .error .resumeAssertion := by
  rcases TransitionSystem.exists_reachableBy (Tracked.step twoImages)
    (fun t l => FromRunningWorld t.state l) (Tracked.initial twoImages (fun _ => 0))
    [copyWhole 1 0x10 true, fromNonSecure (.imageAuth 1 0 0), fromNonSecure (.imageExecute 1),
      fromSecureImage (.imageResume 0), fromNonSecure (.imageReset 1)]
    (fun t => FromRunningWorld t.state (fromNonSecure (.imageResume 0)) ∧
      t.state.bl1FwuSmcHandler twoImages
        (fromNonSecure (.imageResume 0)) matches .error .resumeAssertion)
    (by decide +kernel) with ⟨t, hReach, hWorld, hFault⟩
  refine ⟨t, hReach, hWorld, ?_⟩
  revert hFault
  cases hRun : t.state.bl1FwuSmcHandler twoImages (fromNonSecure (.imageResume 0)) with
  | error fault => cases fault <;> simp
  | ok done => simp

end Tfa.Fwu
