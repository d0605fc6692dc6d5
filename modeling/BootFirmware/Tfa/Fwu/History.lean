import BootFirmware.Tfa.Fwu.Model

/-
  Runs of the firmware update service with their history:
  which images have been copied since they were last reset,
  and which bytes of each image were last verified.

  `Effect` says once what a call that returns can do.  The
  invariant `BaseInv` holds in every run whatever the worlds
  call and the hooks answer.

  Key definitions include:
    * `Tracked` and `Tracked.step`
    * `Effect`
    * `BaseInv`

  The main results are:
    * `effect_of_handler`
    * `BaseInv.step`
-/

----
-- Tracked Runs
----

namespace Tfa.Fwu

open Function List

namespace Call

/- The image a copy request is about. -/
def copies : Call → Option Nat
  | .imageCopy imageId _ _ _ => some (imageId % 2 ^ 32)
  | _ => none

/- The image an authentication request is about. -/
def authenticates : Call → Option Nat
  | .imageAuth imageId _ _ => some (imageId % 2 ^ 32)
  | _ => none

/- The size given with an authentication request. -/
def authSize : Call → Nat
  | .imageAuth _ _ imageSize => imageSize % 2 ^ 32
  | _ => 0

end Call

/- A state together with what happened before. -/
structure Tracked where
  state : State
  copied : Nat → Bool
  verified : Nat → Option (List UInt8)

namespace Tracked

/- Images copied and not reset since. -/
def copiedAfter (copied : Nat → Bool) (l : Smc) (s' : State)
    (ret : Int) : Nat → Bool :=
  fun id =>
    if (s'.image id).state = .reset then false
    else if l.call.copies = some id ∧ ret = 0 then true
    else copied id

/- The bytes of each image that were last verified. -/
def verifiedAfter (p : Platform) (t : Tracked) (l : Smc)
    (ret : Int) : Nat → Option (List UInt8) :=
  fun id =>
    if l.call.authenticates = some id ∧ ret = 0 then
      (p.bl1PlatGetImageDesc id).map fun d => t.state.authBytes l.env id d.imageBase l.call.authSize
    else
      t.verified id

/- An SMC that returns. -/
def step (p : Platform) (t : Tracked)
    (l : Smc) : Option Tracked :=
  match t.state.bl1FwuSmcHandler p l with
  | .error _ => none
  | .ok (s', ret) =>
    some
      { state := s'
        copied := copiedAfter t.copied l s' ret
        verified := t.verifiedAfter p l ret }

/- The start of an update. -/
def initial (p : Platform) (mem : Nat → UInt8) : Tracked where
  state := p.initial mem
  copied := fun _ => false
  verified := fun _ => none

end Tracked

----
-- The List Of Loaded Images
----

variable {ids ids' : List Nat}

/- Overwriting a slot moves one occurrence. -/
theorem count_replaceFirst
    {old new : Nat} (hReplace : replaceFirst old new ids = some ids') (hNe : old ≠ new) (id : Nat) :
    ids'.count id =
      if id = old then ids.count id - 1
      else if id = new then ids.count id + 1
      else ids.count id := by
  induction ids generalizing ids' with
  | nil => cases hReplace
  | cons x rest ih =>
    unfold replaceFirst at hReplace
    split at hReplace
    · rename_i hHere
      subst hHere
      cases hReplace
      grind
    · rename_i hHere
      rcases Option.map_eq_some_iff.mp hReplace with ⟨rest', hRest, rfl⟩
      have hCount : x = id → id = old → False := by
        intro hx hOld
        exact hHere (hx.trans hOld)
      grind

variable {ids : List Nat}

/- A value that occurs can be overwritten. -/
theorem replaceFirst_isSome {old new : Nat} (hMem : old ∈ ids) :
    ∃ ids', replaceFirst old new ids = some ids' := by
  induction ids with
  | nil => cases hMem
  | cons x rest ih =>
    by_cases hHere : x = old
    · exact ⟨new :: rest, if_pos hHere⟩
    · have hRest : old ∈ rest := by
        rcases mem_cons.mp hMem with hEq | hIn
        · exact absurd hEq.symm hHere
        · exact hIn
      rcases ih hRest with ⟨rest', hReplace⟩
      refine ⟨x :: rest', ?_⟩
      simp [replaceFirst, hHere, hReplace]

variable {imageId : Nat}

/- A listed image can be removed. -/
theorem removeLoadedId_isSome (hMem : imageId ∈ ids) :
    ∃ ids', bl1FwuRemoveLoadedId ids imageId = some ids' :=
  replaceFirst_isSome hMem

/- Adding an image lists it once more at most. -/
theorem count_addLoadedId
    (hAdd : bl1FwuAddLoadedId ids imageId = some ids') (hValid : imageId ≠ invalidImageId) :
    ids'.count imageId = max 1 (ids.count imageId) ∧
      ∀ id, id ≠ invalidImageId → id ≠ imageId → ids'.count id = ids.count id := by
  unfold bl1FwuAddLoadedId at hAdd
  split at hAdd
  · rename_i hMem
    cases hAdd
    have hPos := count_pos_iff.mpr hMem
    refine ⟨by omega, fun _ _ _ => rfl⟩
  · rename_i hMem
    have hZero := count_eq_zero.mpr hMem
    have hCount := count_replaceFirst hAdd (Ne.symm hValid)
    refine ⟨?_, ?_⟩
    · rw [hCount, if_neg hValid, if_pos rfl, hZero]
      rfl
    · intro id hId hNe
      rw [hCount, if_neg hId, if_neg hNe]

/- Removing an image takes one occurrence away. -/
theorem count_removeLoadedId
    (hRemove : bl1FwuRemoveLoadedId ids imageId = some ids') (hValid : imageId ≠ invalidImageId) :
    ids'.count imageId = ids.count imageId - 1 ∧
      ∀ id, id ≠ invalidImageId → id ≠ imageId → ids'.count id = ids.count id := by
  have hCount := count_replaceFirst hRemove hValid
  refine ⟨?_, ?_⟩
  · rw [hCount, if_pos rfl]
  · intro id hId hNe
    rw [hCount, if_neg hNe, if_neg hId]

----
-- Effects
----

namespace State

/- One descriptor and the list of loaded images change. -/
def put (s : State) (imageId : Nat) (image : Image)
    (ids : List Nat) : State :=
  { s with
    image := update s.image imageId image
    loadedIds := ids }

/-
  The image, descriptor and size of a request that starts to
  load an image: a valid copy request in the reset state.
-/
def startsLoad (p : Platform) (s : State)
    (l : Smc) : Option (Nat × ImageDesc × Nat) :=
  match l.call with
  | .imageCopy imageId imageSrc blockSize imageSize =>
    match p.bl1PlatGetImageDesc (imageId % 2 ^ 32) with
    | none => none
    | some d =>
      if l.caller = .nonSecure ∧ d.security = .secure ∧
          (s.image (imageId % 2 ^ 32)).state = .reset ∧
          imageSrc % 2 ^ 64 ≠ 0 ∧ blockSize % 2 ^ 32 ≠ 0 ∧
          checkUptrOverflow (imageSrc % 2 ^ 64) (blockSize % 2 ^ 32 - 1) = false ∧
          imageSize % 2 ^ 32 ≠ 0 ∧ imageSize % 2 ^ 32 ≤ d.imageMaxSize then
        some (imageId % 2 ^ 32, d, imageSize % 2 ^ 32)
      else
        none
  | _ => none

/- The image being loaded does not overlap a loaded one. -/
def fitsBeside (p : Platform) (s : State) (id : Nat) (d : ImageDesc)
    (size : Nat) : Except Fault Bool :=
  (s.setImage id
    { s.image id with
      imageSize := size }).bl1FwuImageCheckOverlaps p id d.imageBase

end State

/- What a call that returns can do. -/
inductive Effect
    (p : Platform) (s : State)
    (l : Smc) : State → Int → Prop
  | refused (ret : Int) (hCopy : l.call.copies ≠ none → ret ≠ 0)
      (hAuth : l.call.authenticates ≠ none → ret ≠ 0) :
      Effect p s l s ret
  | recorded (id : Nat) (d : ImageDesc) (image : Image) (ret : Int)
      (hDesc : p.bl1PlatGetImageDesc id = some d)
      (hSecure : d.security = .secure)
      (hBefore : (s.image id).state = .reset)
      (hAfter : image.state = .reset)
      (hRet : ret ≠ 0) :
      Effect p s l (s.put id image s.loadedIds) ret
  | preLoadFailed (id : Nat) (d : ImageDesc) (image : Image) (size : Nat) (ids : List Nat)
      (hStart : s.startsLoad p l = some (id, d, size))
      (hFits : s.fitsBeside p id d size = .ok false)
      (hMem : l.env.memCheckOk = true)
      (hPre : l.env.preImageLoadOk = false)
      (hAdd : bl1FwuAddLoadedId s.loadedIds id = some ids)
      (hAfter : image.state = .reset) :
      Effect p s l (s.put id image ids) (-eperm)
  | loaded (id : Nat) (d : ImageDesc) (size block : Nat) (ids : List Nat)
      (hStart : s.startsLoad p l = some (id, d, size))
      (hFits : s.fitsBeside p id d size = .ok false)
      (hAdd : bl1FwuAddLoadedId s.loadedIds id = some ids)
      (hCall : l.call.copies = some id)
      (hBlock : block ≤ size) :
      Effect p s l
        ((s.put id
          { state := if block = size then .copied else .copying
            copiedSize := block
            imageSize := size } ids).writeMem d.imageBase block l.env.sourceBytes) 0
  | continued (id : Nat) (d : ImageDesc) (block : Nat) (ids : List Nat)
      (hDesc : p.bl1PlatGetImageDesc id = some d)
      (hSecure : d.security = .secure)
      (hBefore : (s.image id).state = .copying)
      (hAdd : bl1FwuAddLoadedId s.loadedIds id = some ids)
      (hCall : l.call.copies = some id)
      (hBlock : (s.image id).copiedSize + block ≤ (s.image id).imageSize) :
      Effect p s l
        ((s.put id
          { state :=
              if block = (s.image id).imageSize - (s.image id).copiedSize then .copied
              else .copying
            copiedSize := (s.image id).copiedSize + block
            imageSize := (s.image id).imageSize } ids).writeMem
              (d.imageBase + (s.image id).copiedSize) block l.env.sourceBytes) 0
  | authFailedInPlace (id : Nat) (d : ImageDesc) (size : Nat) (ids : List Nat)
      (hDesc : p.bl1PlatGetImageDesc id = some d)
      (hBefore : (s.image id).state = .reset)
      (hAdd : bl1FwuAddLoadedId s.loadedIds id = some ids) :
      Effect p s l
        (s.put id { s.image id with imageSize := size }
          ((bl1FwuRemoveLoadedId ids id).getD ids)) (-eauth)
  | authInPlace (id : Nat) (d : ImageDesc) (size : Nat) (ids : List Nat)
      (hDesc : p.bl1PlatGetImageDesc id = some d)
      (hBefore : (s.image id).state = .reset)
      (hOrigin : l.caller = .secure ∨ d.security = .nonSecure)
      (hAdd : bl1FwuAddLoadedId s.loadedIds id = some ids)
      (hCall : l.call.authenticates = some id) :
      Effect p s l
        (s.put id
          { s.image id with
            imageSize := size
            state := .authenticated } ids) 0
  | authFailed (id : Nat) (d : ImageDesc) (hDesc : p.bl1PlatGetImageDesc id = some d)
      (hBefore : (s.image id).state = .copied) :
      Effect p s l
        ((s.put id { s.image id with state := .reset }
          ((bl1FwuRemoveLoadedId s.loadedIds id).getD
            s.loadedIds)).zeroNormalmem d.imageBase (s.image id).imageSize) (-eauth)
  | authCopied (id : Nat) (d : ImageDesc) (hDesc : p.bl1PlatGetImageDesc id = some d)
      (hBefore : (s.image id).state = .copied)
      (hCall : l.call.authenticates = some id) :
      Effect p s l (s.put id { s.image id with state := .authenticated } s.loadedIds) 0
  | executed (id : Nat) (d : ImageDesc) (hDesc : p.bl1PlatGetImageDesc id = some d)
      (hSecure : d.security = .secure)
      (hExecutable : d.executable = true)
      (hBefore : (s.image id).state = .authenticated)
      (hCaller : l.caller = .nonSecure)
      (hCall : ∃ imageId, l.call = .imageExecute imageId ∧ id = imageId % 2 ^ 32) :
      Effect p s l
        { s.put id { s.image id with state := .executed } s.loadedIds with
          secExecImageId := id
          world := .secure } 0
  | resumed (d : ImageDesc) (param : Int) (hDesc : p.bl1PlatGetImageDesc s.secExecImageId = some d)
      (hSecure : d.security = .secure)
      (hExecutable : d.executable = true)
      (hBefore : (s.image s.secExecImageId).state = .interrupted)
      (hCaller : l.caller = .nonSecure)
      (hCall : l.call = .imageResume param) :
      Effect p s l
        { s.put s.secExecImageId
            { s.image s.secExecImageId with
              state := .executed } s.loadedIds with
          world := .secure } param
  | yielded (d : ImageDesc) (param : Int) (hDesc : p.bl1PlatGetImageDesc s.secExecImageId = some d)
      (hSecure : d.security = .secure)
      (hExecutable : d.executable = true)
      (hBefore : (s.image s.secExecImageId).state = .executed)
      (hCaller : l.caller = .secure)
      (hCall : l.call = .imageResume param) :
      Effect p s l
        { s.put s.secExecImageId
            { s.image s.secExecImageId with
              state := .interrupted } s.loadedIds with
          world := .nonSecure } param
  | done (d : ImageDesc) (ids : List Nat) (hDesc : p.bl1PlatGetImageDesc s.secExecImageId = some d)
      (hSecure : d.security = .secure)
      (hBefore : (s.image s.secExecImageId).state = .executed)
      (hRemove : bl1FwuRemoveLoadedId s.loadedIds s.secExecImageId = some ids)
      (hCaller : l.caller = .secure)
      (hCall : l.call = .secImageDone) :
      Effect p s l
        { s.put s.secExecImageId { s.image s.secExecImageId with state := .reset } ids with
          secExecImageId := invalidImageId
          world := .nonSecure } 0
  | reset (id : Nat) (d : ImageDesc) (ids : List Nat) (hDesc : p.bl1PlatGetImageDesc id = some d)
      (hBefore : (s.image id).state ≠ .reset ∧ (s.image id).state ≠ .executed)
      (hRemove : bl1FwuRemoveLoadedId s.loadedIds id = some ids)
      (hSecure : (s.image id).copiedSize ≠ 0 → d.security = .secure)
      (hCaller : l.caller = .nonSecure)
      (hCall : ∃ imageId, l.call = .imageReset imageId ∧ id = imageId % 2 ^ 32) :
      Effect p s l
        ((s.put id { state := .reset, copiedSize := 0, imageSize := 0 }
          ids).zeroNormalmem d.imageBase (s.image id).copiedSize) 0

theorem World.eq_secure (w : World) (hNot : w ≠ .nonSecure) :
    w = .secure := by
  cases w with
  | secure => rfl
  | nonSecure => exact absurd rfl hNot

theorem World.eq_nonSecure (w : World) (hNot : w ≠ .secure) :
    w = .nonSecure := by
  cases w with
  | secure => exact absurd rfl hNot
  | nonSecure => rfl

/- Writing an empty range changes nothing. -/
theorem State.writeMem_zero (s : State) (base : Nat) (bytes : Nat → UInt8) :
    s.writeMem base 0 bytes = s := by
  have hNever : ∀ a, ¬ (base ≤ a ∧ a < base + 0) := by
    intro a
    omega
  simp only [writeMem, if_neg (hNever _)]

/- The last change to a descriptor counts. -/
theorem State.put_setImage (s : State) (id : Nat) (first second : Image) (ids : List Nat) :
    (s.setImage id first).put id second ids = s.put id second ids := by
  simp [setImage, put]

theorem State.setImage_eq_put (s : State) (id : Nat) (image : Image) :
    s.setImage id image = s.put id image s.loadedIds := rfl

@[simp] theorem State.setImage_image_self (s : State) (id : Nat) (image : Image) :
    (s.setImage id image).image id = image := by
  simp [setImage]

variable {p : Platform} {s : State} {l : Smc} {d : ImageDesc}

variable {id size : Nat}

theorem startsLoad_iff (hStart : s.startsLoad p l = some (id, d, size)) :
    p.bl1PlatGetImageDesc id = some d ∧ d.security = .secure ∧ (s.image id).state = .reset ∧
      size ≠ 0 ∧ size ≤ d.imageMaxSize ∧ l.call.copies = some id ∧ ∃ blockSize, blockSize ≠ 0 ∧
        s.bl1FwuSmcHandler p l = s.startCopy p l.env d id blockSize size := by
  unfold State.startsLoad at hStart
  split at hStart
  · rename_i imageId imageSrc blockSize imageSize hCall
    split at hStart
    · cases hStart
    · rename_i d' hDesc
      split at hStart
      · rename_i hChecks
        cases hStart
        rcases hChecks with ⟨hCaller, hSecure, hReset, hSrc, hBlock, hOver, hSize, hMax⟩
        refine ⟨hDesc, hSecure, hReset, hSize, hMax, ?_, blockSize % 2 ^ 32, hBlock, ?_⟩
        · rw [hCall]
          rfl
        · have hNot :
              ¬ (imageSrc % 2 ^ 64 = 0 ∨ blockSize % 2 ^ 32 = 0 ∨
                checkUptrOverflow (imageSrc % 2 ^ 64) (blockSize % 2 ^ 32 - 1) = true) := by
            rintro (h | h | h)
            · exact hSrc h
            · exact hBlock h
            · exact Bool.eq_false_iff.mp hOver h
          simp only [State.bl1FwuSmcHandler, hCall, State.bl1FwuImageCopy, hDesc]
          rw [if_neg (by simp [hCaller]), if_neg (by simp [hSecure]),
            if_neg (fun h => h.1 hReset), if_neg hNot,
            if_neg (by rw [hReset]; decide), if_neg hSize,
            if_neg (by omega)]
      · cases hStart
  · cases hStart

variable {ret : Int}

variable {s s' : State}

/- The first block of an image. -/
theorem effect_of_startCopy
    {id size blockSize : Nat} (hStart : s.startsLoad p l = some (id, d, size))
    (hRun : s.startCopy p l.env d id blockSize size = .ok (s', ret)) :
    Effect p s l s' ret := by
  rcases startsLoad_iff hStart with ⟨hDesc, hSecure, hReset, hSize, hMax, hCall, -⟩
  have hRecorded :
      ∀ image : Image, image.state = .reset → ∀ ret : Int, ret ≠ 0 → Effect p s l
            ((s.setImage id { s.image id with
              imageSize := size }).setImage id image) ret := by
    intro image hAfter ret hRet
    rw [State.setImage_eq_put, State.put_setImage]
    exact .recorded id d image ret hDesc hSecure hReset hAfter hRet
  simp only [State.startCopy] at hRun
  split at hRun
  · cases hRun
  · cases hRun
    exact hRecorded _ (by simp [hReset]) _ (by decide)
  · rename_i hFits
    simp only [State.copyBlock, State.setImage_image_self] at hRun
    split at hRun
    · cases hRun
      exact hRecorded _ (by simp [hReset]) _ (by decide)
    · rename_i hMem
      split at hRun
      · cases hRun
        exact hRecorded _ (by simp [hReset]) _ (by decide)
      · rename_i ids hAdd
        split at hRun
        · rename_i hPre
          cases hRun
          rw [State.setImage_eq_put, State.put_setImage]
          exact .preLoadFailed id d _ size ids hStart hFits
            (by simpa using hMem) hPre.2 hAdd (by simp [hReset])
        · cases hRun
          have hLoaded :=
            Effect.loaded (p := p) (s := s) (l := l) id d size
              (min blockSize size) ids hStart hFits hAdd hCall
              (Nat.min_le_right _ _)
          simpa [State.put, State.setImage, State.writeMem] using hLoaded

theorem effect_of_copyBlock {id blockSize : Nat}
    (hDesc : p.bl1PlatGetImageDesc id = some d) (hSecure : d.security = .secure)
    (hBefore : (s.image id).state = .copying) (hCall : l.call.copies = some id)
    (hLess : (s.image id).copiedSize ≤ (s.image id).imageSize)
    (hRun : s.copyBlock l.env id d.imageBase blockSize = .ok (s', ret)) :
    Effect p s l s' ret := by
  have hNoAuth : l.call.authenticates = none := by
    cases hKind : l.call <;> simp_all [Call.copies, Call.authenticates]
  simp only [State.copyBlock] at hRun
  split at hRun
  · cases hRun
    exact .refused _ (fun _ => by decide) (fun h => absurd hNoAuth h)
  · split at hRun
    · cases hRun
      exact .refused _ (fun _ => by decide) (fun h => absurd hNoAuth h)
    · rename_i ids hAdd
      split at hRun
      · rename_i hPre
        rw [hBefore] at hPre
        cases hPre.1
      · cases hRun
        have hContinued :=
          Effect.continued (p := p) (s := s) (l := l) id d
            (min blockSize ((s.image id).imageSize - (s.image id).copiedSize))
            ids hDesc hSecure hBefore hAdd hCall (by omega)
        exact hContinued

theorem effect_of_copy {imageId imageSrc blockSize imageSize : Nat}
    (hCall : l.call = .imageCopy imageId imageSrc blockSize imageSize)
    (hRun :
      s.bl1FwuImageCopy p l.env l.caller (imageId % 2 ^ 32) (imageSrc % 2 ^ 64) (blockSize % 2 ^ 32)
        (imageSize % 2 ^ 32) = .ok (s', ret)) :
    Effect p s l s' ret := by
  have hCopies : l.call.copies = some (imageId % 2 ^ 32) := by
    rw [hCall]
    rfl
  have hNoAuth : l.call.authenticates = none := by
    rw [hCall]
    rfl
  have hRefused : ∀ ret : Int, ret ≠ 0 → Effect p s l s ret :=
    fun ret hRet => .refused ret (fun _ => hRet) (fun h => absurd hNoAuth h)
  simp only [State.bl1FwuImageCopy] at hRun
  split at hRun
  · cases hRun
    exact hRefused _ (by decide)
  rename_i d hDesc
  split at hRun
  · cases hRun
    exact hRefused _ (by decide)
  rename_i hCaller
  split at hRun
  · cases hRun
    exact hRefused _ (by decide)
  rename_i hSecurity
  split at hRun
  · cases hRun
    exact hRefused _ (by decide)
  rename_i hState
  split at hRun
  · cases hRun
    exact hRefused _ (by decide)
  rename_i hArgs
  have hSecure := d.security.eq_secure hSecurity
  split at hRun
  · rename_i hCopying
    split at hRun
    · cases hRun
    · exact effect_of_copyBlock hDesc hSecure hCopying hCopies (by omega) hRun
  rename_i hNotCopying
  split at hRun
  · cases hRun
    exact hRefused _ (by decide)
  rename_i hSize
  split at hRun
  · cases hRun
    exact hRefused _ (by decide)
  have hNonSecure := l.caller.eq_nonSecure hCaller
  have hReset : (s.image (imageId % 2 ^ 32)).state = .reset := by
    by_contra hNot
    exact hState ⟨hNot, hNotCopying⟩
  refine effect_of_startCopy ?_ hRun
  simp only [not_or] at hArgs
  simp only [State.startsLoad, hCall, hDesc]
  rw [if_pos]
  exact ⟨hNonSecure, hSecure, hReset, hArgs.1, hArgs.2.1, by simpa using hArgs.2.2, hSize, by omega⟩

theorem effect_of_auth_copied
    {id : Nat} (hDesc : p.bl1PlatGetImageDesc id = some d) (hBefore : (s.image id).state = .copied)
    (hCall : l.call.authenticates = some id)
    (hRun : s.finishAuth l.env id d.imageBase = .ok (s', ret)) :
    Effect p s l s' ret := by
  simp only [State.finishAuth, if_pos hBefore] at hRun
  split at hRun
  · cases hRun
    exact .authFailed id d hDesc hBefore
  · split at hRun
    · cases hRun
    · cases hRun
      exact .authCopied id d hDesc hBefore hCall

theorem effect_of_auth_in_place
    (hDesc : p.bl1PlatGetImageDesc id = some d) (hBefore : (s.image id).state = .reset)
    (hOrigin : l.caller = .secure ∨ d.security = .nonSecure)
    (hAdd : bl1FwuAddLoadedId s.loadedIds id = some ids) (hCall : l.call.authenticates = some id)
    (hRun :
      (s.put id { s.image id with imageSize := size }
        ids).finishAuth l.env id d.imageBase = .ok (s', ret)) :
    Effect p s l s' ret := by
  simp only [State.finishAuth, State.put, update_self, hBefore, reduceCtorEq, if_false] at hRun
  split at hRun
  · cases hRun
    have hFailed :=
      Effect.authFailedInPlace (l := l) id d size ids hDesc
        hBefore hAdd
    dsimp only at hFailed
    rw [hBefore] at hFailed
    exact hFailed
  · split at hRun
    · cases hRun
    · cases hRun
      have hDone := Effect.authInPlace id d size ids hDesc hBefore hOrigin hAdd hCall
      simpa [State.put, State.setImage] using hDone

theorem effect_of_auth
    {imageId imageSrc imageSize : Nat} (hCall : l.call = .imageAuth imageId imageSrc imageSize)
    (hRun :
      s.bl1FwuImageAuth p l.env l.caller (imageId % 2 ^ 32)
        (imageSrc % 2 ^ 64) (imageSize % 2 ^ 32) = .ok (s', ret)) :
    Effect p s l s' ret := by
  have hAuth : l.call.authenticates = some (imageId % 2 ^ 32) := by
    rw [hCall]
    rfl
  have hNoCopy : l.call.copies = none := by
    rw [hCall]
    rfl
  have hRefused : ∀ ret : Int, ret ≠ 0 → Effect p s l s ret :=
    fun ret hRet => .refused ret (fun h => absurd hNoCopy h) (fun _ => hRet)
  simp only [State.bl1FwuImageAuth] at hRun
  split at hRun
  · cases hRun
    exact hRefused _ (by decide)
  rename_i d hDesc
  split at hRun
  · cases hRun
    exact hRefused _ (by decide)
  split at hRun
  · cases hRun
    exact hRefused _ (by decide)
  split at hRun
  · cases hRun
    exact hRefused _ (by decide)
  split at hRun
  · rename_i hCopied
    exact effect_of_auth_copied hDesc hCopied hAuth hRun
  split at hRun
  · cases hRun
    exact hRefused _ (by decide)
  split at hRun
  · cases hRun
    exact hRefused _ (by decide)
  split at hRun
  · cases hRun
    exact hRefused _ (by decide)
  rename_i ids hAdd
  -- in place only what the worlds may have in reset state
  have hCases :
      (s.image (imageId % 2 ^ 32)).state = .reset ∧
        (l.caller = .secure ∨ d.security = .nonSecure) := by
    cases hWorld : l.caller <;> cases hKind : d.security <;>
      simp_all
  exact effect_of_auth_in_place hDesc hCases.1 hCases.2 hAdd hAuth hRun

/- Every call that returns has one of the effects. -/
theorem effect_of_handler (hRun : s.bl1FwuSmcHandler p l = .ok (s', ret)) :
    Effect p s l s' ret := by
  unfold State.bl1FwuSmcHandler at hRun
  split at hRun
  case h_1 hCall => exact effect_of_copy hCall hRun
  case h_2 hCall => exact effect_of_auth hCall hRun
  case h_3 imageId hCall =>
    have hRefused : ∀ ret : Int, Effect p s l s ret := by
      intro ret
      refine .refused ret (fun h => absurd ?_ h) (fun h => absurd ?_ h) <;> rw [hCall] <;> rfl
    simp only [State.bl1FwuImageExecute] at hRun
    split at hRun
    · cases hRun
      exact hRefused _
    rename_i d hDesc
    split at hRun
    · cases hRun
      exact hRefused _
    · rename_i hChecks
      simp only [not_or, ne_eq, not_not] at hChecks
      cases hRun
      refine .executed _ d hDesc ?_ (by simpa using hChecks.2.2.1)
        hChecks.2.2.2 ?_ ⟨imageId, hCall, rfl⟩
      · exact d.security.eq_secure hChecks.2.1
      · exact l.caller.eq_nonSecure hChecks.1
  case h_4 param hCall =>
    have hRefused : ∀ ret : Int, Effect p s l s ret := by
      intro ret
      refine .refused ret (fun h => absurd ?_ h) (fun h => absurd ?_ h) <;> rw [hCall] <;> rfl
    simp only [State.bl1FwuImageResume] at hRun
    cases hDesc : p.bl1PlatGetImageDesc s.secExecImageId with
    | none =>
      cases hCaller : l.caller <;>
        simp only [hDesc, hCaller] at hRun <;> cases hRun
      exact hRefused _
    | some d =>
      simp only [hDesc] at hRun
      split at hRun
      · cases hRun
      rename_i hKind
      simp only [not_or] at hKind
      have hSecure := d.security.eq_secure hKind.1
      have hExecutable : d.executable = true := by simpa using hKind.2
      cases hCaller : l.caller with
      | secure =>
        simp only [hCaller] at hRun
        split at hRun
        · cases hRun
        rename_i hState
        cases hRun
        exact .yielded d _ hDesc hSecure hExecutable (not_not.mp hState) hCaller hCall
      | nonSecure =>
        simp only [hCaller] at hRun
        split at hRun
        · cases hRun
        rename_i hState
        cases hRun
        exact .resumed d _ hDesc hSecure hExecutable (not_not.mp hState) hCaller hCall
  case h_5 hCall =>
    simp only [State.bl1FwuSecImageDone] at hRun
    split at hRun
    · cases hRun
      refine .refused _ (fun h => absurd ?_ h) (fun h => absurd ?_ h) <;> rw [hCall] <;> rfl
    rename_i hCaller
    split at hRun
    · cases hRun
    rename_i d hDesc
    split at hRun
    · cases hRun
    rename_i hChecks
    simp only [not_or, ne_eq, not_not] at hChecks
    split at hRun
    · cases hRun
    rename_i ids hRemove
    cases hRun
    exact .done d ids hDesc (d.security.eq_secure hChecks.1)
      hChecks.2.2 hRemove (l.caller.eq_secure hCaller) hCall
  case h_6 imageId hCall =>
    have hRefused : ∀ ret : Int, Effect p s l s ret := by
      intro ret
      refine .refused ret (fun h => absurd ?_ h) (fun h => absurd ?_ h) <;> rw [hCall] <;> rfl
    simp only [State.bl1FwuImageReset] at hRun
    split at hRun
    · cases hRun
      exact hRefused _
    · cases hRun
      exact hRefused _
    rename_i d hDesc hCaller
    split at hRun
    · cases hRun
      exact hRefused _
    · cases hRun
    rename_i hNotReset hNotExecuted
    split at hRun
    · cases hRun
      exact hRefused _
    rename_i ids hRemove
    split at hRun
    · cases hRun
    rename_i hKind
    have hReset :=
      Effect.reset (p := p) (s := s) (l := l)
        (imageId % 2 ^ 32) d ids hDesc
        ⟨hNotReset, hNotExecuted⟩ hRemove
        (by
          intro hCopied
          apply d.security.eq_secure
          intro hWorld
          exact hKind ⟨hCopied, hWorld⟩)
        hCaller ⟨imageId, hCall, rfl⟩
    split at hRun
    · cases hRun
      exact hReset
    · rename_i hZero
      cases hRun
      rw [not_not.mp hZero] at hReset
      rw [State.zeroNormalmem, State.writeMem_zero] at hReset
      exact hReset

----
-- Overlaps
----

theorem imageEnd_of_fits {id : Nat}
    (hDesc : p.bl1PlatGetImageDesc id = some d) (hMax : (s.image id).imageSize ≤ d.imageMaxSize) :
    s.imageEnd id d.imageBase = d.imageBase + (s.image id).imageSize - 1 := by
  have hFits := (p.fits id d hDesc).1
  apply Nat.mod_eq_of_lt
  omega

variable {imageId checkedBase checkedEnd : Nat}

/- No overlap was found: every listed image lies apart. -/
theorem apart_of_checkOverlapsLoop
    (hLoop : s.checkOverlapsLoop p imageId checkedBase checkedEnd ids = .ok false) {id : Nat}
    (hMem : id ∈ ids) (hValid : id ≠ invalidImageId)
    (hNe : id ≠ imageId) (hDesc : p.bl1PlatGetImageDesc id = some d)
    (hSize : (s.image id).imageSize ≠ 0) :
    s.imageEnd id d.imageBase < checkedBase ∨ checkedEnd < d.imageBase := by
  induction ids with
  | nil => cases hMem
  | cons x rest ih =>
    unfold State.checkOverlapsLoop at hLoop
    by_cases hHere : id = x
    · subst hHere
      rw [if_neg (by simp [hValid, hNe])] at hLoop
      simp only [hDesc, if_neg hSize] at hLoop
      split at hLoop
      · cases hLoop
      split at hLoop
      · cases hLoop
      split at hLoop
      · assumption
      · cases hLoop
    · have hRest : id ∈ rest := by
        rcases mem_cons.mp hMem with hEq | hIn
        · exact absurd hEq hHere
        · exact hIn
      split at hLoop
      · exact ih hLoop hRest
      split at hLoop
      · cases hLoop
      split at hLoop
      · cases hLoop
      split at hLoop
      · exact ih hLoop hRest
      split at hLoop
      · cases hLoop
      split at hLoop
      · exact ih hLoop hRest
      · cases hLoop

variable {fault : Fault}

theorem checkOverlapsLoop_error
    (hFail : s.checkOverlapsLoop p imageId checkedBase checkedEnd ids = .error fault) :
    fault = .overlapAssertion := by
  induction ids with
  | nil => cases hFail
  | cons id rest ih =>
    unfold State.checkOverlapsLoop at hFail
    split at hFail
    · exact ih hFail
    split at hFail
    · cases hFail
      rfl
    split at hFail
    · cases hFail
      rfl
    split at hFail
    · exact ih hFail
    split at hFail
    · cases hFail
      rfl
    split at hFail
    · exact ih hFail
    · cases hFail

/- The check fails in no other way. -/
theorem fitsBeside_error (hFail : s.fitsBeside p id d size = .error fault) :
    fault = .overlapAssertion := by
  unfold State.fitsBeside State.bl1FwuImageCheckOverlaps at hFail
  split at hFail
  · cases hFail
    rfl
  · exact checkOverlapsLoop_error hFail

theorem copyBlock_ne_error {env : Env} {id base blockSize : Nat} :
    s.copyBlock env id base blockSize ≠ .error fault := by
  dsimp only [State.copyBlock]
  split
  · simp
  split
  · simp
  split <;> simp

theorem startCopy_error_iff {env : Env} {id blockSize size : Nat} :
    s.startCopy p env d id blockSize size = .error fault ↔
      s.fitsBeside p id d size = .error fault := by
  unfold State.startCopy State.fitsBeside
  dsimp only
  split
  · rename_i hCheck
    rw [hCheck]
    simp
  · rename_i hCheck
    rw [hCheck]
    simp
  · rename_i hCheck
    rw [hCheck]
    simp [copyBlock_ne_error]

----
-- The Base Invariant
----

/- Two images do not share an address. -/
def Apart (s : State) (id other : Nat)
    (d d' : ImageDesc) : Prop :=
  d.imageBase + (s.image id).imageSize ≤ d'.imageBase ∨
    d'.imageBase + (s.image other).imageSize ≤ d.imageBase

/-
  What holds whatever is called: images in use are known and
  listed, none is listed twice, and copied images lie apart.
-/
structure BaseInv (p : Platform) (t : Tracked) : Prop where
  valid : ∀ id, (t.state.image id).state ≠ .reset → ∃ d, p.bl1PlatGetImageDesc id = some d
  once : ∀ id, id ≠ invalidImageId → t.state.loadedIds.count id ≤ 1
  listed : ∀ id, id ≠ p.nextImageId → (t.state.image id).state ≠ .reset → id ∈ t.state.loadedIds
  running : (t.state.image p.nextImageId).state = .executed
  unlisted : p.nextImageId ∉ t.state.loadedIds
  loading :
    ∀ id, (t.state.image id).state = .copying ∨
      (t.state.image id).state = .copied → t.copied id = true
  copied_image :
    ∀ id, t.copied id = true → (t.state.image id).state ≠ .reset ∧ id ≠ p.nextImageId ∧
        ∃ d, p.bl1PlatGetImageDesc id = some d ∧ 1 ≤ (t.state.image id).imageSize ∧
          (t.state.image id).imageSize ≤ d.imageMaxSize
  copied_apart :
    ∀ id other d d', id ≠ other → t.copied id = true → t.copied other = true →
      p.bl1PlatGetImageDesc id = some d →
      p.bl1PlatGetImageDesc other = some d' → Apart t.state id other d d'

namespace BaseInv

variable {p : Platform} {t t' : Tracked}

variable {id : Nat} {d : ImageDesc}

theorem id_valid (hDesc : p.bl1PlatGetImageDesc id = some d) :
    id ≠ invalidImageId := by
  rintro rfl
  rw [p.invalid_none] at hDesc
  cases hDesc

variable {image : Image}

/- One image and its place in the list have changed. -/
theorem put {c : Bool}
    (hInv : BaseInv p t) (hDesc : p.bl1PlatGetImageDesc id = some d) (hNext : id ≠ p.nextImageId)
    (hImage : t'.state.image = update t.state.image id image)
    (hOthers :
      ∀ x, x ≠ invalidImageId → x ≠ id → t'.state.loadedIds.count x = t.state.loadedIds.count x)
    (hOnce : t'.state.loadedIds.count id ≤ 1)
    (hListed : image.state ≠ .reset → id ∈ t'.state.loadedIds)
    (hCopied : t'.copied = update t.copied id c)
    (hLoading : image.state = .copying ∨ image.state = .copied → c = true)
    (hRange :
      c = true → image.state ≠ .reset ∧ 1 ≤ image.imageSize ∧ image.imageSize ≤ d.imageMaxSize)
    (hApart :
      c = true → ∀ other d', other ≠ id → t.copied other = true →
        p.bl1PlatGetImageDesc other = some d' → d.imageBase + image.imageSize ≤ d'.imageBase ∨
            d'.imageBase + (t.state.image other).imageSize ≤ d.imageBase) :
    BaseInv p t' := by
  have hSelf : t'.state.image id = image := by rw [hImage, update_self]
  have hOther : ∀ x, x ≠ id → t'.state.image x = t.state.image x := by
    intro x hNe
    rw [hImage, update_of_ne hNe]
  have hCopiedSelf : t'.copied id = c := by rw [hCopied, update_self]
  have hCopiedOther : ∀ x, x ≠ id → t'.copied x = t.copied x := by
    intro x hNe
    rw [hCopied, update_of_ne hNe]
  have hMem :
      ∀ x, x ≠ invalidImageId → x ≠ id → (x ∈ t'.state.loadedIds ↔ x ∈ t.state.loadedIds) := by
    intro x hx hNe
    rw [← count_pos_iff, ← count_pos_iff, hOthers x hx hNe]
  have hNextValid : p.nextImageId ≠ invalidImageId := by
    rcases p.next_nonSecure with ⟨dn, hdn, -⟩
    exact id_valid hdn
  refine ⟨?_, ?_, ?_, ?_, ?_, ?_, ?_, ?_⟩
  · intro x hx
    by_cases hHere : x = id
    · exact ⟨d, hHere ▸ hDesc⟩
    · rw [hOther x hHere] at hx
      exact hInv.valid x hx
  · intro x hx
    by_cases hHere : x = id
    · rw [hHere]
      exact hOnce
    · rw [hOthers x hx hHere]
      exact hInv.once x hx
  · intro x hx hState
    by_cases hHere : x = id
    · rw [hHere] at hState ⊢
      rw [hSelf] at hState
      exact hListed hState
    · rw [hOther x hHere] at hState
      rcases hInv.valid x hState with ⟨dx, hdx⟩
      rw [hMem x (id_valid hdx) hHere]
      exact hInv.listed x hx hState
  · rw [hOther _ (Ne.symm hNext)]
    exact hInv.running
  · rw [hMem _ hNextValid (Ne.symm hNext)]
    exact hInv.unlisted
  · intro x hx
    by_cases hHere : x = id
    · rw [hHere] at hx ⊢
      rw [hSelf] at hx
      rw [hCopiedSelf]
      exact hLoading hx
    · rw [hOther x hHere] at hx
      rw [hCopiedOther x hHere]
      exact hInv.loading x hx
  · intro x hx
    by_cases hHere : x = id
    · subst hHere
      rw [hCopiedSelf] at hx
      rw [hSelf]
      rcases hRange hx with ⟨hState, hPos, hMax⟩
      exact ⟨hState, hNext, d, hDesc, hPos, hMax⟩
    · rw [hCopiedOther x hHere] at hx
      rw [hOther x hHere]
      exact hInv.copied_image x hx
  · intro x y dx dy hNe hx hy hdx hdy
    unfold Apart
    by_cases hHereX : x = id
    · subst hHereX
      have hHereY : y ≠ x := Ne.symm hNe
      rw [hDesc] at hdx
      cases hdx
      rw [hCopiedSelf] at hx
      rw [hCopiedOther y hHereY] at hy
      rw [hSelf, hOther y hHereY]
      exact hApart hx y dy hHereY hy hdy
    · rw [hCopiedOther x hHereX] at hx
      rw [hOther x hHereX]
      by_cases hHereY : y = id
      · subst hHereY
        rw [hDesc] at hdy
        cases hdy
        rw [hCopiedSelf] at hy
        rw [hSelf]
        exact (hApart hy x dx hHereX hx hdx).symm
      · rw [hCopiedOther y hHereY] at hy
        rw [hOther y hHereY]
        exact hInv.copied_apart x y dx dy hNe hx hy hdx hdy

variable {l : Smc} {s' : State} {ret : Int}

theorem copiedAfter_eq (hInv : BaseInv p t) (hImage : s'.image = update t.state.image id image)
    (hOnly : ∀ x, l.call.copies = some x → ret = 0 → x = id) :
    Tracked.copiedAfter t.copied l s' ret = update t.copied id
        (if image.state = .reset then false
          else if l.call.copies = some id ∧ ret = 0 then true
          else t.copied id) := by
  funext x
  unfold Tracked.copiedAfter
  rw [hImage]
  by_cases hHere : x = id
  · subst hHere
    simp only [update_self]
  · rw [update_of_ne hHere, update_of_ne hHere]
    split
    · rename_i hReset
      cases hCopied : t.copied x with
      | false => rfl
      | true => exact absurd hReset (hInv.copied_image x hCopied).1
    · split
      · rename_i hCall
        exact absurd (hOnly x hCall.1 hCall.2) hHere
      · rfl

/- A new image that passed the check lies apart. -/
theorem apart_of_fits
    {id size : Nat} (hInv : BaseInv p t) (hDesc : p.bl1PlatGetImageDesc id = some d)
    (hPos : size ≠ 0) (hMax : size ≤ d.imageMaxSize)
    (hFits : t.state.fitsBeside p id d size = .ok false) {other : Nat} {d' : ImageDesc}
    (hNe : other ≠ id) (hCopied : t.copied other = true)
    (hDesc' : p.bl1PlatGetImageDesc other = some d') :
    d.imageBase + size ≤ d'.imageBase ∨
      d'.imageBase + (t.state.image other).imageSize ≤ d.imageBase := by
  rcases hInv.copied_image other hCopied with ⟨hState, hNext, d'', hDesc'', hPos', hMax'⟩
  rw [hDesc'] at hDesc''
  cases hDesc''
  have hMem := hInv.listed other hNext hState
  unfold State.fitsBeside State.bl1FwuImageCheckOverlaps at hFits
  rw [if_neg (by simpa using hPos)] at hFits
  have hSame :
      (t.state.setImage id
        { t.state.image id with imageSize := size }).image other = t.state.image other := by
    simp [State.setImage, hNe]
  have hApart :=
    apart_of_checkOverlapsLoop hFits hMem (id_valid hDesc') hNe hDesc' (by rw [hSame]; omega)
  rw [imageEnd_of_fits hDesc' (by rw [hSame]; exact hMax'),
    imageEnd_of_fits hDesc (by simpa using hMax), hSame]
    at hApart
  simp only [State.setImage_image_self] at hApart
  omega

/- The invariant holds when the update starts. -/
theorem initial (p : Platform) (mem : Nat → UInt8) :
    BaseInv p (Tracked.initial p mem) := by
  have hState :
      ∀ id, ((Tracked.initial p mem).state.image id).state =
        if id = p.nextImageId then .executed else .reset :=
    fun _ => rfl
  have hNextDesc : ∃ d, p.bl1PlatGetImageDesc p.nextImageId = some d := by
    rcases p.next_nonSecure with ⟨d, hDesc, -⟩
    exact ⟨d, hDesc⟩
  have hEmpty : ∀ id, id ≠ invalidImageId → id ∉ (Tracked.initial p mem).state.loadedIds := by
    intro id hId hMem
    exact hId (eq_of_mem_replicate hMem)
  refine ⟨?_, ?_, ?_, ?_, ?_, ?_, ?_, ?_⟩
  · intro id hId
    rw [hState] at hId
    split at hId
    · rename_i hEq
      rw [hEq]
      exact hNextDesc
    · exact absurd rfl hId
  · intro id hId
    rw [count_eq_zero.mpr (hEmpty id hId)]
    omega
  · intro id hNe hId
    rw [hState, if_neg hNe] at hId
    exact absurd rfl hId
  · rw [hState, if_pos rfl]
  · rcases hNextDesc with ⟨d, hDesc⟩
    exact hEmpty _ (id_valid hDesc)
  · intro id hId
    rw [hState] at hId
    split at hId <;> simp at hId
  · intro id hId
    cases hId
  · intro id other d d' _ hId
    cases hId

/- The state after a step, with its history. -/
def after (p : Platform) (t : Tracked) (l : Smc) (s' : State)
    (ret : Int) : Tracked where
  state := s'
  copied := Tracked.copiedAfter t.copied l s' ret
  verified := t.verifiedAfter p l ret

section

variable (hInv : BaseInv p t)
include hInv

theorem drop_image (hDesc : p.bl1PlatGetImageDesc id = some d) (hNext : id ≠ p.nextImageId)
    (hImage : s'.image = update t.state.image id image) (hReset : image.state = .reset)
    (hOnly : ∀ x, l.call.copies = some x → ret = 0 → x = id)
    (hOthers : ∀ x, x ≠ invalidImageId → x ≠ id → s'.loadedIds.count x = t.state.loadedIds.count x)
    (hOnce : s'.loadedIds.count id ≤ 1) :
    BaseInv p (after p t l s' ret) := by
  refine hInv.put (c := false) hDesc hNext hImage hOthers hOnce
    ?_ ?_ ?_ ?_ ?_
  · intro hState
    exact absurd hReset hState
  · show Tracked.copiedAfter t.copied l s' ret = _
    rw [hInv.copiedAfter_eq hImage hOnly, if_pos hReset]
  · rw [hReset]
    simp
  · intro h
    cases h
  · intro h
    cases h

/- An image in use changes its state and nothing else. -/
theorem keep_image (hDesc : p.bl1PlatGetImageDesc id = some d) (hNext : id ≠ p.nextImageId)
    (hImage : s'.image = update t.state.image id image)
    (hBefore : (t.state.image id).state ≠ .reset)
    (hAfter : image.state ≠ .reset ∧ image.state ≠ .copying ∧ image.state ≠ .copied)
    (hSize : image.imageSize = (t.state.image id).imageSize) (hCall : l.call.copies = none)
    (hIds : s'.loadedIds = t.state.loadedIds) :
    BaseInv p (after p t l s' ret) := by
  have hValid := id_valid hDesc
  refine hInv.put (c := t.copied id) hDesc hNext hImage ?_ ?_
    ?_ ?_ ?_ ?_ ?_
  · intro x _ _
    show s'.loadedIds.count x = _
    rw [hIds]
  · show s'.loadedIds.count id ≤ 1
    rw [hIds]
    exact hInv.once id hValid
  · intro _
    show id ∈ s'.loadedIds
    rw [hIds]
    exact hInv.listed id hNext hBefore
  · show Tracked.copiedAfter t.copied l s' ret = _
    rw [hInv.copiedAfter_eq hImage (by simp [hCall]), if_neg hAfter.1, if_neg (by simp [hCall])]
  · rintro (hState | hState)
    · exact absurd hState hAfter.2.1
    · exact absurd hState hAfter.2.2
  · intro hCopied
    rcases hInv.copied_image id hCopied with ⟨-, -, d', hDesc', hPos, hMax⟩
    rw [hDesc] at hDesc'
    cases hDesc'
    rw [hSize]
    exact ⟨hAfter.1, hPos, hMax⟩
  · intro hCopied other d' hNe hOther hDesc'
    rw [hSize]
    exact hInv.copied_apart id other d d' (Ne.symm hNe) hCopied hOther hDesc hDesc'

theorem load_image (hDesc : p.bl1PlatGetImageDesc id = some d) (hNext : id ≠ p.nextImageId)
    (hImage : s'.image = update t.state.image id image)
    (hAfter : image.state ≠ .reset) (hCall : l.call.copies = some id)
    (hAdd : bl1FwuAddLoadedId t.state.loadedIds id = some s'.loadedIds)
    (hRange : 1 ≤ image.imageSize ∧ image.imageSize ≤ d.imageMaxSize)
    (hApart :
      ∀ other d', other ≠ id → t.copied other = true → p.bl1PlatGetImageDesc other = some d' →
          d.imageBase + image.imageSize ≤ d'.imageBase ∨
            d'.imageBase + (t.state.image other).imageSize ≤ d.imageBase) :
    BaseInv p (after p t l s' 0) := by
  have hValid := id_valid hDesc
  rcases count_addLoadedId hAdd hValid with ⟨hHere, hOthers⟩
  have hOnce := hInv.once id hValid
  refine hInv.put (c := true) hDesc hNext hImage hOthers ?_ ?_
    ?_ ?_ ?_ ?_
  · show s'.loadedIds.count id ≤ 1
    omega
  · intro _
    show id ∈ s'.loadedIds
    apply count_pos_iff.mp
    omega
  · show Tracked.copiedAfter t.copied l s' 0 = _
    rw [hInv.copiedAfter_eq hImage (fun x hx _ => Option.some.inj (hx.symm.trans hCall)),
      if_neg hAfter, if_pos ⟨hCall, rfl⟩]
  · intro _
    rfl
  · intro _
    exact ⟨hAfter, hRange⟩
  · intro _
    exact hApart

theorem auth_in_place
    {id size : Nat} (hDesc : p.bl1PlatGetImageDesc id = some d) (hNext : id ≠ p.nextImageId)
    (hImage :
      s'.image = update t.state.image id
          { t.state.image id with
            imageSize := size
            state := .authenticated })
    (hBefore : (t.state.image id).state = .reset) (hCall : l.call.copies = none)
    (hAdd : bl1FwuAddLoadedId t.state.loadedIds id = some s'.loadedIds) :
    BaseInv p (after p t l s' 0) := by
  have hValid := id_valid hDesc
  rcases count_addLoadedId hAdd hValid with ⟨hHere, hOthers⟩
  have hOnce := hInv.once id hValid
  have hNot : t.copied id = false := by
    cases hCopied : t.copied id with
    | false => rfl
    | true => exact absurd hBefore (hInv.copied_image id hCopied).1
  refine hInv.put (c := false) hDesc hNext hImage hOthers ?_ ?_
    ?_ ?_ ?_ ?_
  · show s'.loadedIds.count id ≤ 1
    omega
  · intro _
    show id ∈ s'.loadedIds
    apply count_pos_iff.mp
    omega
  · show Tracked.copiedAfter t.copied l s' 0 = _
    rw [hInv.copiedAfter_eq hImage (by simp [hCall]),
      if_neg (by simp), if_neg (by simp [hCall]), hNot]
  · simp
  · intro h
    cases h
  · intro h
    cases h

end

/- Removing what may not be there lists nothing more. -/
theorem count_getD_remove (ids : List Nat) (hValid : id ≠ invalidImageId) :
    ((bl1FwuRemoveLoadedId ids id).getD ids).count id ≤ ids.count id ∧
      ∀ x, x ≠ invalidImageId → x ≠ id →
        ((bl1FwuRemoveLoadedId ids id).getD ids).count x = ids.count x := by
  cases hRemove : bl1FwuRemoveLoadedId ids id with
  | none => exact ⟨Nat.le_refl _, fun _ _ _ => rfl⟩
  | some ids' =>
    rcases count_removeLoadedId hRemove hValid with ⟨hHere, hOthers⟩
    exact ⟨by simp [hHere], hOthers⟩

theorem copiedAfter_refused (hInv : BaseInv p t) (hCopy : l.call.copies ≠ none → ret ≠ 0) :
    Tracked.copiedAfter t.copied l t.state ret = t.copied := by
  funext x
  unfold Tracked.copiedAfter
  split
  · rename_i hReset
    cases hBit : t.copied x with
    | false => rfl
    | true => exact absurd hReset (hInv.copied_image x hBit).1
  · split
    · rename_i hCall
      exact absurd hCall.2 (hCopy (by simp [hCall.1]))
    · rfl

/- A refused call leaves the history as it was. -/
theorem refused (hInv : BaseInv p t) (hCopy : l.call.copies ≠ none → ret ≠ 0) :
    BaseInv p (after p t l t.state ret) := by
  have hSame : after p t l t.state ret = { t with verified := t.verifiedAfter p l ret } := by
    unfold after
    rw [hInv.copiedAfter_refused hCopy]
  rw [hSame]
  exact ⟨hInv.valid, hInv.once, hInv.listed, hInv.running,
    hInv.unlisted, hInv.loading, hInv.copied_image, hInv.copied_apart⟩

/- Only the running image is executed without a list entry. -/
theorem ne_next_of_state (hInv : BaseInv p t) (hState : (t.state.image id).state ≠ .executed) :
    id ≠ p.nextImageId := by
  rintro rfl
  exact hState hInv.running

theorem ne_next_of_secure
    (hDesc : p.bl1PlatGetImageDesc id = some d) (hSecure : d.security = .secure) :
    id ≠ p.nextImageId := by
  rintro rfl
  rcases p.next_nonSecure with ⟨d', hDesc', hNonSecure⟩
  rw [hDesc] at hDesc'
  cases hDesc'
  rw [hSecure] at hNonSecure
  cases hNonSecure

theorem copies_none_of_authenticates (hCall : l.call.authenticates = some id) :
    l.call.copies = none := by
  cases hKind : l.call <;>
    simp_all [Call.copies, Call.authenticates]

/- Every effect keeps the base invariant. -/
theorem effect (hInv : BaseInv p t) (hEffect : Effect p t.state l s' ret) :
    BaseInv p (after p t l s' ret) := by
  cases hEffect with
  | refused ret hCopy hAuth => exact hInv.refused hCopy
  | recorded id d image ret hDesc hSecure hBefore hAfter hRet =>
    apply hInv.drop_image hDesc (ne_next_of_secure hDesc hSecure) rfl hAfter
    · intro x _ hZero
      exact absurd hZero hRet
    · intro x _ _
      rfl
    · exact hInv.once id (id_valid hDesc)
  | preLoadFailed id d image size ids hStart hFits hMem hPre hAdd hAfter =>
    rcases startsLoad_iff hStart with ⟨hDesc, hSecure, -, -, -, hCall, -⟩
    have hValid := id_valid hDesc
    rcases count_addLoadedId hAdd hValid with ⟨hHere, hOthers⟩
    have hOnce := hInv.once id hValid
    apply hInv.drop_image hDesc (ne_next_of_secure hDesc hSecure) rfl hAfter
    · intro x hx _
      exact Option.some.inj (hx.symm.trans hCall)
    · exact hOthers
    · show ids.count id ≤ 1
      omega
  | loaded id d size block ids hStart hFits hAdd hCall hBlock =>
    rcases startsLoad_iff hStart with ⟨hDesc, hSecure, hReset, hSize, hMax, -, -⟩
    apply hInv.load_image hDesc (ne_next_of_secure hDesc hSecure) rfl ?_ hCall hAdd
      ⟨by show 1 ≤ size; omega, hMax⟩
    · intro other d' hNe hCopied hDesc'
      exact hInv.apart_of_fits hDesc hSize hMax hFits hNe hCopied hDesc'
    · show (if block = size then ImageState.copied
        else .copying) ≠ .reset
      split <;> simp
  | continued id d block ids hDesc hSecure hBefore hAdd hCall hBlock =>
    have hCopied := hInv.loading id (Or.inl hBefore)
    rcases hInv.copied_image id hCopied with ⟨-, -, d', hDesc', hRange⟩
    rw [hDesc] at hDesc'
    cases hDesc'
    apply hInv.load_image hDesc (ne_next_of_secure hDesc hSecure) rfl ?_ hCall hAdd
      (by exact hRange)
    · intro other d' hNe hOther hDesc'
      exact hInv.copied_apart id other d d' (Ne.symm hNe) hCopied hOther hDesc hDesc'
    · split <;> simp
  | authFailedInPlace id d size ids hDesc hBefore hAdd =>
    have hValid := id_valid hDesc
    rcases count_addLoadedId hAdd hValid with ⟨hHere, hOthers⟩
    rcases count_getD_remove ids hValid with ⟨hLess, hRest⟩
    have hOnce := hInv.once id hValid
    apply hInv.drop_image hDesc (hInv.ne_next_of_state (by simp [hBefore])) rfl (by exact hBefore)
    · intro x _ hZero
      exact absurd hZero (by decide)
    · intro x hx hNe
      exact (hRest x hx hNe).trans (hOthers x hx hNe)
    · show ((bl1FwuRemoveLoadedId ids id).getD ids).count id ≤ 1
      omega
  | authInPlace id d size ids hDesc hBefore hOrigin hAdd hCall =>
    exact hInv.auth_in_place hDesc (hInv.ne_next_of_state (by simp [hBefore])) rfl hBefore
      (copies_none_of_authenticates hCall) hAdd
  | authFailed id d hDesc hBefore =>
    have hValid := id_valid hDesc
    rcases count_getD_remove t.state.loadedIds hValid with ⟨hLess, hRest⟩
    have hOnce := hInv.once id hValid
    apply hInv.drop_image hDesc (hInv.ne_next_of_state (by simp [hBefore])) rfl rfl
    · intro x _ hZero
      exact absurd hZero (by decide)
    · exact hRest
    · exact Nat.le_trans hLess hOnce
  | authCopied id d hDesc hBefore hCall =>
    exact hInv.keep_image hDesc (hInv.ne_next_of_state (by simp [hBefore])) rfl
      (by simp [hBefore]) (by simp) rfl
      (copies_none_of_authenticates hCall) rfl
  | executed id d hDesc hSecure hExecutable hBefore hCaller hCall =>
    rcases hCall with ⟨imageId, hCall, -⟩
    exact hInv.keep_image hDesc (ne_next_of_secure hDesc hSecure) rfl
      (by simp [hBefore]) (by simp) rfl
      (by simp [hCall, Call.copies]) rfl
  | resumed d param hDesc hSecure hExecutable hBefore hCaller hCall =>
    exact hInv.keep_image hDesc (ne_next_of_secure hDesc hSecure) rfl
      (by simp [hBefore]) (by simp) rfl
      (by simp [hCall, Call.copies]) rfl
  | yielded d param hDesc hSecure hExecutable hBefore hCaller hCall =>
    exact hInv.keep_image hDesc (ne_next_of_secure hDesc hSecure) rfl
      (by simp [hBefore]) (by simp) rfl
      (by simp [hCall, Call.copies]) rfl
  | done d ids hDesc hSecure hBefore hRemove hCaller hCall =>
    have hValid := id_valid hDesc
    rcases count_removeLoadedId hRemove hValid with ⟨hHere, hOthers⟩
    have hOnce := hInv.once _ hValid
    apply hInv.drop_image hDesc (ne_next_of_secure hDesc hSecure) rfl rfl
    · intro x hx _
      simp [hCall, Call.copies] at hx
    · exact hOthers
    · show ids.count _ ≤ 1
      omega
  | reset id d ids hDesc hBefore hRemove hSecure hCaller hCall =>
    rcases hCall with ⟨imageId, hCall, -⟩
    have hValid := id_valid hDesc
    rcases count_removeLoadedId hRemove hValid with ⟨hHere, hOthers⟩
    have hOnce := hInv.once id hValid
    apply hInv.drop_image hDesc (hInv.ne_next_of_state hBefore.2) rfl rfl
    · intro x hx _
      simp [hCall, Call.copies] at hx
    · exact hOthers
    · show ids.count id ≤ 1
      omega

theorem effect_of_step (hStep : t.step p l = some t') :
    ∃ s' ret, t.state.bl1FwuSmcHandler p l = .ok (s', ret) ∧
      Effect p t.state l s' ret ∧ t' = after p t l s' ret := by
  unfold Tracked.step at hStep
  split at hStep
  · cases hStep
  · rename_i s' ret hRun
    cases hStep
    exact ⟨s', ret, hRun, effect_of_handler hRun, rfl⟩

theorem step (hInv : BaseInv p t) (hStep : t.step p l = some t') :
    BaseInv p t' := by
  rcases effect_of_step hStep with ⟨s', ret, -, hEffect, rfl⟩
  exact hInv.effect hEffect

end BaseInv

end Tfa.Fwu
