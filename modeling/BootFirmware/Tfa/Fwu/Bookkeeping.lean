import BootFirmware.Tfa.Fwu.History

/-
  Bookkeeping of the loaded images: an image is listed once
  and only while it is not in the reset state, copied images
  lie apart, and the overlap check never fails an assertion.

  Two slips break this.  When the platform refuses to load
  an image, the image stays listed in the reset state; and
  the overlap check takes an image of one byte for one that
  overflows.  Both happen in a request that starts to load
  an image, and `LoadsCleanly` excludes exactly them.

  Key definitions include:
    * `State.meetsTinyImage`
    * `LoadsCleanly`
    * `Bookkeeping`

  The main results are:
    * `fwu_bookkeeping`
    * `fwu_preload_failure_keeps_id`
-/

----
-- Clean Loads
----

namespace Tfa.Fwu

open List

namespace State

/-
  The overlap check comes, before it finds an overlap, to an
  image whose last address is not after its first: an image
  of one byte, or one that wraps around.
-/
def meetsTinyImage (p : Platform) (s : State) (imageId checkedBase checkedEnd : Nat) :
    List Nat → Bool
  | [] => false
  | id :: rest =>
    if id = invalidImageId ∨ id = imageId then
      s.meetsTinyImage p imageId checkedBase checkedEnd rest
    else
      match p.bl1PlatGetImageDesc id with
      | none => false
      | some d =>
        if (s.image id).imageSize = 0 then
          s.meetsTinyImage p imageId checkedBase checkedEnd rest
        else if s.imageEnd id d.imageBase ≤ d.imageBase
            then
          true
        else if s.imageEnd id d.imageBase < checkedBase ∨ checkedEnd < d.imageBase then
          s.meetsTinyImage p imageId checkedBase checkedEnd rest
        else
          false

end State

/-
  A request that starts to load an image meets no tiny image
  in the overlap check, and if it gets as far as asking the
  platform to load the image, the platform agrees.
-/
def LoadsCleanly (p : Platform) (s : State)
    (l : Smc) : Prop :=
  match s.startsLoad p l with
  | none => True
  | some (id, d, size) =>
    s.meetsTinyImage p id d.imageBase (d.imageBase + size - 1) s.loadedIds = false ∧
      (s.fitsBeside p id d size = .ok false → l.env.memCheckOk = true →
        (bl1FwuAddLoadedId s.loadedIds id).isSome = true → l.env.preImageLoadOk = true)

instance
    (p : Platform) (s : State)
    (l : Smc) : Decidable (LoadsCleanly p s l) := by
  unfold LoadsCleanly
  split <;> infer_instance

/-
  Every image but the one that started the update is listed
  at most once, and exactly while it is not reset; copied
  images do not overlap, and images being copied or copied
  and not yet authenticated are among them.
-/
structure Bookkeeping (p : Platform) (t : Tracked) : Prop where
  once : ∀ id d, p.bl1PlatGetImageDesc id = some d → t.state.loadedIds.count id ≤ 1
  listed :
    ∀ id d, p.bl1PlatGetImageDesc id = some d →
      id ≠ p.nextImageId → (id ∈ t.state.loadedIds ↔ (t.state.image id).state ≠ .reset)
  copied_states :
    ∀ id, (t.state.image id).state = .copying ∨
      (t.state.image id).state = .copied → t.copied id = true
  disjoint :
    ∀ id other d d', id ≠ other → t.copied id = true → t.copied other = true →
      p.bl1PlatGetImageDesc id = some d → p.bl1PlatGetImageDesc other = some d' →
        d.imageBase + (t.state.image id).imageSize ≤ d'.imageBase ∨
          d'.imageBase + (t.state.image other).imageSize ≤ d.imageBase

/- The invariant, with the images that are listed. -/
structure BookInv (p : Platform) (t : Tracked) : Prop where
  base : BaseInv p t
  in_use : ∀ id, id ≠ invalidImageId → id ∈ t.state.loadedIds → (t.state.image id).state ≠ .reset

namespace BookInv

variable {p : Platform} {t t' : Tracked}

theorem bookkeeping (hInv : BookInv p t) : Bookkeeping p t where
  once := fun id _ hDesc => hInv.base.once id (BaseInv.id_valid hDesc)
  listed := fun id _ hDesc hNext =>
    ⟨hInv.in_use id (BaseInv.id_valid hDesc), hInv.base.listed id hNext⟩
  copied_states := hInv.base.loading
  disjoint := hInv.base.copied_apart

theorem initial (p : Platform) (mem : Nat → UInt8) :
    BookInv p (Tracked.initial p mem) := by
  refine ⟨BaseInv.initial p mem, ?_⟩
  intro id hId hMem
  exact absurd (eq_of_mem_replicate hMem) hId

----
-- The Overlap Check
----

variable {s : State} {imageId checkedBase checkedEnd : Nat}

/-
  With only images in use listed, the check fails an
  assertion exactly when it meets a tiny image.
-/
theorem checkOverlapsLoop_error_iff {ids : List Nat}
    (hUsed :
      ∀ id ∈ ids, id ≠ invalidImageId → id ≠ imageId →
        (s.image id).state ≠ .reset ∧ ∃ d, p.bl1PlatGetImageDesc id = some d) :
    s.checkOverlapsLoop p imageId checkedBase checkedEnd ids = .error .overlapAssertion ↔
      s.meetsTinyImage p imageId checkedBase checkedEnd ids = true := by
  induction ids with
  | nil => simp [State.checkOverlapsLoop, State.meetsTinyImage]
  | cons id rest ih =>
    have hRest := ih (fun x hx => hUsed x (mem_cons_of_mem id hx))
    unfold State.checkOverlapsLoop State.meetsTinyImage
    split
    · exact hRest
    rename_i hSkip
    simp only [not_or] at hSkip
    rcases hUsed id (mem_cons_self) hSkip.1 hSkip.2 with ⟨hState, d, hDesc⟩
    simp only [hDesc, if_neg hState]
    split
    · exact hRest
    split
    · simp
    split
    · exact hRest
    · simp

/- The check does not look at the image being loaded. -/
theorem meetsTinyImage_setImage {image : Image} (ids : List Nat) :
    (s.setImage imageId image).meetsTinyImage p imageId checkedBase checkedEnd ids =
      s.meetsTinyImage p imageId checkedBase checkedEnd ids
    := by
  induction ids with
  | nil => rfl
  | cons id rest ih =>
    unfold State.meetsTinyImage
    split
    · exact ih
    rename_i hSkip
    simp only [not_or] at hSkip
    have hSame : (s.setImage imageId image).image id = s.image id := by
      simp [State.setImage, hSkip.2]
    have hEnd : ∀ base, (s.setImage imageId image).imageEnd id base = s.imageEnd id base := by
      intro base
      simp only [State.imageEnd, hSame]
    simp only [hSame, hEnd, ih]

variable {l : Smc}

variable {id size : Nat} {d : ImageDesc}

/-
  In a state with only images in use listed, a request that
  starts a load fails the check exactly when it meets a tiny
  image.
-/
theorem fitsBeside_error_iff
    (hInv : BookInv p t) (hStart : t.state.startsLoad p l = some (id, d, size)) :
    t.state.fitsBeside p id d size = .error .overlapAssertion ↔
      t.state.meetsTinyImage p id d.imageBase
        (d.imageBase + size - 1) t.state.loadedIds = true := by
  rcases startsLoad_iff hStart with ⟨hDesc, -, -, hSize, hMax, -⟩
  unfold State.fitsBeside State.bl1FwuImageCheckOverlaps
  rw [if_neg (by simpa using hSize), imageEnd_of_fits hDesc (by simpa using hMax),
    State.setImage_image_self]
  rw [checkOverlapsLoop_error_iff, meetsTinyImage_setImage]
  · exact Iff.rfl
  · intro x hMem hValid hNe
    have hState := hInv.in_use x hValid hMem
    refine ⟨?_, hInv.base.valid x hState⟩
    simpa [State.setImage, hNe] using hState

/- Only a request that starts a load runs the check. -/
theorem startsLoad_of_overlap (hFail : s.bl1FwuSmcHandler p l = .error .overlapAssertion) :
    s.startsLoad p l ≠ none := by
  unfold State.bl1FwuSmcHandler at hFail
  split at hFail
  case h_1 imageId imageSrc blockSize imageSize hCall =>
    simp only [State.bl1FwuImageCopy] at hFail
    split at hFail
    · cases hFail
    rename_i d hDesc
    split at hFail
    · cases hFail
    rename_i hCaller
    split at hFail
    · cases hFail
    rename_i hSecurity
    split at hFail
    · cases hFail
    rename_i hState
    split at hFail
    · cases hFail
    rename_i hArgs
    split at hFail
    · split at hFail
      · cases hFail
      · exact absurd hFail copyBlock_ne_error
    rename_i hNotCopying
    split at hFail
    · cases hFail
    rename_i hSize
    split at hFail
    · cases hFail
    have hReset : (s.image (imageId % 2 ^ 32)).state = .reset := by
      by_contra hNot
      exact hState ⟨hNot, hNotCopying⟩
    have hNonSecure := l.caller.eq_nonSecure hCaller
    have hSecure := d.security.eq_secure hSecurity
    simp only [not_or] at hArgs
    simp only [State.startsLoad, hCall, hDesc]
    rw [if_pos]
    · simp
    · exact ⟨hNonSecure, hSecure, hReset, hArgs.1, hArgs.2.1,
        by simpa using hArgs.2.2, hSize, by omega⟩
  case h_2 hCall =>
    simp only [State.bl1FwuImageAuth, State.finishAuth] at hFail
    repeat' split at hFail
    all_goals cases hFail
  case h_3 hCall =>
    simp only [State.bl1FwuImageExecute] at hFail
    repeat' split at hFail
    all_goals cases hFail
  case h_4 hCall =>
    simp only [State.bl1FwuImageResume] at hFail
    repeat' split at hFail
    all_goals cases hFail
  case h_5 hCall =>
    simp only [State.bl1FwuSecImageDone] at hFail
    repeat' split at hFail
    all_goals cases hFail
  case h_6 hCall =>
    simp only [State.bl1FwuImageReset] at hFail
    repeat' split at hFail
    all_goals cases hFail

/-
  With only images in use listed, the assertions fail for
  exactly the requests that meet a tiny image.
-/
theorem overlap_iff (hInv : BookInv p t) :
    t.state.bl1FwuSmcHandler p l = .error .overlapAssertion ↔ ∃ id d size,
        t.state.startsLoad p l = some (id, d, size) ∧ t.state.meetsTinyImage p id d.imageBase
            (d.imageBase + size - 1) t.state.loadedIds = true := by
  constructor
  · intro hFail
    rcases Option.ne_none_iff_exists'.mp (startsLoad_of_overlap hFail) with ⟨⟨id, d, size⟩, hStart⟩
    rcases startsLoad_iff hStart with ⟨-, -, -, -, -, -, blockSize, -, hHandler⟩
    rw [hHandler, startCopy_error_iff] at hFail
    exact ⟨id, d, size, hStart, (hInv.fitsBeside_error_iff hStart).mp hFail⟩
  · rintro ⟨id, d, size, hStart, hTiny⟩
    rcases startsLoad_iff hStart with ⟨-, -, -, -, -, -, blockSize, -, hHandler⟩
    rw [hHandler, startCopy_error_iff]
    exact (hInv.fitsBeside_error_iff hStart).mpr hTiny

----
-- Steps
----

/- One image and its place in the list have changed. -/
theorem put_in_use {id : Nat} {image : Image} {s' : State}
    (hInv : BookInv p t) (hImage : s'.image = Function.update t.state.image id image)
    (hOthers : ∀ x, x ≠ invalidImageId → x ≠ id → s'.loadedIds.count x = t.state.loadedIds.count x)
    (hHere : id ∈ s'.loadedIds → image.state ≠ .reset) :
    ∀ x, x ≠ invalidImageId → x ∈ s'.loadedIds → (s'.image x).state ≠ .reset := by
  intro x hValid hMem
  rw [hImage]
  by_cases hEq : x = id
  · subst hEq
    rw [Function.update_self]
    exact hHere hMem
  · rw [Function.update_of_ne hEq]
    apply hInv.in_use x hValid
    rw [← count_pos_iff] at hMem ⊢
    rw [← hOthers x hValid hEq]
    exact hMem

theorem count_reset {id : Nat} (hInv : BookInv p t) (hValid : id ≠ invalidImageId)
    (hReset : (t.state.image id).state = .reset) :
    t.state.loadedIds.count id = 0 := by
  rw [count_eq_zero]
  intro hMem
  exact hInv.in_use id hValid hMem hReset

theorem not_preLoadFailed
    {ids : List Nat} (hClean : LoadsCleanly p s l) (hStart : s.startsLoad p l = some (id, d, size))
    (hFits : s.fitsBeside p id d size = .ok false) (hMem : l.env.memCheckOk = true)
    (hAdd : bl1FwuAddLoadedId s.loadedIds id = some ids) :
    l.env.preImageLoadOk = true := by
  unfold LoadsCleanly at hClean
  rw [hStart] at hClean
  exact hClean.2 hFits hMem (by simp [hAdd])

/- Only images in use stay listed after a clean step. -/
theorem in_use_effect {s' : State} {ret : Int}
    (hInv : BookInv p t) (hClean : LoadsCleanly p t.state l) (hEffect : Effect p t.state l s' ret) :
    ∀ x, x ≠ invalidImageId → x ∈ s'.loadedIds → (s'.image x).state ≠ .reset := by
  cases hEffect with
  | refused ret hCopy hAuth => exact hInv.in_use
  | recorded id d image ret hDesc hSecure hBefore hAfter hRet =>
    have hValid := BaseInv.id_valid hDesc
    apply hInv.put_in_use rfl
    · intro x _ _
      rfl
    · intro hMem
      exact absurd hBefore (hInv.in_use id hValid hMem)
  | preLoadFailed id d image size ids hStart hFits hMem hPre hAdd hAfter =>
    have hTrue := not_preLoadFailed hClean hStart hFits hMem hAdd
    rw [hPre] at hTrue
    cases hTrue
  | loaded id d size block ids hStart hFits hAdd hCall hBlock =>
    have hValid := BaseInv.id_valid (startsLoad_iff hStart).1
    apply hInv.put_in_use rfl (count_addLoadedId hAdd hValid).2
    intro _
    split <;> simp
  | continued id d block ids hDesc hSecure hBefore hAdd hCall hBlock =>
    have hValid := BaseInv.id_valid hDesc
    apply hInv.put_in_use rfl (count_addLoadedId hAdd hValid).2
    intro _
    split <;> simp
  | authFailedInPlace id d size ids hDesc hBefore hAdd =>
    have hValid := BaseInv.id_valid hDesc
    have hZero := hInv.count_reset hValid hBefore
    rcases count_addLoadedId hAdd hValid with ⟨hHere, hOthers⟩
    have hIn : id ∈ ids := by
      apply count_pos_iff.mp
      omega
    rcases removeLoadedId_isSome hIn with ⟨ids', hRemove⟩
    rcases count_removeLoadedId hRemove hValid with ⟨hGone, hRest⟩
    rw [hRemove, Option.getD_some]
    apply hInv.put_in_use rfl
    · intro x hx hNe
      exact (hRest x hx hNe).trans (hOthers x hx hNe)
    · intro hMem
      have hPos : 0 < ids'.count id := count_pos_iff.mpr hMem
      omega
  | authInPlace id d size ids hDesc hBefore hOrigin hAdd hCall =>
    have hValid := BaseInv.id_valid hDesc
    apply hInv.put_in_use rfl (count_addLoadedId hAdd hValid).2
    intro _
    simp
  | authFailed id d hDesc hBefore =>
    have hValid := BaseInv.id_valid hDesc
    have hOnce := hInv.base.once id hValid
    have hNext : id ≠ p.nextImageId := hInv.base.ne_next_of_state (by simp [hBefore])
    have hIn := hInv.base.listed id hNext (by simp [hBefore])
    rcases removeLoadedId_isSome hIn with ⟨ids', hRemove⟩
    rcases count_removeLoadedId hRemove hValid with ⟨hGone, hRest⟩
    rw [hRemove, Option.getD_some]
    apply hInv.put_in_use rfl hRest
    intro hMem
    have hPos : 0 < ids'.count id := count_pos_iff.mpr hMem
    omega
  | authCopied id d hDesc hBefore hCall =>
    apply hInv.put_in_use rfl
    · intro x _ _
      rfl
    · intro _
      simp
  | executed id d hDesc hSecure hExecutable hBefore hCaller hCall =>
    apply hInv.put_in_use rfl
    · intro x _ _
      rfl
    · intro _
      simp
  | resumed d param hDesc hSecure hExecutable hBefore hCaller hCall =>
    apply hInv.put_in_use rfl
    · intro x _ _
      rfl
    · intro _
      simp
  | yielded d param hDesc hSecure hExecutable hBefore hCaller hCall =>
    apply hInv.put_in_use rfl
    · intro x _ _
      rfl
    · intro _
      simp
  | done d ids hDesc hSecure hBefore hRemove hCaller hCall =>
    have hValid := BaseInv.id_valid hDesc
    have hOnce := hInv.base.once _ hValid
    rcases count_removeLoadedId hRemove hValid with ⟨hGone, hRest⟩
    apply hInv.put_in_use rfl hRest
    intro hMem
    have hPos : 0 < ids.count t.state.secExecImageId := count_pos_iff.mpr hMem
    omega
  | reset id d ids hDesc hBefore hRemove hSecure hCaller hCall =>
    have hValid := BaseInv.id_valid hDesc
    have hOnce := hInv.base.once id hValid
    rcases count_removeLoadedId hRemove hValid with ⟨hGone, hRest⟩
    apply hInv.put_in_use rfl hRest
    intro hMem
    have hPos : 0 < ids.count id := count_pos_iff.mpr hMem
    omega

theorem step
    (hInv : BookInv p t) (hClean : LoadsCleanly p t.state l) (hStep : t.step p l = some t') :
    BookInv p t' := by
  refine ⟨hInv.base.step hStep, ?_⟩
  rcases BaseInv.effect_of_step hStep with ⟨s', ret, -, hEffect, rfl⟩
  exact hInv.in_use_effect hClean hEffect

/- The invariant holds in every run of clean steps. -/
theorem reachable {mem : Nat → UInt8}
    (hReach :
      (TransitionSystem.ofStep (Tracked.initial p mem)
        (Tracked.step p)).ReachableBy (fun t l => LoadsCleanly p t.state l) t) :
    BookInv p t := by
  refine hReach.invariant ?_ ?_
  · rintro s rfl
    exact initial p mem
  · intro s l s' hInv hClean hStep
    exact hInv.step hClean hStep

/- A refusal by the platform leaves a reset image listed. -/
theorem step_of_preLoad_refused (hStart : t.state.startsLoad p l = some (id, d, size))
    (hFits : t.state.fitsBeside p id d size = .ok false) (hMem : l.env.memCheckOk = true)
    (hAdd : (bl1FwuAddLoadedId t.state.loadedIds id).isSome = true)
    (hPre : l.env.preImageLoadOk = false) :
    ∃ t', t.step p l = some t' ∧ id ∈ t'.state.loadedIds ∧ (t'.state.image id).state = .reset := by
  rcases startsLoad_iff hStart with ⟨hDesc, -, hReset, -, -, -, blockSize, -, hHandler⟩
  rcases Option.isSome_iff_exists.mp hAdd with ⟨ids, hIds⟩
  have hValid := BaseInv.id_valid hDesc
  have hIn : id ∈ ids := by
    have hHere := (count_addLoadedId hIds hValid).1
    apply count_pos_iff.mp
    omega
  have hRun :
      ∃ s', t.state.bl1FwuSmcHandler p l = .ok (s', -eperm) ∧ s'.loadedIds = ids ∧
        (s'.image id).state = .reset := by
    unfold State.fitsBeside at hFits
    rw [hHandler]
    dsimp only [State.startCopy]
    rw [hFits]
    dsimp only [State.copyBlock]
    rw [if_neg (by simp [hMem])]
    have hSame :
        bl1FwuAddLoadedId
          ((t.state.setImage id
            { t.state.image id with
              imageSize := size }).setImage id
            { (t.state.setImage id
                { t.state.image id with
                  imageSize := size }).image id with
              copiedSize := 0 }).loadedIds id = some ids :=
      hIds
    rw [hSame]
    dsimp only
    rw [if_pos ⟨by simp [hReset], hPre⟩]
    exact ⟨_, rfl, rfl, by simp [State.setImage, hReset]⟩
  rcases hRun with ⟨s', hRun, hList, hState⟩
  refine ⟨BaseInv.after p t l s' (-eperm), ?_, ?_, hState⟩
  · unfold Tracked.step
    rw [hRun]
    rfl
  · show id ∈ s'.loadedIds
    rw [hList]
    exact hIn

end BookInv

----
-- Bookkeeping Of Runs
----

/-
  In every run of clean steps the bookkeeping is right, and
  exactly the clean steps keep it so without failing one of
  the assertions of the overlap check.  The image that BL1
  started by itself is the one that is in use and not listed.
-/
theorem fwu_bookkeeping (p : Platform) (mem : Nat → UInt8) (t : Tracked)
    (hReach :
      (TransitionSystem.ofStep (Tracked.initial p mem)
        (Tracked.step p)).ReachableBy (fun t l => LoadsCleanly p t.state l) t) :
    Bookkeeping p t ∧ (∀ id d, p.bl1PlatGetImageDesc id = some d →
        ((id ∈ t.state.loadedIds ↔ (t.state.image id).state ≠ .reset) ↔ id ≠ p.nextImageId)) ∧
      ∀ l, (t.state.bl1FwuSmcHandler p l ≠ .error .overlapAssertion ∧
          ∀ t', t.step p l = some t' → Bookkeeping p t') ↔
        LoadsCleanly p t.state l := by
  have hInv := BookInv.reachable hReach
  refine ⟨hInv.bookkeeping, ?_, ?_⟩
  · intro id d hDesc
    constructor
    · rintro hIff rfl
      refine hInv.base.unlisted (hIff.mpr ?_)
      rw [hInv.base.running]
      simp
    · exact hInv.bookkeeping.listed id d hDesc
  · intro l
    constructor
    · rintro ⟨hNoFault, hKeeps⟩
      unfold LoadsCleanly
      split
      · trivial
      rename_i id d size hStart
      refine ⟨?_, ?_⟩
      · cases hTiny :
          t.state.meetsTinyImage p id d.imageBase (d.imageBase + size - 1) t.state.loadedIds with
        | false => rfl
        | true =>
          refine absurd ?_ hNoFault
          exact hInv.overlap_iff.mpr ⟨id, d, size, hStart, hTiny⟩
      · intro hFits hMem hAdd
        cases hPre : l.env.preImageLoadOk with
        | true => rfl
        | false =>
          rcases BookInv.step_of_preLoad_refused hStart
            hFits hMem hAdd hPre with ⟨t', hStep, hIn, hReset⟩
          rcases startsLoad_iff hStart with ⟨hDesc, hSecure, -⟩
          have hNext := BaseInv.ne_next_of_secure hDesc hSecure
          have hListed := (hKeeps t' hStep).listed id d hDesc hNext
          exact absurd hReset (hListed.mp hIn)
    · intro hClean
      constructor
      · intro hFail
        rcases hInv.overlap_iff.mp hFail with ⟨id, d, size, hStart, hTiny⟩
        unfold LoadsCleanly at hClean
        rw [hStart] at hClean
        have hNone := hClean.1
        rw [hTiny] at hNone
        cases hNone
      · intro t' hStep
        exact (hInv.step hClean hStep).bookkeeping

/- Two images have been copied. -/
theorem fwu_bookkeeping_two_copied :
    ∃ t : Tracked, (TransitionSystem.ofStep (Tracked.initial twoImages (fun _ => 0))
        (Tracked.step twoImages)).ReachableBy (fun t l => LoadsCleanly twoImages t.state l) t ∧
      ((t.state.image 1).state = .copied ∧ (t.state.image 2).state = .copied ∧
        t.state.loadedIds.take 2 = [1, 2]) ∧
      Bookkeeping twoImages t := by
  rcases TransitionSystem.exists_reachableBy (Tracked.step twoImages)
    (fun t l => LoadsCleanly twoImages t.state l) (Tracked.initial twoImages (fun _ => 0))
    [copyWhole 1 0x1000 true, copyWhole 2 0x10 true]
    (fun t => (t.state.image 1).state = .copied ∧ (t.state.image 2).state = .copied ∧
      t.state.loadedIds.take 2 = [1, 2])
    (by decide +kernel) with ⟨t, hReach, hFacts⟩
  exact ⟨t, hReach, hFacts, (fwu_bookkeeping twoImages (fun _ => 0) t hReach).1⟩

/-
  After the platform refused to load an image it is listed
  in the reset state; and once an image of one byte has been
  loaded, loading another one fails an assertion.
-/
theorem fwu_preload_failure_keeps_id :
    (∃ t : Tracked, (TransitionSystem.ofStep (Tracked.initial twoImages (fun _ => 0))
        (Tracked.step twoImages)).Reachable t ∧
      ¬ Bookkeeping twoImages t) ∧
    ∃ t : Tracked, (TransitionSystem.ofStep (Tracked.initial twoImages (fun _ => 0))
        (Tracked.step twoImages)).Reachable t ∧
      t.state.bl1FwuSmcHandler twoImages (copyWhole 2 0x10 true) = .error .overlapAssertion := by
  constructor
  · rcases TransitionSystem.exists_reachableBy (Tracked.step twoImages) (fun _ _ => True)
      (Tracked.initial twoImages (fun _ => 0))
      [copyWhole 1 0x1000 false]
      (fun t => 1 ∈ t.state.loadedIds ∧ (t.state.image 1).state = .reset)
      (by decide +kernel) with ⟨t, hReach, hIn, hReset⟩
    refine ⟨t, hReach, ?_⟩
    intro hBooks
    exact (hBooks.listed 1 _ rfl (by decide)).mp hIn hReset
  · rcases TransitionSystem.exists_reachableBy (Tracked.step twoImages) (fun _ _ => True)
      (Tracked.initial twoImages (fun _ => 0))
      [copyWhole 1 1 true]
      (fun t => t.state.bl1FwuSmcHandler twoImages
        (copyWhole 2 0x10 true) matches .error .overlapAssertion)
      (by decide +kernel) with ⟨t, hReach, hFault⟩
    refine ⟨t, hReach, ?_⟩
    revert hFault
    cases hRun : t.state.bl1FwuSmcHandler twoImages (copyWhole 2 0x10 true) with
    | error fault => cases fault <;> simp
    | ok done => simp

end Tfa.Fwu
