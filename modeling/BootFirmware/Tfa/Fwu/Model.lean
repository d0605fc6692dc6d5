import Mathlib.Algebra.Group.Nat.Defs
import BootFirmware.Lib.TransitionSystem
import Mathlib.Data.List.Basic
import Mathlib.Logic.Function.Basic

/-
  The firmware update service of BL1: the image descriptors,
  the list of loaded images and the handlers of the SMCs.

  What the platform hooks and the authentication module
  answer, and the bytes found at a source address, are
  inputs of each SMC.  Memory is what BL1 writes: blocks it
  copies and ranges it clears.

  Key definitions include:
    * `Platform` and `State`
    * `State.bl1FwuImageCheckOverlaps`
    * `State.bl1FwuImageCopy`
    * `State.bl1FwuImageAuth`
    * `State.bl1FwuImageExecute`
    * `State.bl1FwuImageResume`
    * `State.bl1FwuSecImageDone`
    * `State.bl1FwuImageReset`
    * `Smc` and `State.bl1FwuSmcHandler`
-/

----
-- Descriptors
----

namespace Tfa.Fwu

inductive World where
  | secure
  | nonSecure
  deriving DecidableEq

/- `IMAGE_STATE_*`. -/
inductive ImageState where
  | reset
  | copied
  | copying
  | authenticated
  | executed
  | interrupted
  deriving DecidableEq

/- The part of an image descriptor that never changes. -/
structure ImageDesc where
  security : World
  executable : Bool
  imageBase : Nat
  imageMaxSize : Nat
  deriving DecidableEq

/- `INVALID_IMAGE_ID`. -/
def invalidImageId : Nat := 0xFFFFFFFF

/-
  The image descriptors of a platform, the length of
  `bl1_fwu_loaded_ids`, and the image that BL1 runs to start
  the update, which is a non-secure one.  Every image fits
  at its base.
-/
structure Platform where
  bl1PlatGetImageDesc : Nat → Option ImageDesc
  fwuMaxSimultaneousImages : Nat
  nextImageId : Nat
  invalid_none : bl1PlatGetImageDesc invalidImageId = none
  next_nonSecure : ∃ d, bl1PlatGetImageDesc nextImageId = some d ∧ d.security = .nonSecure
  fits :
    ∀ id d, bl1PlatGetImageDesc id = some d →
      d.imageBase + d.imageMaxSize ≤ 2 ^ 64 ∧ d.imageMaxSize < 2 ^ 32

/- The part of an image descriptor that changes. -/
structure Image where
  state : ImageState
  copiedSize : Nat
  imageSize : Nat
  deriving DecidableEq

/-
  The data of the service.  `world` is the world that runs
  when BL1 returns.
-/
structure State where
  image : Nat → Image
  loadedIds : List Nat
  secExecImageId : Nat
  mem : Nat → UInt8
  world : World

/- Why a call does not return. -/
inductive Fault where
  | overlapAssertion
  | resumeAssertion
  | halt
  deriving DecidableEq

abbrev Outcome : Type := Except Fault (State × Int)

def eperm : Int := 1
def enomem : Int := 12
def eauth : Int := 80

/- What the platform answers during a call. -/
structure Env where
  sourceBytes : Nat → UInt8
  memCheckOk : Bool
  preImageLoadOk : Bool
  postImageLoadOk : Bool
  verifyOk : Bool

----
-- Loaded Images
----

/- Overwrite the first slot that holds a value. -/
def replaceFirst (old new : Nat) : List Nat → Option (List Nat)
  | [] => none
  | id :: rest =>
    if id = old then some (new :: rest)
    else (replaceFirst old new rest).map (id :: ·)

/- `bl1_fwu_add_loaded_id`; `none` when it fails. -/
def bl1FwuAddLoadedId (ids : List Nat)
    (imageId : Nat) : Option (List Nat) :=
  if imageId ∈ ids then some ids
  else replaceFirst invalidImageId imageId ids

/- `bl1_fwu_remove_loaded_id`; `none` when it fails. -/
def bl1FwuRemoveLoadedId (ids : List Nat)
    (imageId : Nat) : Option (List Nat) :=
  replaceFirst imageId invalidImageId ids

/- `check_uptr_overflow`. -/
def checkUptrOverflow (ptr inc : Nat) : Bool :=
  decide (2 ^ 64 ≤ ptr + inc)

namespace State

def setImage (s : State) (imageId : Nat)
    (image : Image) : State :=
  { s with image := Function.update s.image imageId image }

/- Write a range of memory. -/
def writeMem (s : State) (base size : Nat)
    (bytes : Nat → UInt8) : State :=
  { s with
    mem := fun a =>
      if base ≤ a ∧ a < base + size then bytes (a - base)
      else s.mem a }

/- `zero_normalmem`. -/
def zeroNormalmem (s : State) (base size : Nat) : State :=
  s.writeMem base size (fun _ => 0)

/- The bytes of a range of memory. -/
def readMem (s : State) (base size : Nat) : List UInt8 :=
  (List.range size).map (fun i => s.mem (base + i))

/- The last address of an image, in 64-bit arithmetic. -/
def imageEnd (s : State) (imageId base : Nat) : Nat :=
  (base + (s.image imageId).imageSize - 1) % 2 ^ 64

/-
  The loop of `bl1_fwu_image_check_overlaps` for the image
  with the given first and last address.  The result says
  whether an overlap was found.
-/
def checkOverlapsLoop (p : Platform) (s : State) (imageId checkedBase checkedEnd : Nat) :
    List Nat → Except Fault Bool
  | [] => .ok false
  | id :: rest =>
    if id = invalidImageId ∨ id = imageId then
      s.checkOverlapsLoop p imageId checkedBase checkedEnd rest
    else
      match p.bl1PlatGetImageDesc id with
      | none => .error .overlapAssertion
      | some d =>
        if (s.image id).state = .reset then
          .error .overlapAssertion
        else if (s.image id).imageSize = 0 then
          s.checkOverlapsLoop p imageId checkedBase checkedEnd rest
        else if s.imageEnd id d.imageBase ≤ d.imageBase
            then
          .error .overlapAssertion
        else if s.imageEnd id d.imageBase < checkedBase ∨ checkedEnd < d.imageBase then
          s.checkOverlapsLoop p imageId checkedBase checkedEnd rest
        else
          .ok true

/- `bl1_fwu_image_check_overlaps`. -/
def bl1FwuImageCheckOverlaps (p : Platform) (s : State)
    (imageId base : Nat) : Except Fault Bool :=
  if (s.image imageId).imageSize = 0 then
    .error .overlapAssertion
  else
    s.checkOverlapsLoop p imageId base (s.imageEnd imageId base) s.loadedIds

----
-- Copying
----

/-
  The end of `bl1_fwu_image_copy`: one block is copied to
  where the previous one ended.
-/
def copyBlock (s : State) (env : Env)
    (imageId base blockSize : Nat) : Outcome :=
  let image := s.image imageId
  let remaining := image.imageSize - image.copiedSize
  let blockSize := min blockSize remaining
  if env.memCheckOk = false then
    .ok (s, -enomem)
  else
    match bl1FwuAddLoadedId s.loadedIds imageId with
    | none => .ok (s, -enomem)
    | some ids =>
      let s := { s with loadedIds := ids }
      if image.state = .reset ∧ env.preImageLoadOk = false
          then
        .ok (s, -eperm)
      else
        let s := s.writeMem (base + image.copiedSize) blockSize env.sourceBytes
        .ok (s.setImage imageId
          { image with
            copiedSize := image.copiedSize + blockSize
            state :=
              if blockSize = remaining then .copied
              else .copying }, 0)

/-
  The first request to copy an image: its size is recorded
  and checked against the images loaded before.
-/
def startCopy (p : Platform) (s : State) (env : Env) (d : ImageDesc)
    (imageId blockSize imageSize : Nat) : Outcome :=
  let s := s.setImage imageId { s.image imageId with imageSize := imageSize }
  match s.bl1FwuImageCheckOverlaps p imageId d.imageBase with
  | .error fault => .error fault
  | .ok true => .ok (s.setImage imageId { s.image imageId with imageSize := 0 }, -eperm)
  | .ok false =>
    let s := s.setImage imageId { s.image imageId with copiedSize := 0 }
    s.copyBlock env imageId d.imageBase blockSize

/- `bl1_fwu_image_copy`. -/
def bl1FwuImageCopy (p : Platform) (s : State) (env : Env) (caller : World)
    (imageId imageSrc blockSize imageSize : Nat) : Outcome :=
  match p.bl1PlatGetImageDesc imageId with
  | none => .ok (s, -eperm)
  | some d =>
    let image := s.image imageId
    if caller = .secure then
      .ok (s, -eperm)
    else if d.security = .nonSecure then
      .ok (s, -eperm)
    else if image.state ≠ .reset ∧ image.state ≠ .copying
        then
      .ok (s, -eperm)
    else if imageSrc = 0 ∨ blockSize = 0 ∨ checkUptrOverflow imageSrc (blockSize - 1) then
      .ok (s, -enomem)
    else if image.state = .copying then
      if image.copiedSize = 0 ∨ image.imageSize = 0 ∨ image.imageSize ≤ image.copiedSize then
        .error .halt
      else
        s.copyBlock env imageId d.imageBase blockSize
    else if imageSize = 0 then
      .ok (s, -enomem)
    else if d.imageMaxSize < imageSize then
      .ok (s, -enomem)
    else
      s.startCopy p env d imageId blockSize imageSize

----
-- Authentication
----

/-
  The bytes that `auth_mod_verify_img` is given: a copied
  image where it was copied to, any other one at its source.
-/
def authBytes (s : State) (env : Env)
    (imageId base imageSize : Nat) : List UInt8 :=
  if (s.image imageId).state = .copied then
    s.readMem base (s.image imageId).imageSize
  else
    (List.range imageSize).map env.sourceBytes

/- What follows the verification. -/
def finishAuth (s : State) (env : Env)
    (imageId base : Nat) : Outcome :=
  let image := s.image imageId
  if env.verifyOk = false then
    let s :=
      if image.state = .copied then
        (s.zeroNormalmem base image.imageSize).setImage imageId { image with state := .reset }
      else
        s
    let ids := (bl1FwuRemoveLoadedId s.loadedIds imageId).getD s.loadedIds
    .ok ({ s with loadedIds := ids }, -eauth)
  else if env.postImageLoadOk = false then
    .error .halt
  else
    .ok (s.setImage imageId { image with state := .authenticated }, 0)

/- `bl1_fwu_image_auth`. -/
def bl1FwuImageAuth (p : Platform) (s : State) (env : Env) (caller : World)
    (imageId imageSrc imageSize : Nat) : Outcome :=
  match p.bl1PlatGetImageDesc imageId with
  | none => .ok (s, -eperm)
  | some d =>
    let image := s.image imageId
    if caller = .secure ∧ image.state ≠ .reset then
      .ok (s, -eperm)
    else if caller = .nonSecure ∧ d.security = .secure ∧ image.state ≠ .copied then
      .ok (s, -eperm)
    else if caller = .nonSecure ∧ d.security = .nonSecure ∧ image.state ≠ .reset then
      .ok (s, -eperm)
    else if image.state = .copied then
      s.finishAuth env imageId d.imageBase
    else if imageSrc = 0 ∨ imageSize = 0 ∨ checkUptrOverflow imageSrc (imageSize - 1) then
      .ok (s, -enomem)
    else if env.memCheckOk = false then
      .ok (s, -enomem)
    else
      match bl1FwuAddLoadedId s.loadedIds imageId with
      | none => .ok (s, -enomem)
      | some ids =>
        let s := { s with loadedIds := ids }
        let s := s.setImage imageId { image with imageSize := imageSize }
        s.finishAuth env imageId d.imageBase

----
-- Execution
----

/-
  `bl1_fwu_image_execute`, with the state change that
  `bl1_prepare_next_image` makes.
-/
def bl1FwuImageExecute (p : Platform) (s : State) (caller : World)
    (imageId : Nat) : Outcome :=
  match p.bl1PlatGetImageDesc imageId with
  | none => .ok (s, -eperm)
  | some d =>
    let image := s.image imageId
    if caller = .secure ∨ d.security = .nonSecure ∨
        d.executable = false ∨ image.state ≠ .authenticated
        then
      .ok (s, -eperm)
    else
      let s := s.setImage imageId { image with state := .executed }
      .ok ({ s with
        secExecImageId := imageId
        world := .secure }, 0)

/- `bl1_fwu_image_resume`. -/
def bl1FwuImageResume (p : Platform) (s : State) (caller : World)
    (imageParam : Int) : Outcome :=
  let imageId := s.secExecImageId
  let image := s.image imageId
  match p.bl1PlatGetImageDesc imageId, caller with
  | none, .nonSecure => .ok (s, -eperm)
  | none, .secure => .error .resumeAssertion
  | some d, caller =>
    if d.security = .nonSecure ∨ d.executable = false then
      .error .resumeAssertion
    else
      match caller with
      | .secure =>
        if image.state ≠ .executed then
          .error .resumeAssertion
        else
          let s := s.setImage imageId { image with state := .interrupted }
          .ok ({ s with world := .nonSecure }, imageParam)
      | .nonSecure =>
        if image.state ≠ .interrupted then
          .error .resumeAssertion
        else
          let s := s.setImage imageId { image with state := .executed }
          .ok ({ s with world := .secure }, imageParam)

/- `bl1_fwu_sec_image_done`. -/
def bl1FwuSecImageDone (p : Platform) (s : State)
    (caller : World) : Outcome :=
  if caller = .nonSecure then
    .ok (s, -eperm)
  else
    let imageId := s.secExecImageId
    let image := s.image imageId
    match p.bl1PlatGetImageDesc imageId with
    | none => .error .halt
    | some d =>
      if d.security = .nonSecure ∨ d.executable = false ∨ image.state ≠ .executed then
        .error .halt
      else
        match bl1FwuRemoveLoadedId s.loadedIds imageId with
        | none => .error .halt
        | some ids =>
          let s := s.setImage imageId { image with state := .reset }
          .ok ({ s with
            loadedIds := ids
            secExecImageId := invalidImageId
            world := .nonSecure }, 0)

/- `bl1_fwu_image_reset`. -/
def bl1FwuImageReset (p : Platform) (s : State) (caller : World)
    (imageId : Nat) : Outcome :=
  match p.bl1PlatGetImageDesc imageId, caller with
  | none, _ => .ok (s, -eperm)
  | some _, .secure => .ok (s, -eperm)
  | some d, .nonSecure =>
    let image := s.image imageId
    match image.state with
    | .reset => .ok (s, 0)
    | .executed => .error .halt
    | _ =>
      match bl1FwuRemoveLoadedId s.loadedIds imageId with
      | none => .ok (s, -eperm)
      | some ids =>
        let s := { s with loadedIds := ids }
        if image.copiedSize ≠ 0 ∧ d.security = .nonSecure then
          .error .halt
        else
          let s :=
            if image.copiedSize ≠ 0 then
              s.zeroNormalmem d.imageBase image.copiedSize
            else
              s
          .ok (s.setImage imageId
            { state := .reset
              copiedSize := 0
              imageSize := 0 }, 0)

end State

----
-- SMCs
----

/- The calls of the service, with their arguments. -/
inductive Call where
  | imageCopy (imageId imageSrc blockSize imageSize : Nat)
  | imageAuth (imageId imageSrc imageSize : Nat)
  | imageExecute (imageId : Nat)
  | imageResume (imageParam : Int)
  | secImageDone
  | imageReset (imageId : Nat)
  deriving DecidableEq

/- An SMC: who calls, what is called, and the answers. -/
structure Smc where
  caller : World
  call : Call
  env : Env

namespace State

/-
  `bl1_fwu_smc_handler`.  Image ids and sizes are 32-bit
  values, source addresses 64-bit ones.
-/
def bl1FwuSmcHandler (p : Platform) (s : State)
    (l : Smc) : Outcome :=
  match l.call with
  | .imageCopy imageId imageSrc blockSize imageSize =>
    s.bl1FwuImageCopy p l.env l.caller (imageId % 2 ^ 32) (imageSrc % 2 ^ 64) (blockSize % 2 ^ 32)
      (imageSize % 2 ^ 32)
  | .imageAuth imageId imageSrc imageSize =>
    s.bl1FwuImageAuth p l.env l.caller (imageId % 2 ^ 32) (imageSrc % 2 ^ 64) (imageSize % 2 ^ 32)
  | .imageExecute imageId => s.bl1FwuImageExecute p l.caller (imageId % 2 ^ 32)
  | .imageResume imageParam => s.bl1FwuImageResume p l.caller imageParam
  | .secImageDone => s.bl1FwuSecImageDone p l.caller
  | .imageReset imageId => s.bl1FwuImageReset p l.caller (imageId % 2 ^ 32)

end State

namespace Platform

/-
  No image is loaded when the update starts.  The image that
  runs was marked by `bl1_prepare_next_image`.
-/
def initial (p : Platform) (mem : Nat → UInt8) : State where
  image := fun id =>
    { state :=
        if id = p.nextImageId then .executed else .reset
      copiedSize := 0
      imageSize := 0 }
  loadedIds := List.replicate p.fwuMaxSimultaneousImages invalidImageId
  secExecImageId := invalidImageId
  mem := mem
  world := .nonSecure

end Platform

----
-- A Sample Platform
----

/-
  Two secure images next to each other, and the non-secure
  one that runs.
-/
def twoImages : Platform where
  bl1PlatGetImageDesc := fun id =>
    if id = 0 then
      some ⟨.nonSecure, true, 0x8000, 0x1000⟩
    else if id = 1 then
      some ⟨.secure, true, 0x1000, 0x1000⟩
    else if id = 2 then
      some ⟨.secure, true, 0x2000, 0x1000⟩
    else
      none
  fwuMaxSimultaneousImages := 4
  nextImageId := 0
  invalid_none := rfl
  next_nonSecure := ⟨_, rfl, rfl⟩
  fits := by
    intro id d hDesc
    split at hDesc
    · cases hDesc
      decide
    split at hDesc
    · cases hDesc
      decide
    split at hDesc
    · cases hDesc
      decide
    · cases hDesc

/- Hooks that answer yes, or no to the load of an image. -/
def hooks (preImageLoadOk : Bool) : Env where
  sourceBytes := fun _ => 7
  memCheckOk := true
  preImageLoadOk := preImageLoadOk
  postImageLoadOk := true
  verifyOk := true

/- A copy of the whole image by the non-secure world. -/
def copyWhole (imageId size : Nat)
    (preImageLoadOk : Bool) : Smc where
  caller := .nonSecure
  call := .imageCopy imageId 0x9000 size size
  env := hooks preImageLoadOk

/- A call by the non-secure world. -/
def fromNonSecure (call : Call) : Smc where
  caller := .nonSecure
  call := call
  env := hooks true

/- A call by the secure image that runs. -/
def fromSecureImage (call : Call) : Smc where
  caller := .secure
  call := call
  env := hooks true

end Tfa.Fwu
