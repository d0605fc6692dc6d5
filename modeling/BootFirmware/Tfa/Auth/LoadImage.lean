import BootFirmware.Tfa.Auth.Verification
import Mathlib.Algebra.Group.Nat.Defs

/-
  Loading an image: it is read from the storage of a boot
  source and authenticated after its parents, all of which are
  read to the same place.

  What the storage answers for an image is given for each boot
  source.  The cache is left out.

  Key definitions include:
    * `Answers` and `LoadState`
    * `loadImage` and `loadAuthImageInternal`
    * `loadAuthImage`

  Main declarations:
    * `load_auth_image_success`
-/

----
-- The Loader
----

namespace Tfa.Auth

open List

def EFBIG : Int := 27

def EAUTH : Int := 80

def EDECRYPT : Int := 95

/-
  What `plat_get_image_source`, `io_open`, `io_size` and
  `io_read` give; `bytes` are those that are read.
-/
structure Answers where
  source : Int
  opened : Int
  sized : Int
  size : Nat
  readResult : Int
  bytes : List UInt8
  hBytes : bytes.length ≤ size

abbrev Storage := Nat → Answers

/- `image_info_t`, apart from the size; sizes are `uint32_t`. -/
structure ImageInfo where
  imageBase : Nat
  imageMaxSize : Nat
  imageMaxSize_lt : imageMaxSize < 2 ^ 32

/- The build options, and what decrypts an image. -/
structure Build where
  trustedBoardBoot : Bool
  cryptoBoardBoot : Bool
  platGetCryptKey : Int
  cryptoModDecryptImage : Nat → Data → Int × List UInt8

inductive Event where
  | read (imgId base : Nat) (bytes : List UInt8)
  | verified (imgId : Nat) (bytes : List UInt8)

/- `log` has the reads and the successful verifications. -/
structure LoadState (P : Type) where
  auth : State P
  imageSize : Nat
  log : List Event
  imageSize_lt : imageSize < 2 ^ 32

/- `auth_mod_get_parent_id` -/
def authModGetParentId (cot : ChainOfTrust) (flags : Nat → BitVec 32) (imgId : Nat) : Option Nat :=
  match (cot imgId).parent with
  | none => none
  | some parent =>
    if flags (cot parent).imgId &&& IMG_FLAG_AUTHENTICATED ≠ 0
    then none
    else some (cot parent).imgId

section Functions

variable {P : Type} (hooks : Hooks P) (cot : ChainOfTrust)
variable (build : Build) (image : ImageInfo) (storage : Storage)

def LoadState.write (s : LoadState P) (bytes : List UInt8) : LoadState P :=
  { s with
    auth :=
      { s.auth with
        mem := s.auth.mem.write image.imageBase bytes } }

/- `zero_normalmem` -/
def LoadState.zero (s : LoadState P) : LoadState P :=
  s.write image (List.replicate s.imageSize 0)

def LoadState.data (s : LoadState P) : Data where
  byte i := s.auth.mem (image.imageBase + i)
  len := s.imageSize

/- The size is set, and the bytes are read to the base. -/
def LoadState.fill (s : LoadState P) (imgId : Nat) (a : Answers) : LoadState P :=
  { s.write image a.bytes with
    imageSize := a.size % 2 ^ 32
    log := s.log ++ [.read imgId image.imageBase a.bytes]
    imageSize_lt := Nat.mod_lt _ (by decide) }

/- The exits all return the result of the last call. -/
def loadImage (imgId : Nat) (s : LoadState P) : Int × LoadState P :=
  let a := storage imgId
  if a.source ≠ 0 then (a.source, s)
  else if a.opened ≠ 0 then (a.opened, s)
  else if a.sized ≠ 0 ∨ a.size = 0 then (a.sized, s)
  else if a.size > image.imageMaxSize then (-EFBIG, s)
  else (a.readResult, s.fill image imgId a)

def decryptImage (imgId : Nat) (s : LoadState P) : Int × LoadState P :=
  let r := build.cryptoModDecryptImage imgId (s.data image)
  if build.platGetCryptKey ≠ 0 ∨ r.1 ≠ 0 then
    (-EDECRYPT, s.zero image)
  else (0, s.write image r.2)

/- Nothing returns after an access to no object. -/
def authenticate (imgId : Nat) (s : LoadState P) : Option (Int × LoadState P) :=
  let r := authModVerifyImg hooks cot imgId (s.data image) s.auth
  let t := { s with auth := r.2 }
  match r.1 with
  | .error .nullPointer => none
  | .error (.code _) => some (-EAUTH, t.zero image)
  | .ok () =>
    let t :=
      { t with
        log := s.log ++ [.verified imgId (s.data image).bytes] }
    some (if build.cryptoBoardBoot then
      decryptImage build image imgId t else (0, t))

/- The image itself, after its parents. -/
def loadOwn (imgId : Nat) (s : LoadState P) : Option (Int × LoadState P) :=
  let r := loadImage image storage imgId s
  if r.1 ≠ 0 then some r
  else if build.trustedBoardBoot then
    authenticate hooks cot build image imgId r.2
  else some (0, r.2)

/- The recursion, for a chain that has so many levels. -/
def loadAuthImageInternal : Nat → Nat → LoadState P → Option (Int × LoadState P)
  | 0, _, _ => none
  | levels + 1, imgId, s =>
    let parent :=
      if build.trustedBoardBoot then
        authModGetParentId cot s.auth.authImgFlags imgId
      else none
    match parent with
    | none => loadOwn hooks cot build image storage imgId s
    | some parentId =>
      (loadAuthImageInternal levels parentId s).bind fun r =>
        if r.1 ≠ 0 then some r
        else loadOwn hooks cot build image storage imgId r.2

end Functions

/-
  The boot sources are tried in turn.  The result comes with
  the state that the last of them was tried in, and with its
  storage.
-/
def loadAuthImage {P : Type} (hooks : Hooks P)
    (cot : ChainOfTrust) (build : Build) (image : ImageInfo) (levels imgId : Nat) :
    Storage → List Storage → LoadState P → Option (Int × Storage × LoadState P × LoadState P)
  | storage, others, s =>
    (loadAuthImageInternal hooks cot build image storage levels imgId s).bind fun r =>
      match others with
      | [] => some (r.1, storage, s, r.2)
      | next :: others =>
        if r.1 ≠ 0 then
          loadAuthImage hooks cot build image levels imgId next others r.2
        else some (r.1, storage, s, r.2)

----
-- Loaded And Verified
----

/- The images above that are not authenticated yet. -/
inductive Ancestor (cot : ChainOfTrust) (flags : Nat → BitVec 32) : Nat → Nat → Prop
  | parent {imgId q : Nat} : authModGetParentId cot flags imgId = some q →
      Ancestor cot flags imgId q
  | above {imgId q r : Nat} : authModGetParentId cot flags imgId = some q →
      Ancestor cot flags q r → Ancestor cot flags imgId r

/-
  The image is loaded as a whole; with trusted board boot its
  parents were verified and then just its bytes.
-/
structure Loaded {P : Type} (cot : ChainOfTrust) (build : Build)
    (image : ImageInfo) (imgId : Nat) (a : Answers)
    (s t : LoadState P) : Prop where
  reported : a.sized = 0 ∧ 0 < a.size ∧ t.imageSize = a.size
  fits : a.size ≤ image.imageMaxSize
  whole : a.readResult = 0 ∧ a.bytes.length = a.size
  events : ∃ es, t.log = s.log ++ es ++ [.read imgId image.imageBase a.bytes] ++
        (if build.trustedBoardBoot then
          [.verified imgId a.bytes] else []) ∧
    (build.trustedBoardBoot = true →
      ∀ q, Ancestor cot s.auth.authImgFlags imgId q → ∃ bytes, .verified q bytes ∈ es)

/- A size of zero, or a read that stops, without an error. -/
def Answers.Silent (a : Answers) : Prop :=
  a.sized = 0 ∧ a.size = 0 ∨ a.readResult = 0 ∧ a.bytes.length < a.size

section Success

variable {P : Type} {hooks : Hooks P} {cot : ChainOfTrust}
variable {build : Build} {image : ImageInfo} {storage : Storage}
variable {levels imgId : Nat} {s t u : LoadState P}

theorem loadImage_ok (hRun : loadImage image storage imgId s = (0, t)) :
    (storage imgId).sized = 0 ∧ ((storage imgId).size = 0 ∧ t = s ∨ (storage imgId).readResult = 0 ∧
        (storage imgId).size ≤ image.imageMaxSize ∧ t = s.fill image imgId (storage imgId)) := by
  unfold loadImage at hRun
  generalize storage imgId = a at hRun ⊢
  by_cases hSource : a.source ≠ 0
  · rw [if_pos hSource] at hRun
    exact absurd (congrArg Prod.fst hRun) hSource
  rw [if_neg hSource] at hRun
  by_cases hOpened : a.opened ≠ 0
  · rw [if_pos hOpened] at hRun
    exact absurd (congrArg Prod.fst hRun) hOpened
  rw [if_neg hOpened] at hRun
  by_cases hSized : a.sized ≠ 0 ∨ a.size = 0
  · rw [if_pos hSized] at hRun
    have hZero : a.sized = 0 := congrArg Prod.fst hRun
    exact ⟨hZero, Or.inl ⟨hSized.resolve_left (not_not_intro hZero), (congrArg Prod.snd hRun).symm⟩⟩
  rw [if_neg hSized] at hRun
  rw [not_or, not_not] at hSized
  by_cases hBig : a.size > image.imageMaxSize
  · rw [if_pos hBig] at hRun
    cases congrArg Prod.fst hRun
  rw [if_neg hBig] at hRun
  exact ⟨hSized.1, Or.inr ⟨congrArg Prod.fst hRun,
    Nat.not_lt.mp hBig, (congrArg Prod.snd hRun).symm⟩⟩

theorem decryptImage_same (imgId : Nat) (s : LoadState P) :
    (decryptImage build image imgId s).2.imageSize = s.imageSize ∧
      (decryptImage build image imgId s).2.log = s.log := by
  unfold decryptImage
  dsimp only
  split
  · exact ⟨rfl, rfl⟩
  · exact ⟨rfl, rfl⟩

theorem authenticate_ok (hRun : authenticate hooks cot build image imgId s = some (0, t)) :
    t.imageSize = s.imageSize ∧ t.log = s.log ++ [.verified imgId (s.data image).bytes] := by
  unfold authenticate at hRun
  dsimp only at hRun
  split at hRun
  · cases hRun
  · cases hRun
  · by_cases hCrypto : build.cryptoBoardBoot = true
    · rw [if_pos hCrypto, Option.some.injEq] at hRun
      have hState := congrArg Prod.snd hRun
      rw [← show _ = t from hState]
      exact decryptImage_same imgId _
    · rw [if_neg hCrypto] at hRun
      cases hRun
      exact ⟨rfl, rfl⟩

theorem loadOwn_ok (hRun : loadOwn hooks cot build image storage imgId s = some (0, t)) :
    ∃ u, loadImage image storage imgId s = (0, u) ∧ t.imageSize = u.imageSize ∧ t.log = u.log ++
        (if build.trustedBoardBoot then
          [.verified imgId (u.data image).bytes] else []) := by
  unfold loadOwn at hRun
  rcases hLoad : loadImage image storage imgId s with ⟨rc, u⟩
  rw [hLoad] at hRun
  by_cases hRc : rc ≠ 0
  · rw [if_pos hRc] at hRun
    cases hRun
    exact absurd rfl hRc
  rw [if_neg hRc] at hRun
  rw [not_not] at hRc
  subst hRc
  refine ⟨u, rfl, ?_⟩
  by_cases hTrusted : build.trustedBoardBoot = true
  · rw [if_pos hTrusted] at hRun
    rw [if_pos hTrusted]
    exact authenticate_ok hRun
  · rw [if_neg hTrusted] at hRun
    rw [if_neg hTrusted, append_nil]
    cases hRun
    exact ⟨rfl, rfl⟩

/- The image is loaded last, after all of its ancestors. -/
theorem internal_ok
    (hRun : loadAuthImageInternal hooks cot build image storage levels imgId s = some (0, t)) :
    ∃ u es, loadOwn hooks cot build image storage imgId u = some (0, t) ∧ u.log = s.log ++ es ∧
      (build.trustedBoardBoot = true →
        ∀ q, Ancestor cot s.auth.authImgFlags imgId q → ∃ bytes, .verified q bytes ∈ es) := by
  induction levels generalizing imgId t with
  | zero => cases hRun
  | succ levels ih =>
    unfold loadAuthImageInternal at hRun
    dsimp only at hRun
    split at hRun
    · rename_i hNone
      refine ⟨s, [], hRun, (append_nil _).symm, ?_⟩
      intro hTrusted q hAncestor
      rw [if_pos hTrusted] at hNone
      cases hAncestor with
      | parent hParent => cases hNone.symm.trans hParent
      | above hParent _ => cases hNone.symm.trans hParent
    · rename_i parentId hSome
      rcases Option.bind_eq_some_iff.mp hRun with ⟨⟨rc, u⟩, hParents, hOwn⟩
      by_cases hRc : rc ≠ 0
      · rw [if_pos hRc] at hOwn
        cases hOwn
        exact absurd rfl hRc
      rw [if_neg hRc] at hOwn
      rw [not_not] at hRc
      subst hRc
      rcases ih hParents with ⟨v, es, hLast, hLog, hAbove⟩
      rcases loadOwn_ok hLast with ⟨x, hLoad, -, hEnd⟩
      have hTrusted : build.trustedBoardBoot = true := by
        by_contra hNot
        rw [if_neg hNot] at hSome
        cases hSome
      rw [if_pos hTrusted] at hSome hEnd
      -- a read may have been added, or nothing
      have hRead : ∃ reads, x.log = v.log ++ reads := by
        rcases (loadImage_ok hLoad).2 with ⟨-, rfl⟩ | ⟨-, -, rfl⟩
        · exact ⟨[], (append_nil _).symm⟩
        · exact ⟨_, rfl⟩
      rcases hRead with ⟨reads, hRead⟩
      refine ⟨u, es ++ reads ++ [.verified parentId (x.data image).bytes], hOwn, ?_, ?_⟩
      · rw [hEnd, hRead, hLog]
        simp only [append_assoc]
      · intro _ q hAncestor
        cases hAncestor with
        | parent hParent =>
          cases hSome.symm.trans hParent
          exact ⟨_, mem_append_right _ mem_cons_self⟩
        | above hParent hRest =>
          cases hSome.symm.trans hParent
          rcases hAbove hTrusted q hRest with ⟨bytes, hMem⟩
          exact ⟨bytes, mem_append_left _ (mem_append_left _ hMem)⟩

/- What is verified of an image that was read as a whole. -/
theorem data_fill (s : LoadState P) (imgId : Nat) {a : Answers}
    (hWhole : a.bytes.length = a.size) (hFits : a.size ≤ image.imageMaxSize) :
    (s.fill image imgId a).imageSize = a.size ∧
      ((s.fill image imgId a).data image).bytes = a.bytes := by
  have hSize : a.size % 2 ^ 32 = a.size :=
    Nat.mod_eq_of_lt (Nat.lt_of_le_of_lt hFits image.imageMaxSize_lt)
  refine ⟨hSize, ?_⟩
  change Memory.slice (Memory.write s.auth.mem image.imageBase
    a.bytes) image.imageBase (a.size % 2 ^ 32) = _
  rw [hSize, ← hWhole, Memory.slice_write_self]

/- One boot source, which the loader was content with. -/
theorem internal_loaded_iff
    (hRun : loadAuthImageInternal hooks cot build image storage levels imgId s = some (0, t)) :
    Loaded cot build image imgId (storage imgId) s t ↔ ¬ (storage imgId).Silent := by
  rcases internal_ok hRun with ⟨u, es, hOwn, hLog, hAbove⟩
  rcases loadOwn_ok hOwn with ⟨v, hLoad, hSize, hEnd⟩
  rcases loadImage_ok hLoad with ⟨hSized, hLoaded⟩
  constructor
  · rintro hAll (⟨-, hZero⟩ | ⟨-, hShort⟩)
    · exact Nat.ne_of_gt hAll.reported.2.1 hZero
    · exact Nat.ne_of_lt hShort hAll.whole.2
  · intro hNot
    unfold Answers.Silent at hNot
    rw [not_or, not_and, not_and, Nat.not_lt] at hNot
    rcases hLoaded with ⟨hZero, -⟩ | ⟨hRead, hFits, rfl⟩
    · exact absurd hZero (hNot.1 hSized)
    have hWhole : (storage imgId).bytes.length = (storage imgId).size :=
      Nat.le_antisymm (storage imgId).hBytes (hNot.2 hRead)
    rcases data_fill u imgId hWhole hFits with ⟨hFilled, hData⟩
    refine ⟨⟨hSized, Nat.pos_of_ne_zero (hNot.1 hSized), hSize.trans hFilled⟩,
      hFits, ⟨hRead, hWhole⟩, es, ?_, hAbove⟩
    rw [hEnd, ← hLog]
    by_cases hTrusted : build.trustedBoardBoot = true
    · rw [if_pos hTrusted, if_pos hTrusted, hData]
      rfl
    · rw [if_neg hTrusted, if_neg hTrusted]
      rfl

/-
  Where the loader returns zero, the image is loaded and
  verified if and only if the last boot source was not silent.
-/
theorem load_auth_image_success (hooks : Hooks P) (cot : ChainOfTrust) (build : Build)
    (image : ImageInfo) (levels imgId : Nat) (first last : Storage)
    (others : List Storage) (s before t : LoadState P)
    (hRun : loadAuthImage hooks cot build image levels imgId first
      others s = some (0, last, before, t)) :
    Loaded cot build image imgId (last imgId) before t ↔ ¬ (last imgId).Silent := by
  induction others generalizing first s with
  | nil =>
    rcases Option.bind_eq_some_iff.mp hRun with ⟨⟨rc, u⟩, hOne, hEq⟩
    cases hEq
    exact internal_loaded_iff hOne
  | cons next others ih =>
    rcases Option.bind_eq_some_iff.mp hRun with ⟨⟨rc, u⟩, hOne, hEq⟩
    by_cases hRc : rc ≠ 0
    · exact ih next u ((if_pos hRc).symm.trans hEq)
    · rw [if_neg hRc] at hEq
      cases hEq
      exact internal_loaded_iff hOne

/- A storage that has four bytes, or none, for each image. -/
def storageOf (bytes : List UInt8) : Storage :=
  fun _ => ⟨0, 0, 0, bytes.length, 0, bytes, Nat.le_refl _⟩

def plainBuild (trusted : Bool) : Build :=
  ⟨trusted, false, 0, fun _ _ => (0, [])⟩

def smallImage : ImageInfo :=
  ⟨64, 16, by decide⟩

def notLoaded : LoadState (BitVec 32) :=
  ⟨certStart, 0, [], by decide⟩

/- A certificate that is signed with the key of another. -/
def signedChain : ChainOfTrust
  | 2 => sharedCert
  | _ =>
    certificate 3 (some 2)
      [.sig (hashParam 1) (hashParam 3) (hashParam 4) (hashParam 5), .none, .none, .none]
      (List.replicate 4 unusedParam) rfl length_replicate

/- A certificate and its parent are read and verified. -/
theorem load_auth_image_success_certificate :
    ∃ last before t, loadAuthImage certHooks signedChain (plainBuild true) smallImage 2 3
        (storageOf [1, 2, 3, 4]) [] notLoaded = some (0, last, before, t) ∧
      Loaded signedChain (plainBuild true) smallImage 3 (last 3) before t := by
  have hCode : (loadAuthImage certHooks signedChain (plainBuild true) smallImage 2 3
      (storageOf [1, 2, 3, 4]) [] notLoaded).map (fun r => (r.1, r.2.1 3)) =
        some (0, storageOf [1, 2, 3, 4] 3) :=
    rfl
  rcases Option.map_eq_some_iff.mp hCode with ⟨⟨rc, last, before, t⟩, hRun, hEq⟩
  rcases Prod.mk.inj hEq with ⟨rfl, hLast⟩
  dsimp only at hLast
  refine ⟨last, before, t, hRun, ?_⟩
  rw [load_auth_image_success certHooks signedChain (plainBuild true) smallImage 2 3 _ last []
    notLoaded before t hRun, hLast]
  unfold Answers.Silent
  decide

/- Nothing is loaded, and the loader returns zero. -/
theorem load_auth_image_empty :
    loadAuthImage certHooks certChain (plainBuild false) smallImage 1
        2 (storageOf []) [] notLoaded =
      some (0, storageOf [], notLoaded, notLoaded) ∧
    ¬ Loaded certChain (plainBuild false) smallImage 2 (storageOf [] 2) notLoaded notLoaded :=
  ⟨rfl, fun hLoaded => absurd hLoaded.reported.2.1 (by decide)⟩

end Success

end Tfa.Auth
