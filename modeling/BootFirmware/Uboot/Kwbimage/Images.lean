import BootFirmware.Uboot.Kwbimage.Version0
import BootFirmware.Uboot.Kwbimage.Version1

/-
  Which configurations make a well-formed image.

  The main results are:
    * `wellFormed_iff_v0` and `wellFormed_iff_v1`
    * `kwbimage_wellFormed_iff`
-/

----
-- Well-Formed Images
----

namespace Uboot.Kwbimage

open Option

section Main

variable {env : Env} {params : Params} {cfg : List Element} {file payload : List UInt8}

/- What is created, by the version. -/
def imageCreate (env : Env) (cfg : List Element) (params : Params)
    (payloadsz : Nat) : Option (List UInt8) :=
  if imageGetVersion cfg = -1 ∨ imageGetVersion cfg = 0 then
    imageCreateV0 cfg params payloadsz
  else if imageGetVersion cfg = 1 then
    imageCreateV1 env cfg params payloadsz
  else none

theorem kwbimageSetHeader_iff
    (hParse : imageCreateConfigParse file = .ok cfg) {ptr header out : List UInt8} :
    kwbimageSetHeader env params file ptr = some (header, out) ↔
      imageCreate env cfg params (alignSup ptr.length 4) = some header ∧
        header.length ≤ ptr.length ∧ out = header ++ ptr.drop header.length ++
          le32 (imageChecksum32 ptr (alignSup ptr.length 4)) := by
  unfold kwbimageSetHeader
  rw [hParse]
  change ((imageCreate env cfg params (alignSup ptr.length 4)).bind _ = _) ↔ _
  cases hCreate : imageCreate env cfg params (alignSup ptr.length 4) with
  | none =>
    constructor
    · intro hOut
      cases hOut
    · rintro ⟨hOut, -⟩
      cases hOut
  | some image =>
    rw [bind_some]
    constructor
    · intro hOut
      split at hOut
      · cases hOut
      · cases hOut
        exact ⟨rfl, by omega, rfl⟩
    · rintro ⟨hSame, hLe, rfl⟩
      cases hSame
      rw [if_neg (by omega)]

theorem wellFormed_iff_v0
    (hVersion : imageGetVersion cfg = -1 ∨ imageGetVersion cfg = 0) {ptr : List UInt8}
    (hPtr : ptr = imageFile 512 payload) :
    (∃ image, imageCreate env cfg params ptr.length = some image ∧ image.length ≤ ptr.length ∧
        WellFormed env cfg 512 image (outFile image ptr)) ↔
      (payloads cfg).length ≤ 1 ∧ GoodV0 cfg payload := by
  have hCreate : imageCreate env cfg params ptr.length = imageCreateV0 cfg params ptr.length :=
    if_pos hVersion
  have hLong : 512 ≤ ptr.length := by
    rw [hPtr, length_imageFile]
    exact Nat.le_add_right 512 _
  rw [hCreate]
  unfold imageCreateV0 GoodV0 headerszV0
  by_cases hCount : 1 < (payloads cfg).length
  · rw [if_pos hCount]
    constructor
    · rintro ⟨image, hImage, -⟩
      cases hImage
    · rintro ⟨hFew, -⟩
      omega
  rw [if_neg hCount]
  by_cases hNone : datas cfg = []
  · rw [if_pos hNone, if_pos hNone]
    let hdr := mainHdrV0 cfg params ptr.length mainHdrSize
    have hIff : WellFormed env cfg 512 hdr.summed.bytes
        (outFile hdr.summed.bytes ptr) ↔ LengthOk 512 mainHdrSize payload :=
      wellFormed_v0_plain hPtr hNone rfl
    constructor
    · rintro ⟨image, hImage, -, hWell⟩
      cases hImage
      refine ⟨by omega, hVersion, ?_, hIff.mp hWell⟩
      rw [hNone]
      exact Nat.zero_le 55
    · rintro ⟨-, -, -, hOk⟩
      have hShort : hdr.summed.bytes.length = 32 := rfl
      exact ⟨hdr.summed.bytes, rfl, by omega, hIff.mpr hOk⟩
  · rw [if_neg hNone, if_neg hNone]
    let hdr := mainHdrV0 cfg params ptr.length (mainHdrSize + extHdrV0Size)
    have hIff : ∀ ext, extHdrV0 (datas cfg) = some ext →
        (WellFormed env cfg 512 (hdr.summed.bytes ++ ext) (outFile (hdr.summed.bytes ++ ext) ptr) ↔
          (datas cfg).length ≤ 55 ∧
            LengthOk 512 (mainHdrSize + extHdrV0Size) payload) := fun ext hExt =>
      wellFormed_v0_registers hPtr hNone rfl hExt
    constructor
    · rintro ⟨image, hImage, -, hWell⟩
      rcases map_eq_some_iff.mp hImage with ⟨ext, hExt, rfl⟩
      exact ⟨by omega, hVersion, (hIff ext hExt).mp hWell⟩
    · rintro ⟨-, -, hFew, hOk⟩
      rcases extHdrV0_eq hFew with ⟨front, -, hSize, hExt⟩
      refine ⟨_, map_eq_some_iff.mpr ⟨_, hExt, rfl⟩, ?_, (hIff _ hExt).mpr ⟨hFew, hOk⟩⟩
      have hHdr : hdr.summed.bytes.length = 32 := rfl
      have hExtLength := extHdrV0_length hExt
      unfold extHdrV0Size at hExtLength
      rw [List.length_append]
      change hdr.summed.bytes.length + _ ≤ _
      omega

theorem wellFormed_iff_v1 (hVersion : imageGetVersion cfg = 1) {ptr : List UInt8}
    (hSmall : imageHeaderszV1 env cfg < 2 ^ 31)
    (hPtr : ptr = imageFile (imageHeaderszV1 env cfg) payload) :
    (∃ image, imageCreate env cfg params ptr.length = some image ∧ image.length ≤ ptr.length ∧
        WellFormed env cfg (imageHeaderszV1 env cfg) image (outFile image ptr)) ↔
      (payloads cfg).length ≤ 1 ∧ GoodV1 env cfg payload := by
  have hCreate : imageCreate env cfg params ptr.length =
      imageCreateV1 env cfg params ptr.length := by
    unfold imageCreate
    rw [hVersion, if_neg (by decide), if_pos rfl]
  rw [hCreate]
  constructor
  · rintro ⟨image, hImage, -, hWell⟩
    rcases imageCreateV1_some hImage with ⟨hNe, -, opt, n, hOpt, hRoom, hParts⟩
    have hCounts := counts_of_imageHeaderszV1 hNe
    have hCreated : CreatedV1 cfg params payload _ opt ptr image
        (outFile image ptr) (imageHeaderszV1 env cfg) n :=
      { hdr_eq := rfl
        ptr_eq := hPtr
        room := hRoom
        words := dvd_imageHeaderszV1 env cfg
        small := hSmall
        image_eq := hParts
        out_eq := rfl }
    refine ⟨hCounts.2, hVersion, ?_⟩
    unfold optHdrsV1 at hOpt
    cases hBinary : binaries cfg with
    | nil => exact absurd hWell (hCreated.not_wellFormed hBinary)
    | cons binary others =>
      rcases binary with ⟨name, args⟩
      rw [hBinary] at hOpt hCounts
      rcases bind_eq_some_iff.mp hOpt with ⟨blob, hFile, hAdd⟩
      have hOthers : others = [] := by
        rw [List.length_cons] at hCounts
        exact List.length_eq_zero_iff.mp (by omega)
      subst hOthers
      have hIff := (hCreated.wellFormed_iff hBinary hFile hAdd).mp hWell
      exact ⟨name, args, blob, rfl, hFile, (addBinaryHeaderV1_spec hAdd).1, hSmall, hIff⟩
  · rintro ⟨hFew, -, name, args, blob, hBinary, hFile, hSome, -, hFits, hOk⟩
    have hAdd : ∃ opt, addBinaryHeaderV1 args blob = some opt := by
      unfold addBinaryHeaderV1
      rw [if_neg hSome]
      exact ⟨_, rfl⟩
    rcases hAdd with ⟨opt, hAdd⟩
    have hLength := (addBinaryHeaderV1_spec hAdd).2.1
    unfold mainHdrSize at hFits
    have hOpt : optHdrsV1 env cfg = some opt := by
      unfold optHdrsV1
      rw [hBinary]
      dsimp only
      rw [hFile, bind_some, hAdd]
    have hImage : ∃ image, imageCreateV1 env cfg params ptr.length = some image := by
      unfold imageCreateV1 mainHdrSize
      rw [if_neg (by omega), hOpt, bind_some, if_neg (by omega)]
      exact ⟨_, rfl⟩
    rcases hImage with ⟨image, hImage⟩
    rcases imageCreateV1_some hImage with ⟨-, hSize, opt', n, hOpt', hRoom, hParts⟩
    cases hOpt.symm.trans hOpt'
    have hCreated : CreatedV1 cfg params payload _ opt ptr image
        (outFile image ptr) (imageHeaderszV1 env cfg) n :=
      { hdr_eq := rfl
        ptr_eq := hPtr
        room := hRoom
        words := dvd_imageHeaderszV1 env cfg
        small := hSmall
        image_eq := hParts
        out_eq := rfl }
    refine ⟨image, hImage, ?_, (hCreated.wellFormed_iff hBinary hFile hAdd).mpr ⟨hFits, hOk⟩⟩
    rw [hSize, hPtr, length_imageFile]
    exact Nat.le_add_right _ _

end Main

/-
  The image is well formed if and only if the configuration is
  one that the headers have room for.
-/
theorem kwbimage_wellFormed_iff
    (env : Env) (params : Params) (file payload : List UInt8) (cfg : List Element)
    (hParse : imageCreateConfigParse file = .ok cfg) :
    (∃ reserved header out, kwbimageGenerate env file = some reserved ∧
        kwbimageSetHeader env params file (imageFile reserved payload) = some (header, out) ∧
        WellFormed env cfg reserved header out) ↔
      Good env cfg payload := by
  have hAligned : ∀ reserved, 4 ∣ reserved →
      alignSup (imageFile reserved payload).length 4 = (imageFile reserved payload).length :=
    fun reserved hWords => alignSup_of_dvd (by decide) (dvd_length_imageFile hWords)
  have hOut : ∀ reserved, 4 ∣ reserved → ((∃ header out, kwbimageSetHeader env params file
          (imageFile reserved payload) = some (header, out) ∧
          WellFormed env cfg reserved header out) ↔
        ∃ image, imageCreate env cfg params (imageFile reserved payload).length = some image ∧
          image.length ≤ (imageFile reserved payload).length ∧
          WellFormed env cfg reserved image (outFile image (imageFile reserved payload))) := by
    intro reserved hWords
    constructor
    · rintro ⟨header, out, hSet, hWell⟩
      rw [kwbimageSetHeader_iff hParse, hAligned _ hWords] at hSet
      rcases hSet with ⟨hImage, hLe, rfl⟩
      exact ⟨header, hImage, hLe, hWell⟩
    · rintro ⟨image, hImage, hLe, hWell⟩
      refine ⟨image, _, ?_, hWell⟩
      rw [kwbimageSetHeader_iff hParse, hAligned _ hWords]
      exact ⟨hImage, hLe, rfl⟩
  unfold kwbimageGenerate Good
  rw [hParse]
  dsimp only
  by_cases hZero : imageGetVersion cfg = -1 ∨ imageGetVersion cfg = 0
  · have hV0 : (∃ image, imageCreate env cfg params (imageFile 512 payload).length = some image ∧
        image.length ≤ (imageFile 512 payload).length ∧
        WellFormed env cfg 512 image (outFile image (imageFile 512 payload))) ↔
        (payloads cfg).length ≤ 1 ∧ GoodV0 cfg payload :=
      wellFormed_iff_v0 hZero rfl
    rw [if_pos hZero]
    constructor
    · rintro ⟨reserved, header, out, hGenerate, hRest⟩
      cases hGenerate
      rcases hV0.mp ((hOut 512 (by decide)).mp ⟨header, out, hRest⟩) with ⟨hFew, hGood⟩
      exact ⟨hFew, Or.inl hGood⟩
    · rintro ⟨hFew, hGood | hGood⟩
      · rcases (hOut 512 (by decide)).mpr (hV0.mpr ⟨hFew, hGood⟩) with ⟨header, out, hRest⟩
        exact ⟨512, header, out, rfl, hRest⟩
      · have hOne := hGood.1
        omega
  rw [if_neg hZero]
  by_cases hOne : imageGetVersion cfg = 1
  · have hNotV0 : ¬ GoodV0 cfg payload := fun hGood =>
      hZero hGood.1
    have hV1 : imageHeaderszV1 env cfg < 2 ^ 31 → ((∃ image, imageCreate env cfg params
          (imageFile (imageHeaderszV1 env cfg) payload).length = some image ∧
          image.length ≤ (imageFile (imageHeaderszV1 env cfg) payload).length ∧
          WellFormed env cfg (imageHeaderszV1 env cfg) image
            (outFile image (imageFile (imageHeaderszV1 env cfg) payload))) ↔
          (payloads cfg).length ≤ 1 ∧ GoodV1 env cfg payload) :=
      fun hSmall => wellFormed_iff_v1 hOne hSmall rfl
    have hWords := dvd_imageHeaderszV1 env cfg
    rw [if_pos hOne]
    constructor
    · rintro ⟨reserved, header, out, hGenerate, hSet, hWell⟩
      -- The space is as large as the header, so it is an `int`.
      have hLength : header.length = imageHeaderszV1 env cfg := by
        rcases (kwbimageSetHeader_iff hParse).mp hSet with ⟨hImage, -, -⟩
        unfold imageCreate at hImage
        rw [if_neg hZero, if_pos hOne] at hImage
        exact (imageCreateV1_some hImage).2.1
      have hReserved := hWell.reserved
      split at hGenerate
      · cases hGenerate
      · next hNonneg =>
          have hSame := Option.some.inj hGenerate
          have hSmall : imageHeaderszV1 env cfg < 2 ^ 31 ∧ reserved = imageHeaderszV1 env cfg := by
            unfold toInt at hSame hNonneg
            split at hSame
            · next hLt =>
                rw [if_pos hLt] at hNonneg
                omega
            · next hGe =>
                rw [if_neg hGe] at hNonneg
                omega
          rcases hSmall with ⟨hSmall, rfl⟩
          rcases (hV1 hSmall).mp ((hOut _ hWords).mp ⟨header, out, hSet, hWell⟩) with ⟨hFew, hGood⟩
          exact ⟨hFew, Or.inr hGood⟩
    · rintro ⟨hFew, hGood | hGood⟩
      · exact absurd hGood hNotV0
      · have hSmall : imageHeaderszV1 env cfg < 2 ^ 31 := by
          rcases hGood.2 with ⟨_, _, _, _, _, _, hSmall, _⟩
          exact hSmall
        rcases (hOut _ hWords).mpr ((hV1 hSmall).mpr ⟨hFew, hGood⟩) with ⟨header, out, hRest⟩
        refine ⟨_, header, out, ?_, hRest⟩
        rw [toInt_of_lt hSmall, if_neg (by omega)]
        rfl
  · rw [if_neg hOne]
    constructor
    · rintro ⟨_, _, _, hGenerate, _⟩
      cases hGenerate
    · rintro ⟨-, hGood | hGood⟩
      · exact absurd hGood.1 hZero
      · exact absurd hGood.1 hOne

def smallEnv : Env :=
  { files := fun name =>
      if name = ascii "spl.bin" then some [1, 2, 3] else none
    uBootOffs := none }

/- A binary header with two arguments. -/
theorem kwbimage_wellFormed_with_binary :
    ∃ reserved header out,
      kwbimageGenerate smallEnv (ascii "VERSION 1\nBINARY spl.bin 5b 68\n") = some reserved ∧
      kwbimageSetHeader smallEnv ⟨0, 0⟩ (ascii "VERSION 1\nBINARY spl.bin 5b 68\n")
        (imageFile reserved [1, 2, 3, 4, 5]) = some (header, out) ∧
      WellFormed smallEnv [.version 1, .binary (ascii "spl.bin") [91, 104]]
        reserved header out := by
  refine (kwbimage_wellFormed_iff smallEnv ⟨0, 0⟩ _ [1, 2, 3, 4, 5]
    [.version 1, .binary (ascii "spl.bin") [91, 104]]
    (by decide +kernel)).mpr ⟨by decide, Or.inr ⟨rfl, ?_⟩⟩
  refine ⟨ascii "spl.bin", [91, 104], [1, 2, 3], rfl, by decide, by decide, ?_, ?_, Or.inl ?_⟩
  · decide +kernel
  · decide +kernel
  · decide +kernel

/- Without a binary header the flag is set all the same. -/
theorem kwbimage_without_binary_not_wellFormed :
    ∃ reserved header out, imageCreateConfigParse (ascii "VERSION 1\n") = .ok [.version 1] ∧
      kwbimageGenerate smallEnv (ascii "VERSION 1\n") = some reserved ∧
      kwbimageSetHeader smallEnv ⟨0, 0⟩ (ascii "VERSION 1\n")
        (imageFile reserved [1, 2, 3, 4]) = some (header, out) ∧
      ¬ WellFormed smallEnv [.version 1] reserved header
        out := by
  have hSome : (kwbimageSetHeader smallEnv ⟨0, 0⟩ (ascii "VERSION 1\n")
      (imageFile 4096 [1, 2, 3, 4])).isSome := by
    decide +kernel
  rcases isSome_iff_exists.mp hSome with ⟨⟨header, out⟩, hSet⟩
  have hParse : imageCreateConfigParse (ascii "VERSION 1\n") = .ok [.version 1] := by decide +kernel
  refine ⟨4096, header, out, hParse, by decide +kernel, hSet, ?_⟩
  intro hWell
  have hLength : alignSup
      (imageFile 4096 [1, 2, 3, 4]).length 4 = (imageFile 4096 [1, 2, 3, 4]).length := by
    decide +kernel
  rcases (kwbimageSetHeader_iff hParse).mp hSet with ⟨hImage, hLe, hOut⟩
  rw [hLength] at hImage hOut
  have hSame : out = outFile header (imageFile 4096 [1, 2, 3, 4]) := hOut
  rw [hSame] at hWell
  have hIff : (∃ image, imageCreate smallEnv [.version 1] ⟨0, 0⟩
      (imageFile 4096 [1, 2, 3, 4]).length = some image ∧
      image.length ≤ (imageFile 4096 [1, 2, 3, 4]).length ∧
      WellFormed smallEnv [.version 1] 4096 image
        (outFile image (imageFile 4096 [1, 2, 3, 4]))) ↔ _ :=
    wellFormed_iff_v1 rfl (by decide +kernel) rfl
  rcases (hIff.mp ⟨header, hImage, hLe, hWell⟩).2.2 with ⟨name, args, blob, hBinary, -⟩
  cases hBinary

end Uboot.Kwbimage
