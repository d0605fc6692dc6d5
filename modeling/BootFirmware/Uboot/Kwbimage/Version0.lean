import BootFirmware.Uboot.Kwbimage.WellFormed

/-
  Images of version 0, which have an extended header if there
  are registers.

  The main results are:
    * `wellFormed_v0_plain`
    * `wellFormed_v0_registers`
-/

----
-- Images Of Version 0
----

namespace Uboot.Kwbimage

open List

theorem length_registerData (datas : List (Nat × Nat)) :
    (registerData datas).length = 8 * datas.length := by
  induction datas with
  | nil => rfl
  | cons d datas ih =>
    have hCons : registerData (d :: datas) = le32 d.1 ++ le32 d.2 ++ registerData datas := rfl
    rw [hCons, length_append, ih, length_cons]
    have hTwo : (le32 d.1 ++ le32 d.2).length = 8 := rfl
    omega

theorem extHdrV0_length
    {datas : List (Nat × Nat)} {ext : List UInt8} (hExt : extHdrV0 datas = some ext) :
    ext.length = extHdrV0Size := by
  unfold extHdrV0 at hExt
  dsimp only at hExt
  split at hExt
  · cases hExt
  · next hFits =>
      cases hExt
      have hStart : (le32 0x40).length = 4 := rfl
      simp only [length_append, length_dropLast, length_zeros, hStart, length_singleton]
      omega

/- With room for all of its registers, the header ends so. -/
theorem extHdrV0_eq {datas : List (Nat × Nat)} (hFew : datas.length ≤ 55) :
    ∃ front, front = le32 0x40 ++ zeros 28 ++ registerData datas ++ zeros (447 - 8 * datas.length) ∧
      front.length = 479 ∧ extHdrV0 datas = some (front ++ [imageChecksum8 front]) := by
  have hLength := length_registerData datas
  refine ⟨_, rfl, ?_, ?_⟩
  · have hStart : (le32 0x40).length = 4 := rfl
    simp only [length_append, length_zeros, hStart]
    omega
  · have hLast : zeros (448 - 8 * datas.length) = zeros (447 - 8 * datas.length) ++ [0] := by
      rw [show 448 - 8 * datas.length = 447 - 8 * datas.length + 1 by omega]
      exact replicate_succ'
    have hRegs : (datas.flatMap fun d => le32 d.1 ++ le32 d.2) = registerData datas := rfl
    unfold extHdrV0 extHdrV0Size
    dsimp only
    rw [hRegs, if_neg (by omega), hLength,
      show 480 - (32 + 8 * datas.length) = 448 - 8 * datas.length by omega,
      hLast, ← append_assoc, dropLast_concat,
      imageChecksum8_append _ [0], imageChecksum8_singleton, UInt8.add_zero]

section Version0

variable {env : Env} {params : Params} {cfg : List Element} {payload : List UInt8}

variable {hdr : MainHdrV0}

/- The header's own sum leaves the sum twice. -/
theorem MainHdrV0.summed_ok (hZero : hdr.checksum = 0) :
    imageChecksum8 hdr.summed.bytes - hdr.summed.checksum = hdr.summed.checksum := by
  have hSummed : hdr.summed.bytes = hdr.bytes.dropLast ++ [hdr.summed.checksum] := rfl
  have hBytes : hdr.bytes = hdr.bytes.dropLast ++ [hdr.checksum] := rfl
  have hSame : hdr.summed.checksum = imageChecksum8 hdr.bytes.dropLast := by
    have hSum : hdr.summed.checksum = imageChecksum8 hdr.bytes := rfl
    rw [hSum, hBytes, imageChecksum8_append, imageChecksum8_singleton, hZero, UInt8.add_zero,
      dropLast_concat]
  rw [hSummed, imageChecksum8_append, imageChecksum8_singleton, ← hSame, UInt8.add_sub_cancel]

/- The check of a file of version 0 is that of its second header. -/
theorem verify_v0 (hZero : hdr.checksum = 0) (rest : List UInt8) :
    kwbimageVerifyHeader (hdr.summed.bytes ++ rest) =
      if imageChecksum8 (rest.take 480).dropLast ≠
          (rest.take 480).getD 479 0 then -fdtErrBadstructure
      else 0 := by
  have hOk : mainHdrChecksumOk (hdr.summed.bytes ++ rest) = true :=
    beq_iff_eq.mpr (MainHdrV0.summed_ok hZero)
  have hVersion : imageVersion (hdr.summed.bytes ++ rest) = 0 := rfl
  have hRest : (hdr.summed.bytes ++ rest).drop mainHdrSize = rest := rfl
  unfold kwbimageVerifyHeader
  rw [if_neg (by rw [hOk]; exact nofun), hRest, hVersion]
  by_cases hSum : imageChecksum8 (rest.take 480).dropLast ≠ (rest.take 480).getD 479 0
  · rw [if_pos ⟨rfl, hSum⟩, if_pos hSum]
  · rw [if_neg fun h => hSum h.2, if_neg hSum]

theorem endOk_v0 {tail ptr : List UInt8} {headersz : Nat}
    (hPtr : ptr = imageFile 512 payload) (hLength : (hdr.bytes ++ tail).length = headersz)
    (hWords : 4 ∣ headersz) (hPos : 0 < headersz) (hLe : headersz ≤ 512)
    (hSrcaddr : hdr.srcaddr = headersz)
    (hBlocksize : hdr.blocksize = ptr.length + 4 + 2 ^ 64 - headersz) :
    EndOk (outFile (hdr.bytes ++ tail) ptr) ↔ LengthOk 512 headersz payload := by
  have hSource : srcaddr (outFile (hdr.bytes ++ tail) ptr) = Words.ofBytes (le32 hdr.srcaddr) := rfl
  have hBlock : blocksize (outFile (hdr.bytes ++ tail) ptr) =
      Words.ofBytes (le32 hdr.blocksize) := rfl
  subst hLength
  subst hPtr
  refine endOk_iff hWords hPos (by decide) hLe (by omega) rfl
    ?_ ?_
  · rw [hSource, ofBytes_le32, hSrcaddr]
  · rw [hBlock, ofBytes_le32, hBlocksize]

variable {ptr : List UInt8}

/- Without registers the header space stays zero. -/
theorem wellFormed_v0_plain (hPtr : ptr = imageFile 512 payload) (hNone : datas cfg = [])
    (hHdr : hdr = mainHdrV0 cfg params ptr.length 32) :
    WellFormed env cfg 512 hdr.summed.bytes (outFile hdr.summed.bytes ptr) ↔
      LengthOk 512 32 payload := by
  have hZero : hdr.checksum = 0 := by
    rw [hHdr]
    rfl
  have hEnd : EndOk (outFile (hdr.summed.bytes ++ []) ptr) ↔ LengthOk 512 32 payload :=
    endOk_v0 hPtr rfl (by decide) (by decide) (by decide) (by rw [hHdr]; rfl) (by rw [hHdr]; rfl)
  rw [append_nil] at hEnd
  rw [← hEnd]
  constructor
  · intro hWell
    exact ⟨hWell.length, hWell.checksum⟩
  · rintro ⟨hLength, hChecksum⟩
    refine
      { reserved := show 32 ≤ 512 by decide
        verified := ?_
        length := hLength
        checksum := hChecksum
        headers := ?_ }
    · have hDrop : ptr.drop 32 = zeros 480 ++ padded payload := by
        rw [hPtr]
        exact drop_imageFile (by decide)
      have hOut : outFile hdr.summed.bytes ptr =
          hdr.summed.bytes ++ (zeros 480 ++ (padded payload ++
            le32 (imageChecksum32 ptr ptr.length))) := by
        unfold outFile
        rw [show hdr.summed.bytes.length = 32 from rfl, hDrop, append_assoc, append_assoc]
      rw [hOut, verify_v0 hZero, take_left' (length_zeros 480)]
      refine if_neg (not_not.mpr ?_)
      have hZeros : (zeros 480).dropLast = zeros 479 := by exact dropLast_replicate
      rw [hZeros, imageChecksum8_zeros]
      decide +kernel
    · have hVersion : imageVersion (outFile hdr.summed.bytes ptr) = 0 := rfl
      have hField : mainExt (outFile hdr.summed.bytes ptr) = hdr.ext := rfl
      unfold Visits
      rw [if_pos hVersion, if_pos hNone, hField, hHdr]
      exact if_pos hNone

/- With registers there is an extended header. -/
theorem wellFormed_v0_registers (hPtr : ptr = imageFile 512 payload) (hSome : datas cfg ≠ [])
    (hHdr : hdr = mainHdrV0 cfg params ptr.length 512) {ext : List UInt8}
    (hExt : extHdrV0 (datas cfg) = some ext) :
    WellFormed env cfg 512 (hdr.summed.bytes ++ ext) (outFile (hdr.summed.bytes ++ ext) ptr) ↔
      (datas cfg).length ≤ 55 ∧ LengthOk 512 512 payload := by
  have hZero : hdr.checksum = 0 := by
    rw [hHdr]
    rfl
  have hExtLength : ext.length = 480 := extHdrV0_length hExt
  have hLength : (hdr.summed.bytes ++ ext).length = 512 := by
    rw [length_append, hExtLength]
    rfl
  have hEnd : EndOk (outFile (hdr.summed.bytes ++ ext) ptr) ↔ LengthOk 512 512 payload :=
    endOk_v0 hPtr hLength (by decide) (by decide) (by decide)
      (by rw [hHdr]; rfl) (by rw [hHdr]; rfl)
  rw [← hEnd]
  have hVersion : imageVersion (outFile (hdr.summed.bytes ++ ext) ptr) = 0 := rfl
  have hField : mainExt (outFile (hdr.summed.bytes ++ ext) ptr) = 1 := by
    have hSame : mainExt (outFile (hdr.summed.bytes ++ ext) ptr) = hdr.ext := rfl
    rw [hSame, hHdr]
    exact if_neg hSome
  constructor
  · intro hWell
    refine ⟨?_, hWell.length, hWell.checksum⟩
    have hHeaders := hWell.headers
    unfold Visits at hHeaders
    rw [if_pos hVersion, if_neg hSome] at hHeaders
    have hShort := hHeaders.2.2.length_le
    rw [length_registerData, length_take] at hShort
    omega
  · rintro ⟨hFew, hLengthOk, hChecksum⟩
    rcases extHdrV0_eq hFew with ⟨front, hFront, hSize, hEq⟩
    have hParts : ext = front ++ [imageChecksum8 front] := Option.some.inj (hExt.symm.trans hEq)
    have hOut : outFile (hdr.summed.bytes ++ ext) ptr =
        hdr.summed.bytes ++ (ext ++ (padded payload ++ le32 (imageChecksum32 ptr ptr.length))) := by
      have hDrop : ptr.drop 512 = padded payload := by
        rw [hPtr]
        exact drop_imageFile (by decide)
      unfold outFile
      rw [hLength, hDrop, append_assoc, append_assoc]
    refine
      { reserved := Nat.le_of_eq hLength
        verified := ?_
        length := hLengthOk
        checksum := hChecksum
        headers := ?_ }
    · rw [hOut, verify_v0 hZero, take_left' hExtLength, hParts, dropLast_concat]
      refine if_neg (not_not.mpr ?_)
      rw [getD_eq_getElem?_getD, getElem?_append_right (by omega), hSize]
      rfl
    · unfold Visits
      rw [if_pos hVersion, if_neg hSome]
      refine ⟨by rw [hField]; decide, Nat.le_of_eq hLength.symm, ?_⟩
      have hDrop : (outFile (hdr.summed.bytes ++ ext) ptr).drop
          64 = registerData (datas cfg) ++ (zeros (447 - 8 * (datas cfg).length) ++
              [imageChecksum8 front] ++ (padded payload ++
                le32 (imageChecksum32 ptr ptr.length))) := by
        have hStart : (hdr.summed.bytes ++ (le32 0x40 ++ zeros 28)).length = 64 := rfl
        rw [hOut, hParts, hFront]
        refine Eq.trans (congrArg _ ?_) (drop_left' hStart)
        simp only [append_assoc]
      rw [hDrop, prefix_take_iff, length_registerData]
      exact ⟨prefix_append _ _, by omega⟩

end Version0

end Uboot.Kwbimage
