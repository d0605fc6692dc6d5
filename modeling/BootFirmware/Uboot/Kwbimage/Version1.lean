import BootFirmware.Uboot.Kwbimage.WellFormed

/-
  Images of version 1, which have one binary header or none.

  Key definitions include:
    * `CreatedV1`

  The main results are:
    * `CreatedV1.not_wellFormed`
    * `CreatedV1.wellFormed_iff`
-/

----
-- Images Of Version 1
----

namespace Uboot.Kwbimage

open List

section Version1

variable {env : Env} {params : Params} {cfg : List Element} {payload : List UInt8}

variable {hdr : MainHdrV1}

theorem kwbheaderV1Size_eq
    {headersz : Nat} (hMsb : hdr.headerszMsb = .ofNat (headersz % 2 ^ 32 / 2 ^ 16))
    (hLsb : hdr.headerszLsb = headersz) (rest : List UInt8) :
    kwbheaderV1Size (hdr.bytes ++ rest) = headersz % 2 ^ 24 := by
  have hFields : kwbheaderV1Size (hdr.bytes ++ rest) =
      hdr.headerszMsb.toNat * 2 ^ 16 + Words.ofBytes (le16 hdr.headerszLsb) := rfl
  rw [hFields, ofBytes_le16, hMsb, hLsb, UInt8.toNat_ofNat']
  omega

theorem MainHdrV1.sum_bytes (hdr : MainHdrV1) :
    imageChecksum8 hdr.bytes = imageChecksum8 hdr.bytes.dropLast + hdr.checksum := by
  have hBytes : hdr.bytes = hdr.bytes.dropLast ++ [hdr.checksum] := rfl
  calc imageChecksum8 hdr.bytes
      = imageChecksum8 (hdr.bytes.dropLast ++ [hdr.checksum]) := congrArg imageChecksum8 hBytes
    _ = imageChecksum8 hdr.bytes.dropLast + hdr.checksum := by
        rw [imageChecksum8_append, imageChecksum8_singleton]

/- The sum is taken while the checksum is zero. -/
theorem MainHdrV1.summed_checksum (hZero : hdr.checksum = 0) (opt : List UInt8) (n : Nat) :
    (hdr.summed (opt ++ zeros n)).checksum =
      imageChecksum8 hdr.bytes.dropLast + imageChecksum8 opt := by
  have hField : (hdr.summed (opt ++ zeros n)).checksum =
      imageChecksum8 (hdr.bytes ++ (opt ++ zeros n)) := by
    rw [MainHdrV1.summed]
  have hSum := hdr.sum_bytes
  generalize imageChecksum8 hdr.bytes.dropLast = front at hSum ⊢
  rw [hField, imageChecksum8_append, imageChecksum8_append opt,
    imageChecksum8_zeros, hSum, hZero, UInt8.add_zero, UInt8.add_zero]

/- Behind what is used, the header does not count. -/
theorem verify_v1
    (hZero : hdr.checksum = 0) (hVersion : hdr.version = 1) {opt tail : List UInt8} {n m : Nat}
    (hm : m ≤ n)
    (hSize : kwbheaderV1Size
      ((hdr.summed (opt ++ zeros n)).bytes ++ (opt ++ zeros n ++ tail)) = 32 + opt.length + m) :
    kwbimageVerifyHeader ((hdr.summed (opt ++ zeros n)).bytes ++ (opt ++ zeros n ++ tail)) = 0 := by
  generalize hSummed : hdr.summed (opt ++ zeros n) = summed at hSize ⊢
  have hSum : summed.checksum = imageChecksum8 summed.bytes.dropLast + imageChecksum8 opt := by
    rw [← hSummed]
    exact MainHdrV1.summed_checksum hZero opt n
  have hByte8 : imageVersion (summed.bytes ++ (opt ++ zeros n ++ tail)) = 1 := by
    have hField : imageVersion
        (summed.bytes ++ (opt ++ zeros n ++ tail)) = summed.version.toNat := rfl
    rw [hField, ← hSummed]
    exact congrArg UInt8.toNat hVersion
  have hTake : (summed.bytes ++ (opt ++ zeros n ++ tail)).take
      (32 + opt.length + m) = summed.bytes ++ (opt ++ zeros m) := by
    have hSplit : zeros n = zeros m ++ zeros (n - m) := by
      unfold zeros
      rw [replicate_append_replicate, Nat.add_sub_cancel' hm]
    have hLength : (summed.bytes ++ (opt ++ zeros m)).length = 32 + opt.length + m := by
      rw [length_append, length_append, length_zeros]
      exact (Nat.add_assoc 32 _ _).symm
    rw [hSplit, ← append_assoc opt, append_assoc (opt ++ zeros m), ← append_assoc,
      take_left' hLength]
  have hOk : mainHdrChecksumOk (summed.bytes ++ (opt ++ zeros n ++ tail)) = true := by
    have hField : (summed.bytes ++ (opt ++ zeros n ++ tail)).getD 31 0 = summed.checksum := rfl
    unfold mainHdrChecksumOk kwbimageHeaderSize
    dsimp only
    rw [if_neg (by rw [hByte8]; decide), hSize, hTake, hField,
      imageChecksum8_append, imageChecksum8_append opt, imageChecksum8_zeros, summed.sum_bytes]
    generalize imageChecksum8 summed.bytes.dropLast = front at hSum ⊢
    rw [UInt8.add_zero, UInt8.add_assoc, UInt8.add_comm summed.checksum, ← UInt8.add_assoc, ← hSum,
      UInt8.add_sub_cancel]
    exact beq_self_eq_true _
  unfold kwbimageVerifyHeader
  rw [if_neg (by rw [hOk]; exact nofun),
    if_neg (fun h => by
      rw [hByte8] at h
      exact absurd h.1 (by decide))]

/- A walk that ends has visited a header. -/
theorem optHdrsFrom_first {file : List UInt8} {headersz fuel ofs : Nat} {opts : List OptHdr}
    (hWalk : optHdrsFrom file headersz fuel ofs = some opts) :
    8 ≤ optHdrSize file ofs ∧ ofs + optHdrSize file ofs ≤ headersz ∧ ∃ rest, opts =
        { headertype := file.getD ofs 0
          data := (file.drop (ofs + 4)).take (optHdrSize file ofs - 8) } :: rest := by
  cases fuel with
  | zero => cases hWalk
  | succ fuel =>
    unfold optHdrsFrom at hWalk
    dsimp only at hWalk
    split at hWalk
    · cases hWalk
    · next hInside =>
        refine ⟨by omega, by omega, ?_⟩
        split at hWalk
        · cases hWalk
          exact ⟨[], rfl⟩
        · rcases Option.map_eq_some_iff.mp hWalk with ⟨rest, -, rfl⟩
          exact ⟨rest, rfl⟩

theorem length_flatMap_le32 (args : List Nat) :
    (args.flatMap le32).length = 4 * args.length := by
  induction args with
  | nil => rfl
  | cons a args ih =>
    have hCons : (a :: args).flatMap le32 = le32 a ++ args.flatMap le32 := rfl
    have hFour : (le32 a).length = 4 := rfl
    rw [hCons, length_append, ih, hFour, length_cons]
    omega

theorem length_binaryData (args : List Nat) (blob : List UInt8) :
    (binaryData args blob).length = 4 + 4 * args.length + blob.length := by
  have hFour : (le32 args.length).length = 4 := rfl
  unfold binaryData
  rw [length_append, length_append, hFour, length_flatMap_le32]

/- The size is four bytes more than what is written. -/
theorem addBinaryHeaderV1_spec
    {args : List Nat} {blob opt : List UInt8} (hAdd : addBinaryHeaderV1 args blob = some opt) :
    blob ≠ [] ∧ opt.length + 4 = binhdrsz args blob ∧ ∃ pad, opt =
        [2, .ofNat (binhdrsz args blob % 2 ^ 32 / 2 ^ 16)] ++ le16 (binhdrsz args blob) ++
          (binaryData args blob ++ pad) := by
  unfold addBinaryHeaderV1 at hAdd
  split at hAdd
  · cases hAdd
  · next hSome =>
      have hOpt := Option.some.inj hAdd
      have hParts : opt =
          [2, .ofNat (binhdrsz args blob % 2 ^ 32 / 2 ^ 16)] ++ le16 (binhdrsz args blob) ++
            (binaryData args blob ++ (zeros (alignSup blob.length 4 - blob.length) ++ le32 0)) := by
        rw [← hOpt]
        unfold binaryData
        simp only [append_assoc]
      refine ⟨hSome, ?_, _, hParts⟩
      have hUp := le_alignSup blob.length (show 0 < 4 by decide)
      have hSize : binhdrsz args blob = 4 + (args.length + 2) * 4 + alignSup blob.length 4 + 4 := by
        unfold binhdrsz alignSup
        omega
      have hFront : ([2, .ofNat (binhdrsz args blob % 2 ^ 32 /
          2 ^ 16)] ++ le16 (binhdrsz args blob) : List UInt8).length = 4 := rfl
      have hZero : (le32 0).length = 4 := rfl
      rw [hParts, length_append, hFront, length_append, length_binaryData,
        length_append, length_zeros, hZero]
      omega

/- What a file of version 1 says of its first header. -/
theorem optHdrSize_eq {size : Nat} (rest : List UInt8) :
    optHdrSize (hdr.bytes ++
      ([2, .ofNat (size % 2 ^ 32 / 2 ^ 16)] ++ le16 size ++ rest)) 32 = size % 2 ^ 24 := by
  have hFields : optHdrSize (hdr.bytes ++
      ([2, .ofNat (size % 2 ^ 32 / 2 ^ 16)] ++ le16 size ++ rest)) 32 =
      (UInt8.ofNat (size % 2 ^ 32 / 2 ^ 16)).toNat * 2 ^ 16 + Words.ofBytes (le16 size) := rfl
  rw [hFields, ofBytes_le16, UInt8.toNat_ofNat']
  omega

section Created

variable {hdr : MainHdrV1} {opt ptr image out : List UInt8} {headersz n : Nat}

/- What is known of a header of version 1 and its file. -/
structure CreatedV1
    (cfg : List Element) (params : Params) (payload : List UInt8)
    (hdr : MainHdrV1) (opt ptr image out : List UInt8)
    (headersz n : Nat) : Prop where
  hdr_eq : hdr = mainHdrV1 cfg params ptr.length headersz
  ptr_eq : ptr = imageFile headersz payload
  room : headersz = 32 + opt.length + n
  words : 4 ∣ headersz
  small : headersz < 2 ^ 31
  image_eq : image = (hdr.summed (opt ++ zeros n)).bytes ++ (opt ++ zeros n)
  out_eq : out = outFile image ptr

variable (hCreated : CreatedV1 cfg params payload hdr opt ptr image out headersz n)

include hCreated

theorem CreatedV1.length_image : image.length = headersz := by
  rw [hCreated.image_eq, length_append, length_append, length_zeros, hCreated.room]
  exact (Nat.add_assoc 32 _ _).symm

theorem CreatedV1.exists_tail :
    ∃ tail, out = (hdr.summed (opt ++ zeros n)).bytes ++ (opt ++ zeros n ++ tail) := by
  refine ⟨ptr.drop image.length ++ le32 (imageChecksum32 ptr ptr.length), ?_⟩
  rw [hCreated.out_eq]
  unfold outFile
  rw [append_assoc]
  nth_rewrite 1 [hCreated.image_eq]
  rw [append_assoc]

theorem CreatedV1.size : kwbheaderV1Size out = headersz % 2 ^ 24 := by
  rcases hCreated.exists_tail with ⟨tail, hOut⟩
  rw [hOut]
  refine kwbheaderV1Size_eq ?_ ?_ _
  · rw [hCreated.hdr_eq]
    rfl
  · rw [hCreated.hdr_eq]
    rfl

theorem CreatedV1.version : imageVersion out = 1 := by
  rcases hCreated.exists_tail with ⟨tail, hOut⟩
  rw [hOut, hCreated.hdr_eq]
  rfl

theorem CreatedV1.ext : mainExt out = 1 := by
  rcases hCreated.exists_tail with ⟨tail, hOut⟩
  rw [hOut, hCreated.hdr_eq]
  rfl

theorem CreatedV1.endOk : EndOk out ↔ LengthOk headersz headersz payload := by
  have hLength := hCreated.length_image
  have hRoom := hCreated.room
  have hSmall := hCreated.small
  have hWords := hCreated.words
  have hPtr := hCreated.ptr_eq
  rcases hCreated.exists_tail with ⟨tail, hOut⟩
  have hSource : srcaddr out = headersz % 2 ^ 32 := by
    have hField : srcaddr out = Words.ofBytes (le32 headersz) := by
      rw [hOut, hCreated.hdr_eq]
      rfl
    rw [hField, ofBytes_le32]
  have hBlock : blocksize out = (ptr.length + 4 + 2 ^ 64 - headersz) % 2 ^ 32 := by
    have hField : blocksize out = Words.ofBytes (le32 (ptr.length + 4 + 2 ^ 64 - headersz)) := by
      rw [hOut, hCreated.hdr_eq]
      rfl
    rw [hField, ofBytes_le32]
  have hFile : out = outFile image (imageFile headersz payload) := hPtr ▸ hCreated.out_eq
  rw [hPtr] at hBlock
  rw [← hLength] at hFile hSource hBlock hWords ⊢
  exact endOk_iff hWords (by omega) hWords (Nat.le_refl _) (by omega) hFile hSource hBlock

/- A flag without a header does not lead to no header. -/
theorem CreatedV1.not_wellFormed (hNone : binaries cfg = []) :
    ¬ WellFormed env cfg headersz image out := by
  intro hWell
  have hHeaders := hWell.headers
  unfold Visits at hHeaders
  rw [if_neg (by rw [hCreated.version]; decide)] at hHeaders
  rcases hHeaders with ⟨opts, hWalk, hSame⟩
  unfold optHdrs at hWalk
  rw [if_neg (by rw [hCreated.ext]; decide)] at hWalk
  rcases optHdrsFrom_first hWalk with ⟨-, -, rest, hFirst⟩
  rw [hNone, hFirst] at hSame
  cases hSame

theorem CreatedV1.wellFormed_iff {file : List UInt8} {args : List Nat} {blob : List UInt8}
    (hBinary : binaries cfg = [(file, args)]) (hFile : env.files file = some blob)
    (hAdd : addBinaryHeaderV1 args blob = some opt) :
    WellFormed env cfg headersz image out ↔ mainHdrSize + binhdrsz args blob ≤ headersz % 2 ^ 24 ∧
        LengthOk headersz headersz payload := by
  rcases addBinaryHeaderV1_spec hAdd with ⟨hSome, hOptLength, pad, hOpt⟩
  rcases hCreated.exists_tail with ⟨tail, hOut⟩
  have hVersion : ¬ imageVersion out = 0 := by
    rw [hCreated.version]
    decide
  have hExt : ¬ mainExt out = 0 := by
    rw [hCreated.ext]
    decide
  have hOptSize : optHdrSize out mainHdrSize = binhdrsz args blob % 2 ^ 24 := by
    rw [hOut, hOpt]
    exact optHdrSize_eq _
  have hType : out.getD mainHdrSize 0 = 2 := by
    rw [hOut, hOpt]
    rfl
  have hDrop : ∃ more, out.drop (mainHdrSize + 4) = binaryData args blob ++ more := by
    refine ⟨pad ++ (zeros n ++ tail), ?_⟩
    have hStart : ((hdr.summed (opt ++ zeros n)).bytes ++ ([2, UInt8.ofNat
          (binhdrsz args blob % 2 ^ 32 / 2 ^ 16)] ++
            le16 (binhdrsz args blob))).length = mainHdrSize + 4 := rfl
    rw [hOut]
    refine Eq.trans (congrArg _ ?_) (drop_left' hStart)
    nth_rewrite 2 [hOpt]
    simp only [append_assoc]
  rcases hDrop with ⟨more, hMore⟩
  rw [← hCreated.endOk]
  constructor
  · intro hWell
    refine ⟨?_, hWell.length, hWell.checksum⟩
    have hHeaders := hWell.headers
    unfold Visits at hHeaders
    rw [if_neg hVersion] at hHeaders
    rcases hHeaders with ⟨opts, hWalk, hSame⟩
    unfold optHdrs at hWalk
    rw [if_neg hExt] at hWalk
    rcases optHdrsFrom_first hWalk with ⟨hLow, hInside, rest, hFirst⟩
    rw [hBinary, hFirst] at hSame
    cases hSame with
    | cons hIs hRest =>
      rcases hIs with ⟨-, blob', hFile', hPrefix⟩
      cases hFile.symm.trans hFile'
      have hShort := hPrefix.length_le
      rw [length_binaryData, hOptSize, length_take] at hShort
      dsimp only at hShort
      rw [hCreated.size, hOptSize] at hInside
      have hSize : binhdrsz args blob < 20 + 4 * args.length + blob.length := by
        have hUp := alignSup_lt (4 + (args.length + 2) * 4 + blob.length) (show 0 < 4 by decide)
        unfold binhdrsz
        omega
      omega
  · rintro ⟨hFits, hLength, hChecksum⟩
    have hRoom := hCreated.room
    have hData := length_binaryData args blob
    have hBig : 16 + 4 * args.length + blob.length ≤ binhdrsz args blob := by
      have hUp := le_alignSup (4 + (args.length + 2) * 4 + blob.length) (show 0 < 4 by decide)
      unfold binhdrsz
      omega
    unfold mainHdrSize at *
    have hSmall : binhdrsz args blob % 2 ^ 24 = binhdrsz args blob := Nat.mod_eq_of_lt (by omega)
    have hMark : out.getD (32 + binhdrsz args blob - 4) 0 = 0 := by
      have hAt : 32 + binhdrsz args blob - 4 = (hdr.summed (opt ++ zeros n)).bytes.length +
            opt.length := by
        have hThirtyTwo : (hdr.summed (opt ++ zeros n)).bytes.length = 32 := rfl
        omega
      have hZeros : 0 < (zeros n).length := by
        rw [length_zeros]
        omega
      rw [hAt, hOut, getD_eq_getElem?_getD, getElem?_append_right (by omega),
        Nat.add_sub_cancel_left, append_assoc,
        getElem?_append_right (by omega), Nat.sub_self, getElem?_append_left hZeros]
      unfold zeros
      rw [getElem?_replicate]
      split
      · rfl
      · rfl
    refine
      { reserved := Nat.le_of_eq hCreated.length_image
        verified := ?_
        length := hLength
        checksum := hChecksum
        headers := ?_ }
    · have hZero : hdr.checksum = 0 := by
        rw [hCreated.hdr_eq]
        rfl
      have hOne : hdr.version = 1 := by
        rw [hCreated.hdr_eq]
        rfl
      have hSize : kwbheaderV1Size out = 32 + opt.length +
          (headersz % 2 ^ 24 - (32 + opt.length)) := by
        rw [hCreated.size]
        omega
      rw [hOut] at hSize ⊢
      exact verify_v1 hZero hOne (by omega) hSize
    · unfold Visits
      rw [if_neg hVersion]
      have hWalk : optHdrs out = some
          [{ headertype := out.getD 32 0
             data := (out.drop (32 + 4)).take (binhdrsz args blob - 8) }] := by
        obtain ⟨fuel, hFuel⟩ : ∃ fuel, headersz % 2 ^ 24 = fuel + 1 :=
          ⟨headersz % 2 ^ 24 - 1, by omega⟩
        unfold optHdrs
        rw [if_neg hExt, hCreated.size, hFuel]
        unfold optHdrsFrom mainHdrSize
        rw [hOptSize, hSmall, if_neg (by omega), if_pos hMark]
      refine ⟨_, hWalk, ?_⟩
      rw [hBinary]
      refine .cons ⟨hType, blob, hFile, ?_⟩ .nil
      rw [hMore, prefix_take_iff, hData]
      exact ⟨prefix_append _ _, by omega⟩

end Created

theorem dvd_imageHeaderszV1 (env : Env) (cfg : List Element) :
    4 ∣ imageHeaderszV1 env cfg := by
  have hAlign : ∀ size, 4 ∣ alignHeader env size := by
    intro size
    have hFour : ∀ x, 4 ∣ alignSup x 4096 := fun x =>
      Nat.dvd_trans (by decide) (dvd_alignSup x 4096)
    unfold alignHeader
    split
    · exact hFour size
    · split
      · exact Nat.dvd_zero 4
      · exact hFour _
  unfold imageHeaderszV1
  split
  · exact Nat.dvd_zero 4
  · split
    · exact Nat.dvd_zero 4
    · split
      · exact hAlign _
      · split
        · exact Nat.dvd_zero 4
        · exact hAlign _

/- A size that is not an error needs these counts. -/
theorem counts_of_imageHeaderszV1 (hSize : imageHeaderszV1 env cfg ≠ 0) :
    (binaries cfg).length ≤ 1 ∧ (payloads cfg).length ≤ 1 := by
  unfold imageHeaderszV1 at hSize
  split at hSize
  · exact absurd rfl hSize
  · split at hSize
    · exact absurd rfl hSize
    · exact ⟨by omega, by omega⟩

/- What is created for a file in the space that it needs. -/
theorem imageCreateV1_some {payloadsz : Nat} {image : List UInt8}
    (hImage : imageCreateV1 env cfg params payloadsz = some image) :
    imageHeaderszV1 env cfg ≠ 0 ∧ image.length = imageHeaderszV1 env cfg ∧
      ∃ opt n, optHdrsV1 env cfg = some opt ∧ imageHeaderszV1 env cfg = 32 + opt.length + n ∧
        image = ((mainHdrV1 cfg params payloadsz
            (imageHeaderszV1 env cfg)).summed (opt ++ zeros n)).bytes ++ (opt ++ zeros n) := by
  unfold imageCreateV1 at hImage
  dsimp only at hImage
  split at hImage
  · cases hImage
  · next hNe =>
      rcases Option.bind_eq_some_iff.mp hImage with ⟨opt, hOpt, hRest⟩
      split at hRest
      · cases hRest
      · next hRoom =>
          unfold mainHdrSize at hRoom hRest
          have hParts := (Option.some.inj hRest).symm
          refine ⟨hNe, ?_, opt, imageHeaderszV1 env cfg - (32 + opt.length), hOpt, by omega, hParts⟩
          rw [hParts, length_append, length_append, length_zeros]
          generalize MainHdrV1.summed _ _ = hdr
          have hThirtyTwo : hdr.bytes.length = 32 := rfl
          omega

end Version1

end Uboot.Kwbimage
