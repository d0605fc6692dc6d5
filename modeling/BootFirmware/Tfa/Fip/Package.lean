import BootFirmware.Tfa.Fip.Layout
import Mathlib.Data.List.Pairwise

/-
  The tool and the driver agree on a package.

  Key definitions include:
    * `Yields`
    * `Agrees`

  The main results are:
    * `parseEntries_placed` and `findEntry_placed`
    * `package_agrees`
    * `package_with_gap`
-/

----
-- Entries
----

namespace Tfa.Fip

open Alignment SparseFile Words List

section Entries

variable {file front back : File} {pos steps : Nat}

variable {mid : List UInt8}

theorem readAt_of_append {off len : Nat}
    (hFile : file = front ++ (mid ++ back)) (hOff : front.length = off) (hLen : mid.length = len) :
    readAt file off len = mid := by
  rw [hFile, ← append_assoc, ← hOff, ← hLen]
  exact readAt_append front mid back

theorem readAt_first {len : Nat} (hFile : file = mid ++ back) (hLen : mid.length = len) :
    readAt file 0 len = mid :=
  readAt_of_append (hFile.trans (nil_append _).symm) rfl hLen

theorem readAt_last {off len : Nat}
    (hFile : file = front ++ mid) (hOff : front.length = off) (hLen : mid.length = len) :
    readAt file off len = mid := by
  have hFile' : file = front ++ (mid ++ []) := by rw [hFile, append_nil]
  exact readAt_of_append hFile' hOff hLen

theorem TocHeader.length_bytes (h : TocHeader) :
    h.bytes.length = TocHeader.sizeof := by
  unfold TocHeader.bytes TocHeader.sizeof
  simp only [length_append, length_wordBytes]

theorem TocEntry.length_bytes (e : TocEntry) :
    e.bytes.length = TocEntry.sizeof := by
  unfold TocEntry.bytes TocEntry.sizeof
  simp only [length_append, length_wordBytes]

theorem TocHeader.ofBytes_bytes (h : TocHeader) :
    TocHeader.ofBytes h.bytes = h := by
  have hName : readAt h.bytes 0 4 = wordBytes 4 h.name :=
    readAt_first (append_assoc _ _ _) (length_wordBytes 4 h.name)
  have hSerial : readAt h.bytes 4 4 = wordBytes 4 h.serialNumber :=
    readAt_of_append (append_assoc _ _ _) (length_wordBytes 4 h.name)
      (length_wordBytes 4 h.serialNumber)
  have hFlags : readAt h.bytes 8 8 = wordBytes 8 h.flags := by
    refine readAt_last rfl ?_ (length_wordBytes 8 h.flags)
    simp only [length_append, length_wordBytes]
  unfold TocHeader.ofBytes
  rw [hName, hSerial, hFlags, wordOfBytes_wordBytes, wordOfBytes_wordBytes, wordOfBytes_wordBytes]

theorem TocEntry.ofBytes_bytes (e : TocEntry) :
    TocEntry.ofBytes e.bytes = e := by
  have hBytes : e.bytes = wordBytes 16 e.uuid ++
      (wordBytes 8 e.offsetAddress ++ (wordBytes 8 e.size ++ wordBytes 8 e.flags)) := by
    unfold TocEntry.bytes
    rw [append_assoc, append_assoc]
  have hUuid : readAt e.bytes 0 16 = wordBytes 16 e.uuid :=
    readAt_first hBytes (length_wordBytes 16 e.uuid)
  have hOffset : readAt e.bytes 16 8 = wordBytes 8 e.offsetAddress :=
    readAt_of_append hBytes (length_wordBytes 16 e.uuid) (length_wordBytes 8 e.offsetAddress)
  have hSize : readAt e.bytes 24 8 = wordBytes 8 e.size := by
    refine readAt_of_append (append_assoc _ _ _) ?_ (length_wordBytes 8 e.size)
    simp only [length_append, length_wordBytes]
  have hFlags : readAt e.bytes 32 8 = wordBytes 8 e.flags := by
    refine readAt_last rfl ?_ (length_wordBytes 8 e.flags)
    simp only [length_append, length_wordBytes]
  unfold TocEntry.ofBytes
  rw [hUuid, hOffset, hSize, hFlags, wordOfBytes_wordBytes,
    wordOfBytes_wordBytes, wordOfBytes_wordBytes, wordOfBytes_wordBytes]

theorem ofBytes_readAt
    {e : TocEntry} (hFile : file = front ++ (e.bytes ++ back)) (hPos : front.length = pos) :
    TocEntry.ofBytes (readAt file pos TocEntry.sizeof) = e := by
  rw [readAt_of_append hFile hPos e.length_bytes]
  exact e.ofBytes_bytes

end Entries

----
-- Descriptors
----

section Descriptors

variable {descs : List ImageDesc} {images : List Image}

theorem imageOf_cons (desc : ImageDesc) (rest : List ImageDesc) (uuid : Uuid) :
    imageOf (desc :: rest) uuid =
      if desc.uuid = uuid then desc.image
      else imageOf rest uuid := by
  unfold imageOf
  by_cases hUuid : desc.uuid = uuid
  · simp only [find?_cons, hUuid, decide_true, if_true]
    rfl
  · simp only [find?_cons, hUuid, decide_false, if_false]

theorem imageOf_fresh (hFresh : ∀ desc ∈ descs, desc.image = none) (uuid : Uuid) :
    imageOf descs uuid = none := by
  induction descs with
  | nil => rfl
  | cons desc rest ih =>
    rw [imageOf_cons]
    split_ifs
    · exact hFresh desc mem_cons_self
    · exact ih fun d hd => hFresh d (mem_cons_of_mem desc hd)

/- A UUID without an image gets one, and no other does. -/
theorem addImage_some {image : Image} (hNone : imageOf descs image.tocE.uuid = none) :
    ∃ descs', addImage image descs = some descs' ∧ ∀ uuid, imageOf descs' uuid =
        if image.tocE.uuid = uuid then some image
        else imageOf descs uuid := by
  induction descs with
  | nil =>
    refine ⟨_, rfl, fun uuid => ?_⟩
    rw [imageOf_cons]
  | cons desc rest ih =>
    rw [imageOf_cons] at hNone
    unfold addImage
    by_cases hUuid : desc.uuid = image.tocE.uuid
    · rw [if_pos hUuid] at hNone
      rw [if_pos hUuid, hNone]
      refine ⟨_, rfl, fun uuid => ?_⟩
      rw [imageOf_cons, imageOf_cons, hUuid]
      split_ifs <;> rfl
    · rw [if_neg hUuid] at hNone
      rcases ih hNone with ⟨descs', hAdd, hImages⟩
      rw [if_neg hUuid, hAdd]
      refine ⟨_, rfl, fun uuid => ?_⟩
      rw [imageOf_cons, imageOf_cons, hImages]
      by_cases hEq : desc.uuid = uuid
      · rw [if_pos hEq, if_pos hEq]
        rw [if_neg fun hOther => hUuid (hEq.trans hOther.symm)]
      · rw [if_neg hEq, if_neg hEq]

/- What the walk adds, one image after the other. -/
def addImages : List Image → List ImageDesc → Option (List ImageDesc)
  | [], descs => some descs
  | image :: rest, descs => (addImage image descs).bind (addImages rest)

theorem addImages_some (hDistinct : (images.map fun image => image.tocE.uuid).Nodup)
    (hNone : ∀ image ∈ images, imageOf descs image.tocE.uuid = none) :
    ∃ descs', addImages images descs = some descs' ∧ ∀ uuid, imageOf descs' uuid =
        (images.find? fun image => image.tocE.uuid = uuid).or (imageOf descs uuid) := by
  induction images generalizing descs with
  | nil => exact ⟨descs, rfl, fun uuid => rfl⟩
  | cons image rest ih =>
    rcases addImage_some (hNone image mem_cons_self) with ⟨mid, hAdd, hImages⟩
    rcases nodup_cons.mp hDistinct with ⟨hNot, hRest⟩
    have hStill : ∀ x ∈ rest, imageOf mid x.tocE.uuid = none := by
      intro x hx
      rw [hImages, if_neg]
      · exact hNone x (mem_cons_of_mem image hx)
      · intro hEq
        exact hNot (mem_map.mpr ⟨x, hx, hEq.symm⟩)
    rcases ih hRest hStill with ⟨descs', hAll, hFound⟩
    refine ⟨descs', ?_, fun uuid => ?_⟩
    · unfold addImages
      rw [hAdd]
      exact hAll
    · rw [hFound, hImages]
      by_cases hEq : image.tocE.uuid = uuid
      · have hOther : rest.find? (fun x =>
            x.tocE.uuid = uuid) = none := by
          rw [find?_eq_none]
          intro x hx hSame
          refine hNot (mem_map.mpr ⟨x, hx, ?_⟩)
          exact (of_decide_eq_true hSame).trans hEq.symm
        simp only [hOther, hEq, find?_cons, decide_true, if_true]
        rfl
      · simp only [hEq, find?_cons, decide_false, if_false]

theorem find_of_nodup {image : Image}
    (hDistinct : (images.map fun image => image.tocE.uuid).Nodup) (hMem : image ∈ images) :
    images.find? (fun x => x.tocE.uuid = image.tocE.uuid) = some image := by
  induction images with
  | nil => exact absurd hMem not_mem_nil
  | cons x rest ih =>
    rcases nodup_cons.mp hDistinct with ⟨hNot, hRest⟩
    rcases mem_cons.mp hMem with rfl | hMem
    · simp only [find?_cons, decide_true]
    · have hNe : x.tocE.uuid ≠ image.tocE.uuid := fun hEq =>
        hNot (mem_map.mpr ⟨image, hMem, hEq.symm⟩)
      simp only [find?_cons, hNe, decide_false]
      exact ih hRest hMem

end Descriptors

----
-- Walks
----

section Walks

variable {file front back : File} {placed : List Image} {last : TocEntry} {pos : Nat}

/- The entries of the images are there, and an end mark. -/
structure TocAt
    (file : File) (pos : Nat) (placed : List Image)
    (last : TocEntry) : Prop where
  hBytes : ∃ front back, front.length = pos ∧
    file = front ++ (placed.flatMap (fun image => image.tocE.bytes) ++ last.bytes ++ back)
  hLast : last.uuid = uuidNull
  hNull : ∀ image ∈ placed, image.tocE.uuid ≠ uuidNull

variable {image : Image}

/- The first entry, which there is room for. -/
theorem TocAt.head {rest : List Image} (hToc : TocAt file pos (image :: rest) last) :
    pos + TocEntry.sizeof ≤ file.length ∧
      TocEntry.ofBytes (readAt file pos TocEntry.sizeof) = image.tocE ∧
      TocAt file (pos + TocEntry.sizeof) rest last := by
  rcases hToc.hBytes with ⟨front, back, hPos, hFile⟩
  rw [flatMap_cons, append_assoc, append_assoc] at hFile
  refine ⟨?_, ofBytes_readAt hFile hPos, ?_, hToc.hLast,
    fun x hx => hToc.hNull x (mem_cons_of_mem image hx)⟩
  · have hLength := congrArg List.length hFile
    rw [length_append, length_append, image.tocE.length_bytes] at hLength
    omega
  · refine ⟨front ++ image.tocE.bytes, back, ?_, ?_⟩
    · rw [length_append, image.tocE.length_bytes, hPos]
    · rw [hFile, append_assoc, append_assoc]

theorem TocAt.nil (hToc : TocAt file pos [] last) :
    pos + TocEntry.sizeof ≤ file.length ∧
      TocEntry.ofBytes (readAt file pos TocEntry.sizeof) = last := by
  rcases hToc.hBytes with ⟨front, back, hPos, hFile⟩
  rw [flatMap_nil, nil_append] at hFile
  refine ⟨?_, ofBytes_readAt hFile hPos⟩
  have hLength := congrArg List.length hFile
  rw [length_append, length_append, last.length_bytes] at hLength
  omega

/- An image whose bytes are in the file. -/
structure InFile (file : File) (image : Image) : Prop where
  hStop : image.stop ≤ file.length
  hRead : readAt file image.start image.buffer.length = image.buffer

theorem InFile.inside (hIn : InFile file image) (hShort : file.length < 2 ^ 63) :
    ∃ hInside : image.tocE.inside file, imageAt image.tocE file hInside = image := by
  have hStop : image.tocE.offsetAddress.toNat + image.tocE.size.toNat ≤ file.length := by
    rw [image.hSize]
    exact hIn.hStop
  have hRead : readAt file image.tocE.offsetAddress.toNat image.tocE.size.toNat = image.buffer := by
    rw [image.hSize]
    exact hIn.hRead
  have hLe : image.tocE.offsetAddress ≤ BitVec.allOnes 64 := by
    rw [BitVec.le_def, BitVec.toNat_allOnes]
    omega
  refine ⟨⟨?_, ?_⟩, ?_⟩
  · rw [BitVec.le_def, BitVec.toNat_sub_of_le hLe, BitVec.toNat_allOnes]
    omega
  · rw [BitVec.toNat_add]
    omega
  · unfold imageAt
    cases image
    simp only [Image.mk.injEq, true_and]
    exact hRead

/- The tool finds exactly the images that are placed. -/
theorem parseEntries_placed
    (descs : List ImageDesc) (steps : Nat) (hToc : TocAt file pos placed last)
    (hIn : ∀ image ∈ placed, InFile file image)
    (hShort : file.length < 2 ^ 63) (hSteps : placed.length < steps) :
    parseEntries file steps pos descs = addImages placed descs := by
  induction placed generalizing pos descs steps with
  | nil =>
    cases steps with
    | zero => exact absurd hSteps (Nat.not_lt_zero _)
    | succ steps =>
      rcases hToc.nil with ⟨hRoom, hEntry⟩
      unfold parseEntries
      rw [if_neg (Nat.not_lt.mpr hRoom), hEntry, if_pos hToc.hLast]
      rfl
  | cons image rest ih =>
    cases steps with
    | zero => exact absurd hSteps (Nat.not_lt_zero _)
    | succ steps =>
      rcases hToc.head with ⟨hRoom, hEntry, hRest⟩
      rcases (hIn image mem_cons_self).inside hShort with ⟨hInside, hImage⟩
      unfold parseEntries addImages
      rw [if_neg (Nat.not_lt.mpr hRoom)]
      simp only [hEntry]
      rw [if_neg (hToc.hNull image mem_cons_self), dif_pos hInside, hImage]
      refine Option.bind_congr fun descs' _ => ?_
      exact ih descs' steps hRest (fun x hx => hIn x (mem_cons_of_mem image hx))
        (Nat.lt_of_succ_lt_succ hSteps)

/- The driver reads what is in the file. -/
def Holds (ioRead : Backend) (file : File) : Prop :=
  ∀ off len, off + len ≤ file.length → ioRead off len = .ok (readAt file off len)

theorem findEntry_placed {ioRead : Backend}
    (e : TocEntry) (steps : Nat) (hHolds : Holds ioRead file) (hToc : TocAt file pos placed last)
    (hDistinct : (placed.map fun image => image.tocE.uuid).Nodup)
    (hMem : image ∈ placed) (hSteps : placed.length < steps) :
    findEntry ioRead image.tocE.uuid steps pos e = .found image.tocE := by
  induction placed generalizing pos steps e with
  | nil => exact absurd hMem not_mem_nil
  | cons x rest ih =>
    cases steps with
    | zero => exact absurd hSteps (Nat.not_lt_zero _)
    | succ steps =>
      rcases hToc.head with ⟨hRoom, hEntry, hRest⟩
      rcases nodup_cons.mp hDistinct with ⟨hNot, hOthers⟩
      unfold findEntry
      rw [hHolds pos TocEntry.sizeof hRoom]
      simp only [hEntry]
      rcases mem_cons.mp hMem with rfl | hMem
      · rw [if_pos rfl]
      · have hNe : x.tocE.uuid ≠ image.tocE.uuid := fun hEq =>
          hNot (mem_map.mpr ⟨image, hMem, hEq.symm⟩)
        rw [if_neg hNe, if_neg (hToc.hNull x mem_cons_self)]
        exact ih x.tocE steps hRest hOthers hMem (Nat.lt_of_succ_lt_succ hSteps)

end Walks

----
-- Packages
----

/-
  The images that the tool finds are those that were packed.
  They are aligned and apart, after the table of contents and
  inside the file.
-/
structure Yields
    (a : Nat) (images : List Image) (file : File)
    (descs : List ImageDesc) : Prop where
  hSame : ∀ image ∈ images,
    ∃ image', imageOf descs image.tocE.uuid = some image' ∧ image'.tocE.uuid = image.tocE.uuid ∧
      image'.tocE.size = image.tocE.size ∧ image'.tocE.flags = image.tocE.flags ∧
      image'.buffer = image.buffer
  hNoOther : ∀ uuid, (∀ image ∈ images, image.tocE.uuid ≠ uuid) → imageOf descs uuid = none
  hPlaces : ∀ uuid image, imageOf descs uuid = some image →
    a ∣ image.start ∧ tocSize images.length ≤ image.start ∧ image.stop ≤ file.length
  hApart : ∀ uuid uuid' image image', imageOf descs uuid = some image →
    imageOf descs uuid' = some image' → uuid ≠ uuid' →
      image.stop ≤ image'.start ∨ image'.stop ≤ image.start

/- The tool, the end mark and the driver. -/
structure Agrees
    (descs : List ImageDesc) (tocFlags : BitVec 64) (a : Nat) (images : List Image)
    (file : File) : Prop where
  hParse : ∃ header descs', parseFip descs file = some (header, descs') ∧
      isValidHeader header = true ∧ header.flags = tocFlags ∧ Yields a images file descs'
  hLast : let last := TocEntry.ofBytes (readAt file
      (TocHeader.sizeof + TocEntry.sizeof * images.length)
      TocEntry.sizeof)
    last.uuid = uuidNull ∧ last.offsetAddress.toNat = file.length
  hDriver : ∀ ioRead, Holds ioRead file → ∀ image ∈ images, ∀ steps, images.length < steps →
      ∀ s : FileState, s.entry.offsetAddress = 0 →
        let r := fipFileOpen ioRead steps image.tocE.uuid s
        let r' := fipFileRead ioRead image.buffer.length r.2
        r.1 = 0 ∧ r'.1 = 0 ∧ r'.2.1 = image.buffer

/- The table of contents that is written first. -/
def tocBytes (tocFlags offset : BitVec 64) (placed : List Image) : List UInt8 :=
  (tocHeader tocFlags).bytes ++ placed.flatMap (fun image => image.tocE.bytes) ++
    (terminator offset).bytes

section Packages

variable {a n e : Nat} {tocFlags offset : BitVec 64} {descs : List ImageDesc}
  {images placed : List Image}
  {file : File}

theorem length_tocBytes (tocFlags offset : BitVec 64) (placed : List Image) :
    (tocBytes tocFlags offset placed).length = tocSize placed.length := by
  have hEntries : (placed.flatMap fun image =>
      image.tocE.bytes).length = TocEntry.sizeof * placed.length := by
    induction placed with
    | nil => rfl
    | cons image rest ih =>
      rw [flatMap_cons, length_append, ih,
        image.tocE.length_bytes, length_cons, Nat.mul_succ, Nat.add_comm]
  unfold tocBytes tocSize
  rw [length_append, length_append, hEntries,
    TocHeader.length_bytes, TocEntry.length_bytes, Nat.mul_succ, Nat.add_assoc]

section

variable (hLaid : Laid a n images placed e)
include hLaid

theorem Laid.uuids :
    (placed.map fun image => image.tocE.uuid) = images.map fun image => image.tocE.uuid := by
  induction hLaid with
  | nil => rfl
  | cons _ _ ih => exact congrArg (List.cons _) ih

theorem Laid.length : placed.length = images.length := by
  have hLengths := congrArg List.length hLaid.uuids
  rwa [length_map, length_map] at hLengths

/- Every image has its place. -/
theorem Laid.moved {image : Image} (hMem : image ∈ images) :
    ∃ offset, image.moved offset ∈ placed := by
  induction hLaid with
  | nil => exact absurd hMem not_mem_nil
  | @cons n e x rest placed offset _ _ ih =>
    rcases mem_cons.mp hMem with rfl | hMem
    · exact ⟨offset, mem_cons_self⟩
    · rcases ih hMem with ⟨offset', hPlaced⟩
      exact ⟨offset', mem_cons_of_mem _ hPlaced⟩

end

/- What is in the file of a package. -/
structure Packed
    (a : Nat) (tocFlags : BitVec 64) (images placed : List Image) (offset : BitVec 64)
    (file : File) : Prop where
  hLaid : Laid a (tocSize images.length) images placed (payloadEnd a (tocSize images.length) images)
  hOffset : offset.toNat = roundUp a (payloadEnd a (tocSize images.length) images)
  hToc : tocBytes tocFlags offset placed <+: file
  hLength : file.length = offset.toNat ↔ NoGap a (tocSize images.length) images
  hRead : ∀ image ∈ placed, readAt file image.start image.buffer.length = image.buffer

theorem length_padded (hPos : 0 < a) (hEnd : file.length = fileEnd a (n, n) images)
    (hPayload : payloadEnd a n images = e) :
    (writeAt 0 file e (List.replicate (roundUp a e - e) 0)).length = roundUp a e ↔
      NoGap a n images := by
  have hRound := le_roundUp e hPos
  have hLess : file.length ≤ e := by
    rw [hEnd, ← hPayload]
    exact fileEnd_le n images hPos
  have hTotal := length_writeAt 0 (List.replicate (roundUp a e - e) 0) hLess
  simp only [replicate_eq_nil_iff, length_replicate] at hTotal
  rw [hTotal]
  split_ifs with hPad
  · have hEq : roundUp a e = e := by omega
    rw [hEq, hEnd, ← hPayload]
    exact fileEnd_eq_iff hPos
  · refine ⟨fun _ => ?_, fun _ => by omega⟩
    by_contra hGap
    have hDvd := dvd_of_gap hPos hGap
    rw [hPayload] at hDvd
    rw [roundUp_of_dvd hPos hDvd] at hPad
    exact hPad (Nat.sub_self e)

/- The padding leaves what has been written before. -/
theorem packed_padded (hPos : 0 < a) (hLaid : Laid a (tocSize images.length) images placed e)
    (hPayload : payloadEnd a (tocSize images.length) images = e)
    (hOffset : offset.toNat = roundUp a e) (hToc : tocBytes tocFlags offset placed <+: file)
    (hEnd : file.length = fileEnd a (tocSize images.length, tocSize images.length) images)
    (hRead : ∀ image ∈ placed, (image.buffer = [] ∨ image.stop ≤ file.length) ∧
        readAt file image.start image.buffer.length = image.buffer) :
    Packed a tocFlags images placed offset
      (writeAt 0 file e (List.replicate (roundUp a e - e) 0)) := by
  have hLess : file.length ≤ e := by
    rw [hEnd, ← hPayload]
    exact fileEnd_le _ images hPos
  have hPrefix := prefix_writeAt 0 (List.replicate (roundUp a e - e) 0) hLess
  refine ⟨hPayload.symm ▸ hLaid, hPayload.symm ▸ hOffset, hToc.trans hPrefix, ?_, ?_⟩
  · rw [hOffset]
    exact length_padded hPos hEnd hPayload
  · intro image hImage
    rcases hRead image hImage with ⟨hEmpty | hStop, hSame⟩
    · rw [hEmpty]
      exact readAt_zero _ _
    · rw [readAt_extends hPrefix hStop]
      exact hSame

theorem packImages_packed {k : Nat} (tocFlags : BitVec 64) (hk : k < 64)
    (hNoWrap : NoWrap (2 ^ k) (tocSize (imagesOf descs).length)
      (imagesOf descs)) :
    ∃ placed offset file, packImages tocFlags (BitVec.twoPow 64 k) descs = some file ∧
        Packed (2 ^ k) tocFlags (imagesOf descs) placed offset
          file := by
  have hPos : 0 < 2 ^ k := Nat.two_pow_pos k
  unfold packImages
  generalize imagesOf descs = images at hNoWrap ⊢
  simp only
  have hStart := le_payloadEnd (tocSize images.length) images hPos
  have hRound := le_roundUp (payloadEnd (2 ^ k) (tocSize images.length) images) hPos
  have hSize : (BitVec.ofNat 64 (tocSize images.length)).toNat = tocSize images.length := by
    unfold NoWrap at hNoWrap
    rw [BitVec.toNat_ofNat]
    exact Nat.mod_eq_of_lt (by omega)
  rw [← hSize] at hNoWrap
  have hLayout := layout_laid hk hNoWrap
  generalize layout (BitVec.twoPow 64 k)
    (BitVec.ofNat 64 (tocSize images.length)) images = r at hLayout ⊢
  rcases r with ⟨placed, entryOffset⟩
  rw [hSize] at hLayout hNoWrap
  unfold NoWrap at hNoWrap
  simp only at hLayout ⊢
  generalize hPayload : payloadEnd (2 ^ k) (tocSize images.length)
    images = e at hLayout hNoWrap hRound
  rcases hLayout with ⟨hEntry, hLaid⟩
  have hOffset := alignUp_toNat entryOffset hk (by
    rw [hEntry]
    exact Nat.lt_trans hNoWrap (by decide))
  rw [hEntry] at hOffset
  have hToc := length_tocBytes tocFlags (alignUp entryOffset (BitVec.twoPow 64 k)) placed
  rw [hLaid.length] at hToc
  rcases writeImages_laid hPos hLaid (Nat.lt_of_le_of_lt hRound hNoWrap) (Nat.le_of_eq hToc) with
    ⟨file, hWrite, hPrefix, hLength, hRead⟩
  rw [hToc] at hLength
  have hSeek : fseek entryOffset = some e := by
    unfold fseek
    rw [hEntry, if_pos (Nat.lt_of_le_of_lt hRound hNoWrap)]
  have hPad : ((terminator (alignUp entryOffset
      (BitVec.twoPow 64 k))).offsetAddress - entryOffset).toNat = roundUp (2 ^ k) e - e := by
    unfold terminator
    simp only
    rw [BitVec.toNat_sub_of_le, hOffset, hEntry]
    rw [BitVec.le_def, hOffset, hEntry]
    exact hRound
  refine ⟨placed, alignUp entryOffset (BitVec.twoPow 64 k),
    writeAt 0 file e (List.replicate (roundUp (2 ^ k) e - e) 0),
    ?_, packed_padded hPos hLaid hPayload hOffset hPrefix hLength hRead⟩
  unfold tocBytes at hWrite
  rw [hWrite, Option.bind_some, hSeek, Option.map_some, hPad]

----
-- Readers
----

/- The table of contents of a package. -/
theorem Packed.tocAt (hPacked : Packed a tocFlags images placed offset file)
    (hNull : ∀ image ∈ images, image.tocE.uuid ≠ uuidNull) :
    TocAt file TocHeader.sizeof placed (terminator offset) := by
  refine ⟨?_, rfl, ?_⟩
  · rcases hPacked.hToc with ⟨back, hBack⟩
    refine ⟨(tocHeader tocFlags).bytes, back, TocHeader.length_bytes _, ?_⟩
    rw [← hBack]
    unfold tocBytes
    simp only [append_assoc]
  · intro image hImage
    have hMem : image.tocE.uuid ∈ images.map fun image => image.tocE.uuid := by
      rw [← hPacked.hLaid.uuids]
      exact mem_map.mpr ⟨image, hImage, rfl⟩
    rcases mem_map.mp hMem with ⟨x, hx, hSame⟩
    rw [← hSame]
    exact hNull x hx

/- The end mark is after all the entries. -/
theorem TocAt.last {last : TocEntry} {pos : Nat} (hToc : TocAt file pos placed last) :
    TocEntry.ofBytes (readAt file
      (pos + TocEntry.sizeof * placed.length) TocEntry.sizeof) = last := by
  induction placed generalizing pos with
  | nil => exact hToc.nil.2
  | cons image rest ih =>
    have hLast := ih hToc.head.2.2
    rwa [Nat.add_assoc, Nat.add_comm TocEntry.sizeof, ← Nat.mul_succ] at hLast

theorem Packed.header (hPacked : Packed a tocFlags images placed offset file) :
    TocHeader.sizeof ≤ file.length ∧
      TocHeader.ofBytes (readAt file 0 TocHeader.sizeof) = tocHeader tocFlags := by
  rcases hPacked.hToc with ⟨back, hBack⟩
  have hFile : file = (tocHeader tocFlags).bytes ++
      (placed.flatMap (fun image => image.tocE.bytes) ++ (terminator offset).bytes ++ back) := by
    rw [← hBack]
    unfold tocBytes
    simp only [append_assoc]
  refine ⟨?_, ?_⟩
  · have hLength := congrArg List.length hFile
    rw [length_append, TocHeader.length_bytes] at hLength
    omega
  · rw [readAt_first hFile (TocHeader.length_bytes _)]
    exact TocHeader.ofBytes_bytes _

theorem Packed.inFile (hPos : 0 < a) (hPacked : Packed a tocFlags images placed offset file)
    (hLength : file.length = offset.toNat) :
    ∀ image ∈ placed, InFile file image := by
  intro image hImage
  refine ⟨?_, hPacked.hRead image hImage⟩
  rw [hLength, hPacked.hOffset]
  exact Nat.le_trans (hPacked.hLaid.bounds hPos image hImage).2.2 (le_roundUp _ hPos)

theorem Packed.parse (hPos : 0 < a) (hPacked : Packed a tocFlags images placed offset file)
    (hShort : offset.toNat < 2 ^ 63) (hLength : file.length = offset.toNat)
    (hDistinct : (images.map fun image => image.tocE.uuid).Nodup)
    (hNull : ∀ image ∈ images, image.tocE.uuid ≠ uuidNull)
    (hFresh : ∀ desc ∈ descs, desc.image = none) :
    ∃ descs', parseFip descs file = some (tocHeader tocFlags, descs') ∧
      ∀ uuid, imageOf descs' uuid = placed.find? fun image => image.tocE.uuid = uuid := by
  rw [← hPacked.hLaid.uuids] at hDistinct
  rcases addImages_some hDistinct (fun image _ => imageOf_fresh hFresh image.tocE.uuid) with
    ⟨descs', hAdd, hImages⟩
  have hToc := hPacked.hToc.length_le
  rw [length_tocBytes] at hToc
  unfold tocSize TocEntry.sizeof at hToc
  have hWalk := parseEntries_placed descs file.length
    (hPacked.tocAt hNull) (hPacked.inFile hPos hLength) (hLength ▸ hShort) (by omega)
  rcases hPacked.header with ⟨hRoom, hHeader⟩
  refine ⟨descs', ?_, fun uuid => ?_⟩
  · unfold parseFip
    rw [if_neg (Nat.not_lt.mpr hRoom)]
    simp only [hHeader]
    have hName : (tocHeader tocFlags).name = TOC_HEADER_NAME := rfl
    rw [if_neg (not_not.mpr hName), hWalk, hAdd]
    rfl
  · rw [hImages, imageOf_fresh hFresh]
    exact Option.or_none

theorem Packed.yields (hPos : 0 < a) (hPacked : Packed a tocFlags images placed offset file)
    (hLength : file.length = offset.toNat)
    (hDistinct : (images.map fun image => image.tocE.uuid).Nodup)
    (hImages : ∀ uuid, imageOf descs uuid = placed.find? fun image => image.tocE.uuid = uuid) :
    Yields a images file descs := by
  have hLaid := hPacked.hLaid
  have hUuids := hLaid.uuids
  have hFound : ∀ uuid image, imageOf descs uuid = some image →
      image ∈ placed ∧ image.tocE.uuid = uuid := by
    intro uuid image hImage
    rw [hImages] at hImage
    have hUuid := find?_some hImage
    exact ⟨mem_of_find?_eq_some hImage, of_decide_eq_true hUuid⟩
  constructor
  · intro image hMem
    rcases hLaid.moved hMem with ⟨place, hPlaced⟩
    refine ⟨image.moved place, ?_, rfl, rfl, rfl, rfl⟩
    rw [hImages]
    exact find_of_nodup (hUuids ▸ hDistinct) hPlaced
  · intro uuid hOther
    cases hImage : imageOf descs uuid with
    | none => rfl
    | some image =>
      rcases hFound uuid image hImage with ⟨hMem, hUuid⟩
      have hIn : uuid ∈ images.map fun image =>
          image.tocE.uuid := by
        rw [← hUuids, ← hUuid]
        exact mem_map.mpr ⟨image, hMem, rfl⟩
      rcases mem_map.mp hIn with ⟨x, hx, hSame⟩
      exact absurd hSame (hOther x hx)
  · intro uuid image hImage
    have hMem := (hFound uuid image hImage).1
    rcases hLaid.bounds hPos image hMem with ⟨hLow, hDvd, -⟩
    exact ⟨hDvd, hLow, (hPacked.inFile hPos hLength image hMem).hStop⟩
  · intro uuid uuid' image image' hImage hImage' hNe
    rcases hFound uuid image hImage with ⟨hMem, hUuid⟩
    rcases hFound uuid' image' hImage' with ⟨hMem', hUuid'⟩
    have hApart := (hLaid.apart hPos).imp
      (fun {x y : Image} (hLe : x.stop ≤ y.start) =>
        (Or.inl hLe : x.stop ≤ y.start ∨ y.stop ≤ x.start))
    have hSymm : Std.Symm fun x y : Image =>
        x.stop ≤ y.start ∨ y.stop ≤ x.start :=
      ⟨fun _ _ hOr => hOr.symm⟩
    refine hApart.forall hMem hMem' ?_
    rintro rfl
    exact hNe (hUuid.symm.trans hUuid')

theorem Packed.driver {ioRead : Backend} {image : Image} {steps : Nat} {s : FileState}
    (hPos : 0 < a) (hPacked : Packed a tocFlags images placed offset file)
    (hLength : file.length = offset.toNat)
    (hDistinct : (images.map fun image => image.tocE.uuid).Nodup)
    (hNull : ∀ image ∈ images, image.tocE.uuid ≠ uuidNull)
    (hHolds : Holds ioRead file) (hMem : image ∈ images) (hSteps : images.length < steps)
    (hClosed : s.entry.offsetAddress = 0) :
    let r := fipFileOpen ioRead steps image.tocE.uuid s
    let r' := fipFileRead ioRead image.buffer.length r.2
    r.1 = 0 ∧ r'.1 = 0 ∧ r'.2.1 = image.buffer := by
  rcases hPacked.hLaid.moved hMem with ⟨place, hPlaced⟩
  have hFind := findEntry_placed s.entry steps hHolds
    (hPacked.tocAt hNull) (hPacked.hLaid.uuids ▸ hDistinct)
    hPlaced (by rw [hPacked.hLaid.length]; exact hSteps)
  have hOpen : fipFileOpen ioRead steps image.tocE.uuid s =
      (0, { filePos := 0, entry := (image.moved place).tocE }) := by
    unfold fipFileOpen
    rw [if_neg (not_not.mpr hClosed)]
    rw [show image.tocE.uuid = (image.moved place).tocE.uuid
      from rfl, hFind]
  have hIn := hPacked.inFile hPos hLength _ hPlaced
  have hRead : ioRead (image.moved place).start image.buffer.length = .ok image.buffer :=
    (hHolds _ _ hIn.hStop).trans (congrArg Except.ok hIn.hRead)
  have hStart : ((image.moved place).tocE.offsetAddress +
      BitVec.setWidth 64 (0 : BitVec 32)).toNat = (image.moved place).start := by
    rw [show BitVec.setWidth 64 (0 : BitVec 32) = 0#64 from rfl, BitVec.add_zero]
    rfl
  intro r r'
  have hResult : r' = (0, image.buffer, r'.2.2) := by
    simp only [r', r, hOpen, fipFileRead, hStart, hRead]
  refine ⟨?_, ?_, ?_⟩
  · simp only [r, hOpen]
  · rw [hResult]
  · rw [hResult]

/-
  The tool and the driver agree on the package of images with
  different UUIDs if and only if there is no gap before the
  empty images at its end.
-/
theorem package_agrees {k : Nat} (tocFlags : BitVec 64) (table descs : List ImageDesc) (hk : k < 64)
    (hDistinct : ((imagesOf table).map fun image => image.tocE.uuid).Nodup)
    (hNull : ∀ image ∈ imagesOf table, image.tocE.uuid ≠ uuidNull)
    (hNoWrap : NoWrap (2 ^ k) (tocSize (imagesOf table).length)
      (imagesOf table))
    (hFresh : ∀ desc ∈ descs, desc.image = none) :
    (∃ file, packImages tocFlags (BitVec.twoPow 64 k) table = some file ∧
      Agrees descs tocFlags (2 ^ k) (imagesOf table) file) ↔
    NoGap (2 ^ k) (tocSize (imagesOf table).length) (imagesOf table) := by
  have hPos : 0 < 2 ^ k := Nat.two_pow_pos k
  rcases packImages_packed tocFlags hk hNoWrap with ⟨placed, offset, file, hPack, hPacked⟩
  have hLast := (hPacked.tocAt hNull).last
  rw [hPacked.hLaid.length] at hLast
  constructor
  · rintro ⟨file', hPack', hAgrees⟩
    cases hPack.symm.trans hPack'
    have hEnd := hAgrees.hLast.2
    rw [hLast] at hEnd
    exact hPacked.hLength.mp hEnd.symm
  · intro hNoGap
    have hLength := hPacked.hLength.mpr hNoGap
    have hShort : offset.toNat < 2 ^ 63 := by
      rw [hPacked.hOffset]
      exact hNoWrap
    rcases hPacked.parse hPos hShort hLength hDistinct hNull hFresh with ⟨descs', hParse, hImages⟩
    refine ⟨file, hPack, ⟨_, descs', hParse, rfl, rfl,
      hPacked.yields hPos hLength hDistinct hImages⟩, ?_, ?_⟩
    · simp only [hLast]
      exact ⟨rfl, hLength.symm⟩
    · intro ioRead hHolds image hMem steps hSteps s hClosed
      exact hPacked.driver hPos hLength hDistinct hNull hHolds hMem hSteps hClosed

end Packages

----
-- An Empty Image At The End
----

def emptyImage : Image where
  tocE := ⟨1#128, 0, 0, 0⟩
  buffer := []
  hSize := rfl

def smallImage : Image where
  tocE := ⟨2#128, 0, 3, 0⟩
  buffer := [7, 8, 9]
  hSize := rfl

/- The empty image is before the other one. -/
def smallTable : List ImageDesc :=
  [⟨1#128, some emptyImage⟩, ⟨2#128, some smallImage⟩]

theorem package_agrees_small :
    ∃ file, packImages 0 (BitVec.twoPow 64 7) smallTable = some file ∧
      Agrees [] 0 (2 ^ 7) (imagesOf smallTable) file :=
  (package_agrees 0 smallTable [] (by decide) (by decide)
    (by
      intro image hImage
      rcases mem_cons.mp hImage with rfl | hImage
      · decide
      · rw [mem_singleton.mp hImage]
        decide)
    (by
      unfold NoWrap
      decide)
    nofun).mpr
    (noGap_of_some [emptyImage] (cons_ne_nil _ _))

/-
  The only image is empty, and its offset is aligned.  The
  file ends before that, the end mark does not say so, and
  the tool does not accept the file.
-/
theorem package_with_gap :
    (packImages 0 (BitVec.twoPow 64 7)
        [⟨1#128, some emptyImage⟩]).map (fun file =>
          (file.length, (TocEntry.ofBytes (readAt file 56 TocEntry.sizeof)).offsetAddress.toNat,
            (parseFip [] file).isNone)) =
      some (96, 128, true) := by
  decide

end Tfa.Fip
