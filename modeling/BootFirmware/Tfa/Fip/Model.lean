import BootFirmware.Lib.Alignment
import BootFirmware.Lib.SparseFile
import BootFirmware.Lib.Words

/-
  Firmware image packages: the tool that packs and parses
  them, and the driver that reads an image at boot.

  A UUID is the number that its sixteen bytes make.  What the
  tool only prints, and the names of the images, are left out.

  Key definitions include:
    * `TocEntry` and `Image`
    * `packImages` and `parseFip`
    * `fipFileOpen` and `fipFileRead`
-/

----
-- Table Of Contents
----

namespace Tfa.Fip

open Alignment SparseFile Words

def TOC_HEADER_NAME : BitVec 32 := 0xAA640001#32

def TOC_HEADER_SERIAL_NUMBER : BitVec 32 := 0x12345678#32

def ENOENT : Int := 2

def ENOMEM : Int := 12

abbrev Uuid := BitVec 128

def uuidNull : Uuid := 0#128

abbrev File := List UInt8

/- `fip_toc_header_t` -/
structure TocHeader where
  name : BitVec 32
  serialNumber : BitVec 32
  flags : BitVec 64
deriving DecidableEq, Repr

/- `fip_toc_entry_t` -/
structure TocEntry where
  uuid : Uuid
  offsetAddress : BitVec 64
  size : BitVec 64
  flags : BitVec 64
deriving DecidableEq, Repr

def TocHeader.sizeof : Nat := 16

def TocEntry.sizeof : Nat := 40

def TocHeader.bytes (h : TocHeader) : List UInt8 :=
  wordBytes 4 h.name ++ wordBytes 4 h.serialNumber ++ wordBytes 8 h.flags

def TocHeader.ofBytes (bytes : List UInt8) : TocHeader where
  name := wordOfBytes 4 (readAt bytes 0 4)
  serialNumber := wordOfBytes 4 (readAt bytes 4 4)
  flags := wordOfBytes 8 (readAt bytes 8 8)

def TocEntry.bytes (e : TocEntry) : List UInt8 :=
  wordBytes 16 e.uuid ++ wordBytes 8 e.offsetAddress ++ wordBytes 8 e.size ++ wordBytes 8 e.flags

def TocEntry.ofBytes (bytes : List UInt8) : TocEntry where
  uuid := wordOfBytes 16 (readAt bytes 0 16)
  offsetAddress := wordOfBytes 8 (readAt bytes 16 8)
  size := wordOfBytes 8 (readAt bytes 24 8)
  flags := wordOfBytes 8 (readAt bytes 32 8)

/- An image, and the entry that describes it. -/
structure Image where
  tocE : TocEntry
  buffer : List UInt8
  hSize : tocE.size.toNat = buffer.length

/- `image_desc_t`, which may have an image. -/
structure ImageDesc where
  uuid : Uuid
  image : Option Image

def imagesOf (descs : List ImageDesc) : List Image :=
  descs.filterMap ImageDesc.image

----
-- Packing
----

def Image.moved (image : Image) (offset : BitVec 64) : Image :=
  { image with
    tocE := { image.tocE with offsetAddress := offset } }

/- The images get their offsets, one after the other. -/
def layout (align : BitVec 64) : BitVec 64 → List Image → List Image × BitVec 64
  | entryOffset, [] => ([], entryOffset)
  | entryOffset, image :: rest =>
    let offset := alignUp entryOffset align
    let r := layout align (offset + image.tocE.size) rest
    (image.moved offset :: r.1, r.2)

/- A null UUID marks the end of the entries. -/
def terminator (offset : BitVec 64) : TocEntry where
  uuid := uuidNull
  offsetAddress := offset
  size := 0
  flags := 0

/- `fseek`, which takes the offset as a `long`. -/
def fseek (offset : BitVec 64) : Option Nat :=
  if offset.toNat < 2 ^ 63 then some offset.toNat else none

def writeImages : List Image → File → Option File
  | [], file => some file
  | image :: rest, file =>
    (fseek image.tocE.offsetAddress).bind fun off =>
      writeImages rest (writeAt 0 file off image.buffer)

def tocSize (nrImages : Nat) : Nat :=
  TocHeader.sizeof + TocEntry.sizeof * (nrImages + 1)

def tocHeader (tocFlags : BitVec 64) : TocHeader where
  name := TOC_HEADER_NAME
  serialNumber := TOC_HEADER_SERIAL_NUMBER
  flags := tocFlags

/- `pack_images`, with what is in the file afterwards. -/
def packImages (tocFlags align : BitVec 64) (descs : List ImageDesc) : Option File :=
  let images := imagesOf descs
  let r := layout align (BitVec.ofNat 64 (tocSize images.length)) images
  let last := terminator (alignUp r.2 align)
  let buf := (tocHeader tocFlags).bytes ++ r.1.flatMap (fun image => image.tocE.bytes) ++ last.bytes
  (writeImages r.1 buf).bind fun file =>
    (fseek r.2).map fun off =>
      let padSize := (last.offsetAddress - r.2).toNat
      writeAt 0 file off (List.replicate padSize 0)

----
-- Parsing
----

/-
  The image goes to the descriptor of its UUID, which should
  have none, or to a new one at the end.
-/
def addImage (image : Image) : List ImageDesc → Option (List ImageDesc)
  | [] => some [⟨image.tocE.uuid, some image⟩]
  | desc :: rest =>
    if desc.uuid = image.tocE.uuid then
      if desc.image.isNone then
        some ({ desc with image := some image } :: rest)
      else none
    else (addImage image rest).map (desc :: ·)

/- The overflow checks before the memory copy. -/
def TocEntry.inside (e : TocEntry) (file : File) : Prop :=
  e.size ≤ BitVec.allOnes 64 - e.offsetAddress ∧ (e.size + e.offsetAddress).toNat ≤ file.length

instance (e : TocEntry) (file : File) : Decidable (e.inside file) :=
  inferInstanceAs (Decidable (_ ∧ _))

theorem TocEntry.inside_toNat {e : TocEntry} {file : File} (hInside : e.inside file) :
    e.offsetAddress.toNat + e.size.toNat ≤ file.length := by
  rcases hInside with ⟨hNoWrap, hEnd⟩
  have hSub : (BitVec.allOnes 64 - e.offsetAddress).toNat = 2 ^ 64 - 1 - e.offsetAddress.toNat := by
    have hLe : e.offsetAddress ≤ BitVec.allOnes 64 := by
      rw [BitVec.le_def, BitVec.toNat_allOnes]
      omega
    rw [BitVec.toNat_sub_of_le hLe, BitVec.toNat_allOnes]
  rw [BitVec.le_def, hSub] at hNoWrap
  rw [BitVec.toNat_add] at hEnd
  omega

/- The image that an entry says is in the file. -/
def imageAt (e : TocEntry) (file : File) (hInside : e.inside file) : Image where
  tocE := e
  buffer := readAt file e.offsetAddress.toNat e.size.toNat
  hSize := (length_readAt (e.inside_toNat hInside)).symm

/- The walk, which takes no more steps than there are bytes. -/
def parseEntries (file : File) : Nat → Nat → List ImageDesc → Option (List ImageDesc)
  | 0, _, _ => none
  | steps + 1, pos, descs =>
    if file.length < pos + TocEntry.sizeof then none
    else
      let e := TocEntry.ofBytes (readAt file pos TocEntry.sizeof)
      if e.uuid = uuidNull then some descs
      else if hInside : e.inside file then
        (addImage (imageAt e file hInside) descs).bind
          (parseEntries file steps (pos + TocEntry.sizeof))
      else none

def parseFip (descs : List ImageDesc) (file : File) : Option (TocHeader × List ImageDesc) :=
  if file.length < TocHeader.sizeof then none
  else
    let h := TocHeader.ofBytes (readAt file 0 TocHeader.sizeof)
    if h.name ≠ TOC_HEADER_NAME then none
    else
      (parseEntries file file.length TocHeader.sizeof descs).map fun descs => (h, descs)

/- The image of a UUID. -/
def imageOf (descs : List ImageDesc) (uuid : Uuid) : Option Image :=
  (descs.find? fun desc => desc.uuid = uuid).bind ImageDesc.image

----
-- The Driver
----

/- Seek to an offset of the package, and read from there. -/
abbrev Backend := Nat → Nat → Except Int (List UInt8)

/- `file_state_t` -/
structure FileState where
  filePos : BitVec 32
  entry : TocEntry

def isValidHeader (h : TocHeader) : Bool :=
  h.name = TOC_HEADER_NAME ∧ h.serialNumber ≠ 0

/- The outcome of a search, and the entry it has read last. -/
inductive Search where
  | found (e : TocEntry)
  | notFound (e : TocEntry)
  | failed (result : Int) (e : TocEntry)

/- The loop over the entries, with a bound on its steps. -/
def findEntry (ioRead : Backend) (uuid : Uuid) : Nat → Nat → TocEntry → Search
  | 0, _, e => .notFound e
  | steps + 1, pos, e =>
    match ioRead pos TocEntry.sizeof with
    | .error result => .failed result e
    | .ok bytes =>
      let e := TocEntry.ofBytes bytes
      if e.uuid = uuid then .found e
      else if e.uuid = uuidNull then .notFound e
      else findEntry ioRead uuid steps (pos + TocEntry.sizeof) e

/- Only one file can be open at a time. -/
def fipFileOpen (ioRead : Backend) (steps : Nat) (uuid : Uuid) (s : FileState) : Int × FileState :=
  if s.entry.offsetAddress ≠ 0 then (-ENOMEM, s)
  else
    match findEntry ioRead uuid steps TocHeader.sizeof s.entry with
    | .found e => (0, { filePos := 0, entry := e })
    | .notFound e => (-ENOENT, { s with entry := { e with offsetAddress := 0 } })
    | .failed result e => (result, { s with entry := e })

def fipFileRead (ioRead : Backend) (length : Nat) (s : FileState) : Int × List UInt8 × FileState :=
  let offset := s.entry.offsetAddress + s.filePos.setWidth 64
  match ioRead offset.toNat length with
  | .error _ => (-ENOENT, [], s)
  | .ok bytes =>
    (0, bytes,
      { s with
        filePos := s.filePos + BitVec.ofNat 32 bytes.length })

end Tfa.Fip
