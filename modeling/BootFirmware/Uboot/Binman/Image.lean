import BootFirmware.Lib.SparseFile
import Mathlib.Algebra.Group.Nat.Defs
import Mathlib.Data.List.Sort

/-
  The images that `binman` builds.

  An image is packed, checked and written in separate passes.
  A number that is not given is none, and zero mostly stands
  for none as well.

  Key definitions include:
    * `Image` and `Entry`
    * `Entry.pack`
    * `Image.checkSize` and `Image.checkEntries`
    * `Image.buildImage`
-/

----
-- Alignment
----

namespace Uboot.Binman

/- The mask is what the alignment leaves out. -/
def align (pos : Nat) (alignment : Option Nat) : Nat :=
  let mask := alignment.getD 0 - 1
  if alignment.getD 0 = 0 then pos
  else (pos + mask) - ((pos + mask) &&& mask)

def notPowerOfTwo (num : Option Nat) : Bool :=
  num.getD 0 ≠ 0 && num.getD 0 &&& (num.getD 0 - 1) ≠ 0

theorem le_align (pos : Nat) (alignment : Option Nat) :
    pos ≤ align pos alignment := by
  unfold align
  dsimp only
  split
  · exact Nat.le_refl pos
  · have hMask : (pos + (alignment.getD 0 - 1)) &&& (alignment.getD 0 - 1) ≤ alignment.getD 0 - 1 :=
      Nat.and_le_right
    omega

theorem dvd_align {alignment : Option Nat} (hPower : notPowerOfTwo alignment = false) {a : Nat}
    (hAlignment : alignment = some a) (ha : a ≠ 0) (pos : Nat) :
    a ∣ align pos alignment := by
  subst hAlignment
  have hAnd : a &&& (a - 1) = 0 := by
    unfold notPowerOfTwo at hPower
    rw [Option.getD_some, decide_eq_true ha, Bool.true_and,
      decide_eq_false_iff_not, not_not] at hPower
    exact hPower
  rcases (Nat.and_sub_one_eq_zero_iff_isPowerOfTwo ha).mp hAnd with ⟨n, rfl⟩
  unfold align
  rw [Option.getD_some, if_neg ha, Nat.and_two_pow_sub_one_eq_mod]
  exact Nat.dvd_sub_mod _

----
-- Descriptions
----

/- How `%#x (%d)` writes a number. -/
def hexDec (n : Nat) : String :=
  let digits := String.ofList (Nat.toDigits 16 n)
  s!"0x{digits} ({n})"

/- The properties of an image's node. -/
structure ImageNode where
  path : String
  size : Option UInt32
  alignSize : Option UInt32
  padBefore : Option UInt32
  padAfter : Option UInt32
  padByte : Option UInt32
  sortByPos : Bool
  endAt4gb : Bool

/-
  An image as it is read: its alignment is a power of two, and
  positions start at zero unless the image has a size.
-/
structure Image where
  path : String
  size : Option Nat
  alignSize : Option Nat
  padBefore : Nat
  padAfter : Nat
  padByte : Nat
  sort : Bool
  skipAtStart : Nat
  alignSize_ok : notPowerOfTwo alignSize = false
  skipAtStart_ok : size.getD 0 = 0 → skipAtStart = 0

/- The messages of an image and of an entry name its node. -/
def imageError {α : Type} (path msg : String) : Except String α :=
  .error s!"Image '{path}': {msg}"

def entryError {α : Type} (path msg : String) : Except String α :=
  .error s!"Node '{path}': {msg}"

/- A pass that goes on only after a result. -/
theorem bind_ok
    {α β : Type} {r : Except String α} {f : α → Except String β} {b : β} (hOk : r.bind f = .ok b) :
    ∃ a, r = .ok a ∧ f a = .ok b := by
  cases r with
  | error msg => cases hOk
  | ok a => exact ⟨a, rfl, hOk⟩

theorem map_ok {α β : Type} {r : Except String α} {f : α → β} {b : β} (hOk : r.map f = .ok b) :
    ∃ a, r = .ok a ∧ f a = b := by
  cases r with
  | error msg => cases hOk
  | ok a => exact ⟨a, rfl, Except.ok.inj hOk⟩

def Image.readNode (node : ImageNode) : Except String Image :=
  let size := node.size.map UInt32.toNat
  let alignSize := node.alignSize.map UInt32.toNat
  if hAlign : notPowerOfTwo alignSize = true then
    let given := alignSize.getD 0
    imageError node.path s!"Alignment size {given} must be a power of two"
  else if hEnd : node.endAt4gb = true ∧ size.getD 0 = 0 then
    imageError node.path "Image size must be provided when using end-at-4gb"
  else .ok
    { path := node.path
      size := size
      alignSize := alignSize
      padBefore := (node.padBefore.getD 0).toNat
      padAfter := (node.padAfter.getD 0).toNat
      padByte := (node.padByte.getD 0).toNat
      sort := node.sortByPos
      skipAtStart :=
        if node.endAt4gb then 0x100000000 - size.getD 0 else 0
      alignSize_ok := Bool.not_eq_true _ ▸ hAlign
      skipAtStart_ok := fun hZero =>
        if_neg fun h4gb => hEnd ⟨h4gb, hZero⟩ }

/-
  An entry that is to be packed.  Another entry may have set
  its position and size in place of its node.  The size of its
  contents is that of its data.
-/
structure Entry where
  path : String
  pos : Option Nat
  size : Option Nat
  align : Option Nat
  alignSize : Option Nat
  alignEnd : Option Nat
  padBefore : Nat
  padAfter : Nat
  posUnset : Bool
  data : List UInt8
deriving DecidableEq

def Entry.contentsSize (entry : Entry) : Nat :=
  entry.data.length

def Entry.needed (entry : Entry) : Nat :=
  Binman.align (entry.padBefore + entry.contentsSize + entry.padAfter) entry.alignSize

theorem Entry.contentsSize_le_needed (entry : Entry) :
    entry.padBefore + entry.contentsSize + entry.padAfter ≤ entry.needed :=
  le_align _ _

/- An entry in its place, which is large enough for it. -/
structure Packed where
  entry : Entry
  pos : Nat
  size : Nat
  needed_le : entry.needed ≤ size
deriving DecidableEq

def Packed.last (packed : Packed) : Nat :=
  packed.pos + packed.size

----
-- Packing
----

/- A position that is not given is the one that is reached. -/
def Entry.position (entry : Entry)
    (pos : Nat) : Except String Nat :=
  match entry.pos with
  | some given => .ok given
  | none =>
    if entry.posUnset then
      entryError entry.path
        ("No position set with pos-unset: should another " ++
          "entry provide this correct position?")
    else .ok (Binman.align pos entry.align)

/- The entry in its place, unless what was given conflicts. -/
def Entry.place (entry : Entry)
    (pos size : Nat) : Except String Packed :=
  if hNeeded : size < entry.needed then
    let contents := hexDec entry.needed
    let entrySize := hexDec size
    entryError entry.path
      (s!"Entry contents size is {contents} but entry " ++ s!"size is {entrySize}")
  else if size ≠ Binman.align size entry.alignSize then
    let entrySize := hexDec size
    let alignment := hexDec (entry.alignSize.getD 0)
    entryError entry.path s!"Size {entrySize} does not match align-size {alignment}"
  else if pos ≠ Binman.align pos entry.align then
    let entryPos := hexDec pos
    let alignment := hexDec (entry.align.getD 0)
    entryError entry.path s!"Position {entryPos} does not match align {alignment}"
  else .ok ⟨entry, pos, size, Nat.le_of_not_lt hNeeded⟩

/- The packed entry, and the position behind it. -/
def Entry.pack (entry : Entry)
    (pos : Nat) : Except String (Packed × Nat) :=
  (entry.position pos).bind fun pos =>
    let given := entry.size.getD 0
    let size := if given = 0 then entry.needed else given
    let newPos := pos + size
    let alignedPos := Binman.align newPos entry.alignEnd
    let size :=
      if alignedPos ≠ newPos then alignedPos - pos else size
    let size := if given = 0 then size else given
    (entry.place pos size).map fun packed => (packed, alignedPos)

def packFrom : List Entry → Nat → Except String (List Packed)
  | [], _ => .ok []
  | entry :: rest, pos =>
    (entry.pack pos).bind fun (packed, pos) => (packFrom rest pos).map (packed :: ·)

def Image.packEntries (image : Image)
    (entries : List Entry) : Except String (List Packed) :=
  packFrom entries image.skipAtStart

----
-- Checks
----

/- The size of the image: nothing is skipped if it has none. -/
def Image.checkSize (image : Image)
    (entries : List Packed) : Except String Nat :=
  let contentsSize : Int := ((entries.map Packed.last).foldl max 0 : Nat) - image.skipAtStart
  let given := image.size.getD 0
  let size :=
    if given = 0 then
      align (image.padBefore + contentsSize + image.padAfter).toNat image.alignSize
    else given
  if given ≠ 0 ∧ given < contentsSize then
    let contents := hexDec contentsSize.toNat
    let imageSize := hexDec given
    imageError image.path s!"contents size {contents} exceeds image size {imageSize}"
  else if size ≠ align size image.alignSize then
    let imageSize := hexDec size
    let alignment := hexDec (image.alignSize.getD 0)
    imageError image.path s!"Size {imageSize} does not match align-size {alignment}"
  else .ok size

def Image.sortEntries (entries : List Packed) : List Packed :=
  entries.insertionSort fun a b => a.pos ≤ b.pos

/- Each entry is in the image, and behind the one before. -/
def Image.checkFrom (image : Image) (size : Nat) : List Packed → Nat → String → Except String Unit
  | [], _, _ => .ok ()
  | packed :: rest, pos, prevName =>
    let entryPos := hexDec packed.pos
    if packed.pos < image.skipAtStart ∨ image.skipAtStart + size ≤ packed.pos then
      let start := hexDec image.skipAtStart
      entryError packed.entry.path
        (s!"Position {entryPos} is outside the image " ++ s!"starting at {start}")
    else if packed.pos < pos then
      let ending := hexDec pos
      entryError packed.entry.path
        (s!"Position {entryPos} overlaps with previous " ++
          s!"entry '{prevName}' ending at {ending}")
    else
      image.checkFrom size rest packed.last packed.entry.path

/- The entries in the order in which they are written. -/
def Image.checkEntries (image : Image) (size : Nat)
    (entries : List Packed) : Except String (List Packed) :=
  let entries :=
    if image.sort then Image.sortEntries entries else entries
  (image.checkFrom size entries 0 "None").map fun _ => entries

/- The passes before the image is written. -/
def Image.checked (image : Image) (entries : List Entry) :
    Except String (Nat × List Packed) :=
  (image.packEntries entries).bind fun packed =>
    (image.checkSize packed).bind fun size =>
      (image.checkEntries size packed).map fun packed => (size, packed)

----
-- Writing
----

/- Where an entry's data is written. -/
def Image.base (image : Image) (packed : Packed) : Nat :=
  image.padBefore + packed.pos - image.skipAtStart

def Image.writeOf (image : Image)
    (packed : Packed) : SparseFile.Write UInt8 :=
  { ofs := image.base packed
    data := packed.entry.data }

def Image.pad (image : Image) : UInt8 := .ofNat image.padByte

/- Only a number below 256 is a character. -/
def Image.buildImage (image : Image) (size : Nat)
    (entries : List Packed) : Except String (List UInt8) :=
  if 256 ≤ image.padByte then
    .error "chr() arg not in range(256)"
  else .ok (SparseFile.writeAll 0 (List.replicate size image.pad) (entries.map image.writeOf))

end Uboot.Binman
