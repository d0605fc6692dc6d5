import BootFirmware.Uboot.Binman.Image
import Mathlib.Data.List.Pairwise

/-
  Whether an image that passes its checks is the one that is
  described.

  Key definitions include:
    * `PlacedAt` and `Described`
    * `FitsSize` and `PaddingShows`

  The main results are:
    * `Image.checkSize_spec` and `Image.checkFrom_spec`
    * `getElem?_file`
    * `buildImage_described_iff`
-/

----
-- Descriptions
----

namespace Uboot.Binman

open List

def Packed.InRange (packed : Packed) (k : Nat) : Prop :=
  packed.pos ≤ k ∧ k < packed.last

/-
  An entry's contents are in its range, behind at least as
  much padding as is described.
-/
structure PlacedAt
    (image : Image) (file : List UInt8) (packed : Packed)
    (start : Nat) : Prop where
  behind : image.base packed + packed.entry.padBefore ≤ start
  within : start + packed.entry.data.length ≤ image.base packed + packed.size
  contents : ∀ k, k < packed.entry.data.length → file[start + k]? = packed.entry.data[k]?
  padding : ∀ k, k < packed.entry.padBefore →
    file[start - packed.entry.padBefore + k]? = some image.pad

/- As with a size, an alignment of zero stands for none. -/
structure Described
    (image : Image) (entries : List Entry) (size : Nat) (packed : List Packed)
    (file : List UInt8) : Prop where
  entries : (packed.map Packed.entry).Perm entries
  length : file.length = size
  aligned : ∀ a, image.alignSize = some a → a ≠ 0 → a ∣ size
  apart : packed.Pairwise fun a b => ∀ k, a.InRange k → ¬ b.InRange k
  inside : ∀ p ∈ packed, image.skipAtStart ≤ image.padBefore + p.pos ∧
      image.padBefore + p.last ≤ image.skipAtStart + file.length
  contents : ∃ start : Packed → Nat, (∀ p ∈ packed, PlacedAt image file p (start p)) ∧
    ∀ k, k < file.length → (∀ p ∈ packed, ¬ (start p ≤ k ∧ k < start p + p.entry.data.length)) →
      file[k]? = some image.pad

/- An image of a given size has room for its padding too. -/
def FitsSize (image : Image) (packed : List Packed) : Prop :=
  image.size.getD 0 ≠ 0 → ∀ p ∈ packed,
    image.padBefore + p.last ≤ image.skipAtStart + image.size.getD 0

/- Padding is described only where it makes no difference. -/
def PaddingShows (image : Image)
    (entries : List Entry) : Prop :=
  ∀ entry ∈ entries, entry.padBefore ≠ 0 → ∀ b ∈ entry.data, b = image.pad

----
-- The Passes
----

theorem Entry.place_entry {entry : Entry} {pos size : Nat} {packed : Packed}
    (hPlace : entry.place pos size = .ok packed) :
    packed.entry = entry := by
  unfold Entry.place entryError at hPlace
  split at hPlace
  · cases hPlace
  · split at hPlace
    · cases hPlace
    · split at hPlace
      · cases hPlace
      · cases hPlace
        rfl

variable {pos : Nat}

theorem Entry.pack_entry
    {entry : Entry} {first : Packed × Nat} (hPack : entry.pack pos = .ok first) :
    first.1.entry = entry := by
  rcases bind_ok hPack with ⟨pos, -, hRest⟩
  rcases map_ok hRest with ⟨packed, hPlace, rfl⟩
  exact Entry.place_entry hPlace

variable {packed : List Packed}

theorem packFrom_entries {entries : List Entry} (hPack : packFrom entries pos = .ok packed) :
    packed.map Packed.entry = entries := by
  induction entries generalizing pos packed with
  | nil =>
    cases hPack
    rfl
  | cons entry rest ih =>
    rcases bind_ok hPack with ⟨first, hEntry, hRest⟩
    rcases map_ok hRest with ⟨others, hOthers, rfl⟩
    rw [map_cons, Entry.pack_entry hEntry, ih hOthers]

variable {entries : List Packed}

theorem le_foldl_max {p : Packed} (hp : p ∈ entries) :
    p.last ≤ (entries.map Packed.last).foldl max 0 := by
  have hAll : ∀ (ends : List Nat) (acc : Nat),
      acc ≤ ends.foldl max acc ∧ ∀ n ∈ ends, n ≤ ends.foldl max acc := by
    intro ends
    induction ends with
    | nil => exact fun acc => ⟨Nat.le_refl acc, by simp⟩
    | cons m ends ih =>
      intro acc
      rcases ih (max acc m) with ⟨hAcc, hRest⟩
      refine ⟨by rw [foldl_cons]; omega, ?_⟩
      intro n hn
      rw [foldl_cons]
      rcases mem_cons.mp hn with rfl | hIn
      · omega
      · exact hRest n hIn
  exact (hAll _ 0).2 _ (mem_map_of_mem hp)

variable {image : Image} {size : Nat}

/- A size that is not given has room for everything. -/
theorem Image.checkSize_spec (hSize : image.checkSize entries = .ok size) :
    (∀ a, image.alignSize = some a → a ≠ 0 → a ∣ size) ∧
    (image.size.getD 0 ≠ 0 → size = image.size.getD 0) ∧
    (image.size.getD 0 = 0 → ∀ p ∈ entries, image.padBefore + p.last ≤ size) := by
  unfold Image.checkSize imageError at hSize
  dsimp only at hSize
  by_cases hGiven : image.size.getD 0 = 0
  · rw [if_neg (fun h => h.1 hGiven), if_pos hGiven] at hSize
    split at hSize
    · cases hSize
    · cases hSize
      refine ⟨?_, fun h => absurd hGiven h, ?_⟩
      · intro a hAlign ha
        exact dvd_align image.alignSize_ok hAlign ha _
      · intro _ p hp
        have hLast := le_foldl_max hp
        have hSkip := image.skipAtStart_ok hGiven
        refine Nat.le_trans ?_ (le_align _ _)
        omega
  · rw [if_neg hGiven] at hSize
    split at hSize
    · cases hSize
    · split at hSize
      · cases hSize
      · next hAligned =>
          cases hSize
          refine ⟨?_, fun _ => rfl, fun h => absurd h hGiven⟩
          intro a hAlign ha
          rw [Decidable.not_not.mp hAligned]
          exact dvd_align image.alignSize_ok hAlign ha _

theorem Image.checkFrom_spec
    {prevName : String} (hCheck : image.checkFrom size entries pos prevName = .ok ()) :
    (∀ p ∈ entries, image.skipAtStart ≤ p.pos ∧ pos ≤ p.pos) ∧
    entries.Pairwise fun a b => a.last ≤ b.pos := by
  induction entries generalizing pos prevName with
  | nil => exact ⟨fun p hp => (not_mem_nil hp).elim, .nil⟩
  | cons p rest ih =>
    unfold Image.checkFrom entryError at hCheck
    split at hCheck
    · cases hCheck
    · next hInside =>
        split at hCheck
        · cases hCheck
        · next hBehind =>
            rcases ih hCheck with ⟨hRest, hApart⟩
            refine ⟨?_, .cons (fun q hq => (hRest q hq).2) hApart⟩
            intro q hq
            have hLast : p.pos ≤ p.last := Nat.le_add_right _ _
            rcases mem_cons.mp hq with rfl | hIn
            · exact ⟨by omega, by omega⟩
            · have hNext := hRest q hIn
              exact ⟨hNext.1, by omega⟩

/- What is known of an image that passes its checks. -/
structure Checked
    (image : Image) (entries : List Entry) (size : Nat)
    (packed : List Packed) : Prop where
  entries : (packed.map Packed.entry).Perm entries
  aligned : ∀ a, image.alignSize = some a → a ≠ 0 → a ∣ size
  given : image.size.getD 0 ≠ 0 → size = image.size.getD 0
  room : image.size.getD 0 = 0 → ∀ p ∈ packed, image.padBefore + p.last ≤ size
  start : ∀ p ∈ packed, image.skipAtStart ≤ p.pos
  apart : packed.Pairwise fun a b => a.last ≤ b.pos

theorem checked_spec
    {entries : List Entry} (hChecked : image.checked entries = .ok (size, packed)) :
    Checked image entries size packed := by
  rcases bind_ok hChecked with ⟨first, hPack, hRest⟩
  rcases bind_ok hRest with ⟨size', hSize, hRest⟩
  rcases map_ok hRest with ⟨sorted, hSorted, hSame⟩
  cases hSame
  rcases map_ok hSorted with ⟨_, hCheck, hOrder⟩
  have hPerm : packed.Perm first := by
    rw [← hOrder]
    split
    · exact perm_insertionSort _ _
    · exact .refl _
  rw [hOrder] at hCheck
  rcases Image.checkSize_spec hSize with ⟨hAligned, hGiven, hRoom⟩
  rcases Image.checkFrom_spec hCheck with ⟨hStart, hApart⟩
  exact
    { entries := packFrom_entries hPack ▸
        hPerm.map Packed.entry
      aligned := hAligned
      given := hGiven
      room := fun h p hp => hRoom h p (hPerm.mem_iff.mp hp)
      start := fun p hp => (hStart p hp).1
      apart := hApart }

----
-- The File
----

section File

variable {image : Image} {entries : List Entry} {size : Nat} {packed : List Packed}

def Image.file (image : Image) (size : Nat)
    (packed : List Packed) : List UInt8 :=
  SparseFile.writeAll 0 (List.replicate size image.pad) (packed.map image.writeOf)

/- The range of an entry in the file. -/
def Image.InFile (image : Image) (p : Packed)
    (k : Nat) : Prop :=
  image.base p ≤ k ∧ k < image.base p + p.size

def Image.Apart (image : Image) (p q : Packed) : Prop :=
  ∀ k, image.InFile p k → ¬ image.InFile q k

instance (image : Image) : Std.Symm image.Apart :=
  ⟨fun _ _ hApart k hQ hP => hApart k hP hQ⟩

theorem Packed.data_le_size (p : Packed) : p.entry.padBefore + p.entry.data.length ≤ p.size := by
  have hNeeded := p.needed_le
  have hContents := p.entry.contentsSize_le_needed
  unfold Entry.contentsSize at hContents
  omega

variable {p : Packed} {k : Nat}

theorem Image.covers_inFile (hCovers : SparseFile.Covers (image.writeOf p) k) :
    image.InFile p k := by
  have hData := p.data_le_size
  have hLow : image.base p ≤ k := hCovers.1
  have hHigh : k < image.base p + p.entry.data.length := hCovers.2
  exact ⟨hLow, by omega⟩

section

variable (hChecked : Checked image entries size packed)
include hChecked

theorem Checked.inside (hFits : FitsSize image packed) (hp : p ∈ packed) :
    image.padBefore + p.last ≤ image.skipAtStart + size := by
  by_cases hGiven : image.size.getD 0 = 0
  · have hRoom := hChecked.room hGiven p hp
    omega
  · rw [hChecked.given hGiven]
    exact hFits hGiven p hp

theorem Checked.base_add_size_le (hFits : FitsSize image packed) (hp : p ∈ packed) :
    image.base p + p.size ≤ size := by
  have hInside := hChecked.inside hFits hp
  have hStart := hChecked.start p hp
  unfold Packed.last at hInside
  unfold Image.base
  omega

theorem Checked.inFile_apart : packed.Pairwise image.Apart := by
  refine List.Pairwise.imp_of_mem ?_ hChecked.apart
  intro a b ha _ hApart k hA hB
  have hStart := hChecked.start a ha
  unfold Packed.last at hApart
  unfold Image.InFile Image.base at hA hB
  omega

theorem Checked.inFile_unique {p q : Packed}
    (hp : p ∈ packed) (hq : q ∈ packed) (hP : image.InFile p k) (hQ : image.InFile q k) :
    p = q := by
  by_contra hNe
  exact hChecked.inFile_apart.forall hp hq hNe k hP hQ

section

variable (hFits : FitsSize image packed)
include hFits

theorem Checked.fitsIn (w : SparseFile.Write UInt8) (hw : w ∈ packed.map image.writeOf) :
    SparseFile.FitsIn w (List.replicate size image.pad) := by
  rcases mem_map.mp hw with ⟨p, hp, rfl⟩
  have hEnd := hChecked.base_add_size_le hFits hp
  have hData := p.data_le_size
  unfold SparseFile.FitsIn
  rw [length_replicate]
  exact (show image.base p + p.entry.data.length ≤ size by
    omega)

theorem length_file : (image.file size packed).length = size :=
  (SparseFile.length_writeAll (hChecked.fitsIn hFits)).trans length_replicate

theorem getElem?_file (hp : p ∈ packed) (hk : k < p.entry.data.length) :
    (image.file size packed)[image.base p + k]? = p.entry.data[k]? := by
  refine SparseFile.getElem?_writeAll_covers (hChecked.fitsIn hFits) ?_
    (mem_map_of_mem (f := image.writeOf) hp) hk
  rw [pairwise_map]
  refine hChecked.inFile_apart.imp ?_
  intro a b hApart k hA hB
  exact hApart k (Image.covers_inFile hA) (Image.covers_inFile hB)

theorem getElem?_file_of_not_covers
    (hk : k < size) (hNot : ∀ p ∈ packed, ¬ SparseFile.Covers (image.writeOf p) k) :
    (image.file size packed)[k]? = some image.pad := by
  have hSame : (image.file size packed)[k]? = (List.replicate size image.pad)[k]? := by
    refine SparseFile.getElem?_writeAll_of_not_covers (hChecked.fitsIn hFits) ?_
    intro w hw
    rcases mem_map.mp hw with ⟨p, hp, rfl⟩
    exact hNot p hp
  rw [hSame, getElem?_replicate, if_pos hk]

/- Behind its data, an entry's range is padded. -/
theorem getElem?_file_behind (hp : p ∈ packed) (hData : p.entry.data.length ≤ k) (hk : k < p.size) :
    (image.file size packed)[image.base p + k]? = some image.pad := by
  have hEnd := hChecked.base_add_size_le hFits hp
  refine getElem?_file_of_not_covers hChecked hFits (by omega)
    ?_
  intro q hq hCovers
  have hSame := hChecked.inFile_unique hp hq (k := image.base p + k) ⟨by omega, by omega⟩
    (Image.covers_inFile hCovers)
  subst hSame
  have hHigh : image.base p + k < image.base p + p.entry.data.length := hCovers.2
  omega

/- Data that looks like padding leaves the range padded. -/
theorem getElem?_file_of_pad
    (hp : p ∈ packed) (hPad : ∀ b ∈ p.entry.data, b = image.pad) (hk : k < p.size) :
    (image.file size packed)[image.base p + k]? = some image.pad := by
  by_cases hIn : k < p.entry.data.length
  · rw [getElem?_file hChecked hFits hp hIn, getElem?_eq_getElem hIn, hPad _ (getElem_mem hIn)]
  · exact getElem?_file_behind hChecked hFits hp (by omega) hk

----
-- The Image That Is Described
----

/- An entry behind its padding is where it is described. -/
theorem placedAt_file
    (hp : p ∈ packed) (hShows : p.entry.padBefore ≠ 0 → ∀ b ∈ p.entry.data, b = image.pad) :
    PlacedAt image (image.file size packed) p (image.base p + p.entry.padBefore) := by
  have hData := p.data_le_size
  refine
    { behind := Nat.le_refl _
      within := by omega
      contents := ?_
      padding := ?_ }
  · intro k hk
    by_cases hZero : p.entry.padBefore = 0
    · rw [hZero, Nat.add_zero]
      exact getElem?_file hChecked hFits hp hk
    · have hPad := hShows hZero
      rw [Nat.add_assoc, getElem?_eq_getElem hk, hPad _ (getElem_mem hk)]
      exact getElem?_file_of_pad hChecked hFits hp hPad (by omega)
  · intro k hk
    rw [Nat.add_sub_cancel]
    exact getElem?_file_of_pad hChecked hFits hp (hShows (by omega)) (by omega)

theorem described_of_fits (hShows : PaddingShows image entries) :
    Described image entries size packed (image.file size packed) := by
  have hLength := length_file hChecked hFits
  have hEach : ∀ p ∈ packed, p.entry.padBefore ≠ 0 →
      ∀ b ∈ p.entry.data, b = image.pad := fun p hp =>
    hShows p.entry (hChecked.entries.mem_iff.mp (mem_map_of_mem hp))
  refine
    { entries := hChecked.entries
      length := hLength
      aligned := hChecked.aligned
      apart := ?_
      inside := ?_
      contents := ⟨fun p => image.base p + p.entry.padBefore,
        fun p hp => placedAt_file hChecked hFits hp (hEach p hp), ?_⟩ }
  · refine hChecked.apart.imp ?_
    intro a b hApart k hA hB
    unfold Packed.InRange at hA hB
    omega
  · intro p hp
    have hStart := hChecked.start p hp
    rw [hLength]
    exact ⟨by omega, hChecked.inside hFits hp⟩
  · intro k hk hNone
    rw [hLength] at hk
    -- Contents that the file has elsewhere look like padding.
    by_cases hCovered : ∃ p ∈ packed, SparseFile.Covers (image.writeOf p) k
    · rcases hCovered with ⟨p, hp, hCovers⟩
      have hIn := Image.covers_inFile hCovers
      have hLow : image.base p ≤ k := hCovers.1
      have hHigh : k < image.base p + p.entry.data.length := hCovers.2
      have hNot : ¬ (image.base p + p.entry.padBefore ≤ k ∧
          k < image.base p + p.entry.padBefore + p.entry.data.length) := hNone p hp
      have hPad := hEach p hp (by omega)
      have hByte := getElem?_file_of_pad hChecked hFits hp hPad
        (k := k - image.base p) (by have := hIn.2; omega)
      rw [Nat.add_sub_cancel' hLow] at hByte
      exact hByte
    · exact getElem?_file_of_not_covers hChecked hFits hk
        fun p hp hCovers => hCovered ⟨p, hp, hCovers⟩

end

theorem fits_of_described
    {file : List UInt8} (hDescribed : Described image entries size packed file) :
    FitsSize image packed := by
  intro hGiven p hp
  have hInside := (hDescribed.inside p hp).2
  rw [hDescribed.length, hChecked.given hGiven] at hInside
  exact hInside

/- Data that is also found further on is padding. -/
theorem shows_of_described
    (hDescribed : Described image entries size packed (image.file size packed)) :
    PaddingShows image entries := by
  have hFits := fits_of_described hChecked hDescribed
  intro entry hEntry hPadBefore b hb
  rcases mem_map.mp (hChecked.entries.mem_iff.mpr hEntry) with ⟨p, hp, rfl⟩
  rcases hDescribed.contents with ⟨start, hPlaced, -⟩
  have hPlace := hPlaced p hp
  have hBehind := hPlace.behind
  have hWithin := hPlace.within
  have hAll := SparseFile.eq_of_shifted (fun k => (image.file size packed)[image.base p + k]?)
    (show 0 < start p - image.base p by omega) (fun k hk => getElem?_file hChecked hFits hp hk)
    (fun k hLow hHigh => getElem?_file_behind hChecked hFits hp hLow (by omega))
    (fun k hk => by
      have hAgain := hPlace.contents k hk
      rw [show image.base p + (start p - image.base p + k) = start p + k by omega]
      exact hAgain)
  rcases mem_iff_getElem.mp hb with ⟨k, hk, rfl⟩
  have hPad := hAll k hk
  rw [getElem?_eq_getElem hk] at hPad
  exact Option.some.inj hPad

end

end File

/-
  The image is the one that is described if and only if the
  padding is a byte, there is room for what is padded before
  the entries, and no entry has padding that would show.
-/
theorem buildImage_described_iff
    (image : Image) (entries : List Entry) (size : Nat) (packed : List Packed)
    (hChecked : image.checked entries = .ok (size, packed)) :
    (∃ file, image.buildImage size packed = .ok file ∧ Described image entries size packed file) ↔
      image.padByte < 256 ∧ FitsSize image packed ∧ PaddingShows image entries := by
  have hSpec := checked_spec hChecked
  constructor
  · rintro ⟨file, hBuild, hDescribed⟩
    unfold Image.buildImage at hBuild
    split at hBuild
    · cases hBuild
    · next hByte =>
        cases hBuild
        exact ⟨Nat.lt_of_not_le hByte, fits_of_described hSpec hDescribed,
          shows_of_described hSpec hDescribed⟩
  · rintro ⟨hByte, hFits, hShows⟩
    refine ⟨image.file size packed, ?_, described_of_fits hSpec hFits hShows⟩
    unfold Image.buildImage
    rw [if_neg (by omega)]
    rfl

/- An entry of which only the contents are given. -/
def plainEntry (path : String) (data : List UInt8) : Entry :=
  { path := path
    pos := none
    size := none
    align := none
    alignSize := none
    alignEnd := none
    padBefore := 0
    padAfter := 0
    posUnset := false
    data := data }

/- A given size, with room for the padding at the start. -/
theorem buildImage_described_with_room :
    ∃ image size packed, Image.readNode
        { path := "/binman"
          size := some 24
          alignSize := some 8
          padBefore := some 4
          padAfter := none
          padByte := some 0xff
          sortByPos := true
          endAt4gb := false } = .ok image ∧
      ∃ file, image.buildImage size packed = .ok file ∧ Described image
          [{ plainEntry "/binman/u-boot" [1, 2, 3, 4] with
              pos := some 8
              padAfter := 2 },
            { plainEntry "/binman/spl" [5, 6, 7] with
              pos := some 0 }]
          size packed file := by
  refine ⟨_, 24, [⟨{ plainEntry "/binman/spl" [5, 6, 7] with
          pos := some 0 }, 0, 3, by decide⟩,
      ⟨{ plainEntry "/binman/u-boot" [1, 2, 3, 4] with
          pos := some 8
          padAfter := 2 }, 8, 6, by decide⟩], rfl, ?_⟩
  refine (buildImage_described_iff _ _ _ _ (by decide +kernel)).mpr ⟨by decide, ?_, ?_⟩
  · intro _ p hp
    revert p
    decide +kernel
  · intro entry hEntry
    revert entry
    decide +kernel

/- The contents are written in front of their padding. -/
theorem buildImage_not_described_with_padding :
    ∃ image size packed file, Image.readNode
        { path := "/binman"
          size := none
          alignSize := none
          padBefore := none
          padAfter := none
          padByte := none
          sortByPos := false
          endAt4gb := false } = .ok image ∧
      image.checked
        [{ plainEntry "/binman/u-boot" [0x55, 0x2d, 0x62, 0x6f]
            with padBefore := 3 }] = .ok (size, packed) ∧
      image.buildImage size packed = .ok file ∧ ¬ Described image
        [{ plainEntry "/binman/u-boot" [0x55, 0x2d, 0x62, 0x6f]
            with padBefore := 3 }] size packed file := by
  refine ⟨_, 7, [⟨{ plainEntry "/binman/u-boot" [0x55, 0x2d, 0x62, 0x6f]
        with padBefore := 3 }, 0, 7, by decide⟩],
    [0x55, 0x2d, 0x62, 0x6f, 0, 0, 0], rfl, by decide +kernel, by decide +kernel, ?_⟩
  intro hDescribed
  rcases hDescribed.contents with ⟨start, hPlaced, -⟩
  have hPlace := hPlaced _ mem_cons_self
  generalize start _ = ofs at hPlace
  have hBehind : 0 + 3 ≤ ofs := hPlace.behind
  have hWithin : ofs + 4 ≤ 0 + 7 := hPlace.within
  have hThree : ofs = 3 := by omega
  subst hThree
  have hFirst := hPlace.contents 0 (by decide)
  revert hFirst
  decide

end Uboot.Binman
