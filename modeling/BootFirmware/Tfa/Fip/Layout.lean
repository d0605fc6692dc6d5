import BootFirmware.Tfa.Fip.Model
import Mathlib.Data.List.Induction
import Mathlib.Tactic.SplitIfs

/-
  Where the images of a package are, and how long the file is
  after they have been written.

  An empty image does not make the file longer, so that the
  file ends before the offset of an empty image at the end if
  there is a gap before it.

  Key definitions include:
    * `payloadEnd` and `NoGap`
    * `Laid`

  The main results are:
    * `layout_laid`
    * `writeImages_laid`
    * `fileEnd_eq_iff`
-/

----
-- Ends
----

namespace Tfa.Fip

open Alignment SparseFile Words List

/- Where the payload of the images ends. -/
def payloadEnd (a n : Nat) (images : List Image) : Nat :=
  images.foldl (fun n image => roundUp a n + image.buffer.length) n

/- The offsets fit, also as a `long`. -/
def NoWrap (a n : Nat) (images : List Image) : Prop :=
  roundUp a (payloadEnd a n images) < 2 ^ 63

/- There is no gap before the empty images at the end. -/
def NoGap (a n : Nat) (images : List Image) : Prop :=
  ∀ front trailing, images = front ++ trailing →
    trailing ≠ [] → (∀ image ∈ trailing, image.buffer = []) → a ∣ payloadEnd a n front

/- The end of the payload, and that of the file, after one. -/
def written (a : Nat) (ends : Nat × Nat) (image : Image) : Nat × Nat :=
  let after := roundUp a ends.1 + image.buffer.length
  (after, if image.buffer = [] then ends.2 else after)

def fileEnd (a : Nat) (ends : Nat × Nat) (images : List Image) :
    Nat :=
  (images.foldl (written a) ends).2

section Ends

variable {a n : Nat} {images : List Image} {image : Image}

theorem le_payloadEnd (n : Nat) (images : List Image) (hPos : 0 < a) :
    n ≤ payloadEnd a n images := by
  induction images generalizing n with
  | nil => exact Nat.le_refl n
  | cons image rest ih =>
    have hRound := le_roundUp n hPos
    have hRest := ih (roundUp a n + image.buffer.length)
    exact Nat.le_trans (Nat.le_add_right_of_le hRound) hRest

theorem payloadEnd_concat (a n : Nat) (front : List Image) (image : Image) :
    payloadEnd a n (front ++ [image]) = roundUp a (payloadEnd a n front) + image.buffer.length :=
  foldl_concat _ _ _ _

theorem foldl_written (a : Nat) (ends : Nat × Nat) (images : List Image) :
    (images.foldl (written a) ends).1 = payloadEnd a ends.1 images := by
  induction images generalizing ends with
  | nil => rfl
  | cons image rest ih => exact ih (written a ends image)

theorem fileEnd_concat (a n : Nat) (front : List Image) (image : Image) :
    fileEnd a (n, n) (front ++ [image]) =
      if image.buffer = [] then fileEnd a (n, n) front
      else
        roundUp a (payloadEnd a n front) + image.buffer.length := by
  have hFold := foldl_written a (n, n) front
  unfold fileEnd
  rw [foldl_concat]
  generalize front.foldl (written a) (n, n) = ends at hFold ⊢
  unfold written
  rw [hFold]

theorem fileEnd_le (n : Nat) (images : List Image) (hPos : 0 < a) :
    fileEnd a (n, n) images ≤ payloadEnd a n images := by
  induction images using List.reverseRecOn with
  | nil => exact Nat.le_refl n
  | append_singleton front image ih =>
    rw [fileEnd_concat, payloadEnd_concat]
    split_ifs with hEmpty
    · rw [hEmpty]
      exact Nat.le_trans ih (le_roundUp _ hPos)
    · exact Nat.le_refl _

theorem noGap_concat (hEmpty : image.buffer = []) :
    NoGap a n (images ++ [image]) ↔ NoGap a n images ∧ a ∣ payloadEnd a n images := by
  constructor
  · intro hNoGap
    constructor
    · rintro front trailing rfl hSome hAll
      refine hNoGap front (trailing ++ [image])
        (append_assoc _ _ _) (concat_ne_nil _ _) ?_
      intro x hx
      rcases mem_append.mp hx with hx | hx
      · exact hAll x hx
      · rw [mem_singleton.mp hx]
        exact hEmpty
    · refine hNoGap images [image] rfl (cons_ne_nil _ _) ?_
      intro x hx
      rw [mem_singleton.mp hx]
      exact hEmpty
  · rintro ⟨hFront, hDvd⟩ front trailing hSplit hSome hAll
    rcases eq_nil_or_concat trailing with rfl | ⟨rest, x, rfl⟩
    · exact absurd rfl hSome
    · rw [concat_eq_append, ← append_assoc] at hSplit
      rcases append_inj' hSplit rfl with ⟨rfl, -⟩
      by_cases hRest : rest = []
      · rw [hRest, append_nil] at hDvd
        exact hDvd
      · refine hFront front rest rfl hRest fun y hy => hAll y ?_
        rw [concat_eq_append]
        exact mem_append_left _ hy

theorem noGap_of_some (images : List Image) (hSome : image.buffer ≠ []) :
    NoGap a n (images ++ [image]) := by
  intro front trailing hSplit hTrailing hAll
  rcases eq_nil_or_concat trailing with rfl | ⟨rest, x, rfl⟩
  · exact absurd rfl hTrailing
  · rw [concat_eq_append, ← append_assoc] at hSplit
    have hLast := (append_inj' hSplit rfl).2
    refine absurd (hAll x ?_) ?_
    · rw [concat_eq_append]
      exact mem_append_right _ (mem_singleton_self x)
    · rw [← (List.cons.inj hLast).1]
      exact hSome

theorem fileEnd_eq_iff (hPos : 0 < a) :
    fileEnd a (n, n) images = payloadEnd a n images ↔ NoGap a n images := by
  induction images using List.reverseRecOn with
  | nil =>
    refine ⟨fun _ => ?_, fun _ => rfl⟩
    intro front trailing hSplit hSome
    exact absurd (append_eq_nil_iff.mp hSplit.symm).2 hSome
  | append_singleton front image ih =>
    have hLe := fileEnd_le n front hPos
    have hRound := le_roundUp (payloadEnd a n front) hPos
    rw [fileEnd_concat, payloadEnd_concat]
    split_ifs with hEmpty
    · rw [noGap_concat hEmpty, ← ih, ← roundUp_eq_self_iff hPos, hEmpty, length_nil]
      omega
    · exact ⟨fun _ => noGap_of_some _ hEmpty, fun _ => rfl⟩

theorem dvd_of_gap (hPos : 0 < a) (hGap : ¬NoGap a n images) :
    a ∣ payloadEnd a n images := by
  rcases eq_nil_or_concat images with rfl | ⟨front, x, rfl⟩
  · exact absurd (fileEnd_eq_iff hPos |>.mp rfl) hGap
  · rw [concat_eq_append] at hGap ⊢
    by_cases hEmpty : x.buffer = []
    · rw [payloadEnd_concat, hEmpty]
      exact dvd_roundUp a _
    · exact absurd (noGap_of_some _ hEmpty) hGap

end Ends

----
-- Offsets
----

/- The images with their offsets, and the end of them. -/
inductive Laid (a : Nat) : Nat → List Image → List Image → Nat → Prop
  | nil {n : Nat} : Laid a n [] [] n
  | cons {n e : Nat} {image : Image} {rest placed : List Image} {offset : BitVec 64} :
      offset.toNat = roundUp a n → Laid a (roundUp a n + image.buffer.length) rest placed e →
        Laid a n (image :: rest) (image.moved offset :: placed) e

def Image.start (image : Image) : Nat :=
  image.tocE.offsetAddress.toNat

def Image.stop (image : Image) : Nat :=
  image.start + image.buffer.length

section Offsets

variable {a n e : Nat} {images placed : List Image}

/- Without a wrap, the offsets are those of the numbers. -/
theorem layout_laid {k : Nat} {entryOffset : BitVec 64}
    (hk : k < 64) (hNoWrap : NoWrap (2 ^ k) entryOffset.toNat images) :
    (layout (BitVec.twoPow 64 k) entryOffset images).2.toNat =
        payloadEnd (2 ^ k) entryOffset.toNat images ∧
      Laid (2 ^ k) entryOffset.toNat images (layout (BitVec.twoPow 64 k) entryOffset images).1
        (payloadEnd (2 ^ k) entryOffset.toNat images) := by
  have hPos : 0 < 2 ^ k := Nat.two_pow_pos k
  induction images generalizing entryOffset with
  | nil => exact ⟨rfl, .nil⟩
  | cons image rest ih =>
    have hEnd : roundUp (2 ^ k) entryOffset.toNat + image.buffer.length < 2 ^ 63 :=
      Nat.lt_of_le_of_lt (Nat.le_trans (le_payloadEnd _ rest hPos) (le_roundUp _ hPos)) hNoWrap
    have hOffset := alignUp_toNat entryOffset hk (by omega)
    have hNext : (alignUp entryOffset (BitVec.twoPow 64 k) + image.tocE.size).toNat =
          roundUp (2 ^ k) entryOffset.toNat + image.buffer.length := by
      rw [BitVec.toNat_add, hOffset, image.hSize]
      exact Nat.mod_eq_of_lt (by omega)
    have hLess : NoWrap (2 ^ k)
        (alignUp entryOffset (BitVec.twoPow 64 k) + image.tocE.size).toNat rest := by
      rw [hNext]
      exact hNoWrap
    have hRest := ih hLess
    rw [hNext] at hRest
    exact ⟨hRest.1, .cons hOffset hRest.2⟩

theorem Image.start_moved
    {offset : BitVec 64} (image : Image) (hOffset : offset.toNat = roundUp a n) :
    (image.moved offset).start = roundUp a n :=
  hOffset

theorem Laid.le (hPos : 0 < a) (hLaid : Laid a n images placed e) :
    n ≤ e := by
  induction hLaid with
  | nil => exact Nat.le_refl _
  | cons _ _ ih => exact Nat.le_trans (Nat.le_add_right_of_le (le_roundUp _ hPos)) ih

/- Every image is aligned, and between the two ends. -/
theorem Laid.bounds (hPos : 0 < a) (hLaid : Laid a n images placed e) :
    ∀ image ∈ placed, n ≤ image.start ∧ a ∣ image.start ∧ image.stop ≤ e := by
  induction hLaid with
  | nil => exact nofun
  | @cons n e image rest placed offset hOffset hRest ih =>
    have hRound := le_roundUp n hPos
    intro x hx
    rcases mem_cons.mp hx with rfl | hx
    · have hStart := Image.start_moved image hOffset
      refine ⟨?_, ?_, ?_⟩
      · rw [hStart]
        exact hRound
      · rw [hStart]
        exact dvd_roundUp a n
      · unfold Image.stop
        rw [hStart]
        exact hRest.le hPos
    · rcases ih x hx with ⟨hLow, hDvd, hHigh⟩
      exact ⟨by omega, hDvd, hHigh⟩

/- An image ends before the next one starts. -/
theorem Laid.apart (hPos : 0 < a) (hLaid : Laid a n images placed e) :
    placed.Pairwise fun x y => x.stop ≤ y.start := by
  induction hLaid with
  | nil => exact .nil
  | cons hOffset hRest ih =>
    refine .cons ?_ ih
    intro y hy
    unfold Image.stop
    rw [Image.start_moved _ hOffset]
    exact (hRest.bounds hPos y hy).1

/- The images are written one after the other. -/
theorem writeImages_laid {file : File} (hPos : 0 < a) (hLaid : Laid a n images placed e)
    (hFits : e < 2 ^ 63) (hEnd : file.length ≤ n) :
    ∃ file', writeImages placed file = some file' ∧ file <+: file' ∧
      file'.length = fileEnd a (n, file.length) images ∧ ∀ image ∈ placed,
        (image.buffer = [] ∨ image.stop ≤ file'.length) ∧
          readAt file' image.start image.buffer.length = image.buffer := by
  induction hLaid generalizing file with
  | nil => exact ⟨file, rfl, prefix_refl _, rfl, nofun⟩
  | @cons n e image rest placed offset hOffset hRest ih =>
    have hRound := le_roundUp n hPos
    have hNext := hRest.le hPos
    have hStart : file.length ≤ roundUp a n := Nat.le_trans hEnd hRound
    have hSeek : fseek (image.moved offset).tocE.offsetAddress = some (roundUp a n) := by
      unfold fseek
      rw [if_pos (by
        change offset.toNat < 2 ^ 63
        omega)]
      exact congrArg some hOffset
    have hLength := length_writeAt 0 image.buffer hStart
    have hAfter : (writeAt 0 file (roundUp a n)
        image.buffer).length ≤ roundUp a n + image.buffer.length := by
      rw [hLength]
      split_ifs
      · exact Nat.le_add_right_of_le hStart
      · exact Nat.le_refl _
    rcases ih hFits hAfter with ⟨file', hWrite, hPrefix, hTotal, hRead⟩
    refine ⟨file', ?_, (prefix_writeAt 0 image.buffer hStart).trans hPrefix, ?_, ?_⟩
    · unfold writeImages
      rw [hSeek]
      exact hWrite
    · rw [hTotal, hLength]
      rfl
    · intro x hx
      rcases mem_cons.mp hx with rfl | hx
      · rw [Image.start_moved _ hOffset]
        by_cases hEmpty : image.buffer = []
        · refine ⟨.inl hEmpty, ?_⟩
          change readAt file' _ image.buffer.length = image.buffer
          rw [hEmpty]
          exact readAt_zero _ _
        · rw [if_neg hEmpty] at hLength
          have hInside := hPrefix.length_le
          rw [hLength] at hInside
          refine ⟨.inr ?_, ?_⟩
          · unfold Image.stop
            rw [Image.start_moved _ hOffset]
            exact hInside
          · change readAt file' _ image.buffer.length = image.buffer
            rw [readAt_extends hPrefix (Nat.le_of_eq hLength.symm)]
            exact readAt_writeAt hStart
      · exact hRead x hx

end Offsets

end Tfa.Fip
