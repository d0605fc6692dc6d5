import BootFirmware.Lib.Alignment
import BootFirmware.Uboot.Kwbimage.Image

/-
  When a kwbimage is well formed.

  Key definitions include:
    * `optHdrsFrom` and `Visits`
    * `WellFormed`
    * `LengthOk`
    * `Good`

  The main results are:
    * `endOk_iff`
-/

----
-- Reading An Image
----

namespace Uboot.Kwbimage

open Alignment List

def blocksize (file : List UInt8) : Nat :=
  Words.ofBytes ((file.drop 4).take 4)

def srcaddr (file : List UInt8) : Nat :=
  Words.ofBytes ((file.drop 12).take 4)

def mainExt (file : List UInt8) : UInt8 := file.getD 30 0

/- An optional header, without its next-header mark. -/
structure OptHdr where
  headertype : UInt8
  data : List UInt8

/- The macro `KWBHEADER_V1_SIZE`, of an optional header. -/
def optHdrSize (file : List UInt8) (ofs : Nat) : Nat :=
  (file.getD (ofs + 1) 0).toNat * 2 ^ 16 + Words.ofBytes ((file.drop (ofs + 2)).take 2)

/-
  The optional headers from a place on, all inside of the
  header, up to the first one with a zero mark.
-/
def optHdrsFrom (file : List UInt8) (headersz : Nat) : Nat → Nat → Option (List OptHdr)
  | 0, _ => none
  | fuel + 1, ofs =>
    let size := optHdrSize file ofs
    if size < 8 ∨ headersz < ofs + size then none
    else
      let opt : OptHdr :=
        { headertype := file.getD ofs 0
          data := (file.drop (ofs + 4)).take (size - 8) }
      if file.getD (ofs + size - 4) 0 = 0 then some [opt]
      else
        (optHdrsFrom file headersz fuel (ofs + size)).map (opt :: ·)

def optHdrs (file : List UInt8) : Option (List OptHdr) :=
  if mainExt file = 0 then some []
  else
    optHdrsFrom file (kwbheaderV1Size file) (kwbheaderV1Size file) mainHdrSize

/- The contents that a line asks for. -/
def binaryData (args : List Nat) (blob : List UInt8) : List UInt8 :=
  le32 args.length ++ args.flatMap le32 ++ blob

def IsBinary (env : Env) (opt : OptHdr)
    (binary : List UInt8 × List Nat) : Prop :=
  opt.headertype = 2 ∧
    ∃ blob, env.files binary.1 = some blob ∧ binaryData binary.2 blob <+: opt.data

def registerData (datas : List (Nat × Nat)) : List UInt8 :=
  datas.flatMap fun d => le32 d.1 ++ le32 d.2

/-
  The extended header of version 0 has 55 registers, and no
  mark.
-/
def HasRegisters (header file : List UInt8)
    (datas : List (Nat × Nat)) : Prop :=
  mainExt file ≠ 0 ∧ mainHdrSize + extHdrV0Size ≤ header.length ∧
    registerData datas <+: (file.drop 64).take (55 * 8)

/- The headers that are visited are those configured. -/
def Visits (env : Env) (cfg : List Element)
    (header file : List UInt8) : Prop :=
  if imageVersion file = 0 then
    if datas cfg = [] then mainExt file = 0
    else HasRegisters header file (datas cfg)
  else
    ∃ opts, optHdrs file = some opts ∧ List.Forall₂ (IsBinary env) opts (binaries cfg)

structure WellFormed
    (env : Env) (cfg : List Element) (reserved : Nat)
    (header file : List UInt8) : Prop where
  reserved : header.length ≤ reserved
  verified : kwbimageVerifyHeader file = 0
  length : srcaddr file + blocksize file = file.length
  checksum :
    Words.ofBytes (file.drop (file.length - 4)) =
      u32 (wordSum ((file.drop (srcaddr file)).take (blocksize file - 4)))
  headers : Visits env cfg header file

----
-- Configurations
----

def padded (payload : List UInt8) : List UInt8 :=
  payload ++ zeros (alignSup payload.length 4 - payload.length)

/-
  The lengths are 32-bit numbers.  A file beyond that by less
  than its header is summed over nothing.
-/
def LengthOk (space headersz : Nat)
    (payload : List UInt8) : Prop :=
  let size := space + (padded payload).length
  size < 2 ^ 32 ∨ (size + 4 < 2 ^ 32 + headersz ∧ u32 (wordSum (padded payload)) = 0)

/- Version 0 has room for 55 registers. -/
def GoodV0 (cfg : List Element)
    (payload : List UInt8) : Prop :=
  (imageGetVersion cfg = -1 ∨ imageGetVersion cfg = 0) ∧ (datas cfg).length ≤ 55 ∧
    LengthOk (mainHdrSize + extHdrV0Size) (headerszV0 cfg) payload

/-
  Version 1 needs a binary header, which is to end inside of
  the header as it says its size is.
-/
def GoodV1 (env : Env) (cfg : List Element)
    (payload : List UInt8) : Prop :=
  imageGetVersion cfg = 1 ∧
    ∃ file args blob, binaries cfg = [(file, args)] ∧ env.files file = some blob ∧ blob ≠ [] ∧
      imageHeaderszV1 env cfg < 2 ^ 31 ∧
      mainHdrSize + binhdrsz args blob ≤ imageHeaderszV1 env cfg % 2 ^ 24 ∧
      LengthOk (imageHeaderszV1 env cfg) (imageHeaderszV1 env cfg) payload

def Good (env : Env) (cfg : List Element)
    (payload : List UInt8) : Prop :=
  (payloads cfg).length ≤ 1 ∧ (GoodV0 cfg payload ∨ GoodV1 env cfg payload)

----
-- Sums
----

theorem length_zeros (n : Nat) :
    (zeros n).length = n :=
  length_replicate

theorem imageChecksum8_append (xs ys : List UInt8) :
    imageChecksum8 (xs ++ ys) = imageChecksum8 xs + imageChecksum8 ys := by
  have hFrom : ∀ (zs : List UInt8) (s : UInt8), zs.foldl (· + ·) s = s + zs.foldl (· + ·) 0 := by
    intro zs
    induction zs with
    | nil => exact fun s => (UInt8.add_zero s).symm
    | cons z zs ih =>
      intro s
      rw [foldl_cons, foldl_cons, ih (s + z), ih (0 + z), UInt8.zero_add, UInt8.add_assoc]
  unfold imageChecksum8
  rw [foldl_append, hFrom ys]

theorem imageChecksum8_singleton (b : UInt8) :
    imageChecksum8 [b] = b :=
  UInt8.zero_add b

theorem imageChecksum8_zeros (n : Nat) :
    imageChecksum8 (zeros n) = 0 := by
  induction n with
  | zero => rfl
  | succ n ih =>
    have hCons : zeros (n + 1) = [0] ++ zeros n := rfl
    rw [hCons, imageChecksum8_append, ih]
    rfl

theorem wordSum_append {xs : List UInt8} (hWords : 4 ∣ xs.length) (ys : List UInt8) :
    wordSum (xs ++ ys) = wordSum xs + wordSum ys := by
  rcases hWords with ⟨n, hn⟩
  induction n generalizing xs with
  | zero =>
    have hEmpty : xs = [] := length_eq_zero_iff.mp (by omega)
    rw [hEmpty]
    exact (Nat.zero_add _).symm
  | succ n ih =>
    rcases xs with _ | ⟨a, _ | ⟨b, _ | ⟨c, _ | ⟨d, xs⟩⟩⟩⟩
    · simp only [length_nil] at hn
      omega
    · simp only [length_cons, length_nil] at hn
      omega
    · simp only [length_cons, length_nil] at hn
      omega
    · simp only [length_cons, length_nil] at hn
      omega
    · simp only [length_cons] at hn
      have hRest : wordSum (xs ++ ys) = wordSum xs + wordSum ys := ih (by omega)
      have hLeft : wordSum ((a :: b :: c :: d :: xs) ++ ys) =
          Words.ofBytes [a, b, c, d] + wordSum (xs ++ ys) :=
        rfl
      have hRight : wordSum (a :: b :: c :: d :: xs) =
          Words.ofBytes [a, b, c, d] + wordSum xs := rfl
      rw [hLeft, hRight, hRest, Nat.add_assoc]

theorem wordSum_zeros {n : Nat} (hWords : 4 ∣ n) :
    wordSum (zeros n) = 0 := by
  rcases hWords with ⟨k, rfl⟩
  induction k with
  | zero => rfl
  | succ k ih =>
    have hCons : zeros (4 * (k + 1)) = 0 :: 0 :: 0 :: 0 :: zeros (4 * k) := rfl
    have hSum : wordSum (0 :: 0 :: 0 :: 0 :: zeros (4 * k)) =
        Words.ofBytes [0, 0, 0, 0] + wordSum (zeros (4 * k)) :=
      rfl
    rw [hCons, hSum, ih]
    rfl

theorem ofBytes_le32 (n : Nat) :
    Words.ofBytes (le32 n) = n % 2 ^ 32 :=
  Words.ofBytes_toBytes_mod 4 n

theorem ofBytes_le16 (n : Nat) :
    Words.ofBytes (le16 n) = n % 2 ^ 16 :=
  Words.ofBytes_toBytes_mod 2 n

variable {a : Nat}

theorem alignSup_eq (x : Nat) (ha : 0 < a) :
    alignSup x a = roundUp a x := by
  unfold alignSup roundUp
  rw [Nat.add_sub_assoc ha]

theorem le_alignSup (x : Nat) (ha : 0 < a) :
    x ≤ alignSup x a :=
  alignSup_eq x ha ▸ le_roundUp x ha

theorem alignSup_lt (x : Nat) (ha : 0 < a) :
    alignSup x a < x + a := by
  have hLe : alignSup x a ≤ x + (a - 1) := Nat.div_mul_le_self _ _
  omega

theorem dvd_alignSup (x a : Nat) :
    a ∣ alignSup x a :=
  Nat.dvd_mul_left _ _

theorem alignSup_of_dvd {x a : Nat} (ha : 0 < a) (hDvd : a ∣ x) :
    alignSup x a = x :=
  alignSup_eq x ha ▸ roundUp_of_dvd ha hDvd

----
-- The End Of The File
----

theorem length_padded (payload : List UInt8) :
    (padded payload).length = alignSup payload.length 4 := by
  have hLe := le_alignSup payload.length (show 0 < 4 by decide)
  unfold padded zeros
  rw [length_append, length_replicate]
  omega

theorem imageFile_eq (space : Nat) (payload : List UInt8) :
    imageFile space payload = zeros space ++ padded payload :=
  append_assoc _ _ _

section End

variable {space headersz : Nat} {payload : List UInt8}

theorem length_imageFile : (imageFile space payload).length = space + (padded payload).length := by
  rw [imageFile_eq]
  unfold zeros
  rw [length_append, length_replicate]

theorem dvd_length_imageFile (hSpace : 4 ∣ space) :
    4 ∣ (imageFile space payload).length := by
  have hPadded : 4 ∣ (padded payload).length := length_padded payload ▸ dvd_alignSup _ _
  rw [length_imageFile]
  omega

/- The header covers a part of the space for it. -/
theorem drop_imageFile (hLe : headersz ≤ space) :
    (imageFile space payload).drop headersz = zeros (space - headersz) ++ padded payload := by
  have hLength : headersz ≤ (zeros space).length := by
    unfold zeros
    rw [length_replicate]
    exact hLe
  rw [imageFile_eq, drop_append_of_le_length hLength]
  unfold zeros
  rw [drop_replicate]

theorem wordSum_imageFile (hSpace : 4 ∣ space) :
    wordSum (imageFile space payload) = wordSum (padded payload) := by
  have hZeros : 4 ∣ (zeros space).length := by
    unfold zeros
    rw [length_replicate]
    exact hSpace
  rw [imageFile_eq, wordSum_append hZeros, wordSum_zeros hSpace, Nat.zero_add]

/- A file that is not too long is summed as a whole. -/
theorem imageChecksum32_of_lt
    (hSpace : 4 ∣ space) (hLt : (imageFile space payload).length < 2 ^ 32) :
    imageChecksum32 (imageFile space payload) (imageFile space payload).length =
      u32 (wordSum (padded payload)) := by
  have hWords : 4 ∣ (imageFile space payload).length := dvd_length_imageFile hSpace
  unfold imageChecksum32
  rw [u32_of_lt hLt, if_neg (by omega), take_length, wordSum_imageFile hSpace]

/- Of a file that is a little longer only zeros are summed. -/
theorem imageChecksum32_of_le (hSpace : 4 ∣ space) (hLe : 2 ^ 32 ≤ (imageFile space payload).length)
    (hLt : (imageFile space payload).length + 4 < 2 ^ 32 + space) :
    imageChecksum32 (imageFile space payload) (imageFile space payload).length = 0 := by
  unfold imageChecksum32
  split
  · rfl
  · next hFour =>
      generalize hLen : u32 (imageFile space payload).length = len at hFour ⊢
      have hShort : len ≤ space := by
        by_cases hWrap : (imageFile space payload).length < 2 ^ 33
        · unfold u32 at hLen
          omega
        · have hMod : len < 2 ^ 32 := hLen ▸ Nat.mod_lt _ (by decide)
          omega
      have hTake : (imageFile space payload).take len = zeros len := by
        have hLength : len ≤ (zeros space).length := by
          unfold zeros
          rw [length_replicate]
          exact hShort
        rw [imageFile_eq, take_append_of_le_length hLength]
        unfold zeros
        rw [take_replicate, Nat.min_eq_left hShort]
      rw [hTake, wordSum_zeros (by omega)]
      rfl

/- The file that the header and the checksum make of another. -/
def outFile (image ptr : List UInt8) : List UInt8 :=
  image ++ ptr.drop image.length ++ le32 (imageChecksum32 ptr ptr.length)

/- The two fields and the last word are right. -/
def EndOk (out : List UInt8) : Prop :=
  srcaddr out + blocksize out = out.length ∧ Words.ofBytes (out.drop (out.length - 4)) =
      u32 (wordSum ((out.drop (srcaddr out)).take (blocksize out - 4)))

/- They are if and only if the length of the file is. -/
theorem endOk_iff {image : List UInt8} (hHeader : 4 ∣ image.length) (hPos : 0 < image.length)
    (hSpace : 4 ∣ space) (hLe : image.length ≤ space) (hSmall : image.length < 2 ^ 32)
    {out : List UInt8} (hOut : out = outFile image (imageFile space payload))
    (hSrcaddr : srcaddr out = image.length % 2 ^ 32)
    (hBlocksize : blocksize out =
      ((imageFile space payload).length + 4 + 2 ^ 64 - image.length) % 2 ^ 32) :
    EndOk out ↔ LengthOk space image.length payload := by
  unfold outFile at hOut
  have hSize : (imageFile space payload).length =
      space + (padded payload).length := length_imageFile
  have hFront : (image ++
      (imageFile space payload).drop image.length).length = (imageFile space payload).length := by
    rw [length_append, length_drop]
    omega
  have hLength : out.length = (imageFile space payload).length + 4 := by
    rw [hOut, length_append, hFront]
    rfl
  have hLast : out.drop (out.length - 4) =
      le32 (imageChecksum32 (imageFile space payload) (imageFile space payload).length) := by
    rw [hLength, Nat.add_sub_cancel, hOut, drop_left' hFront]
  have hSource : srcaddr out = image.length := by rw [hSrcaddr, Nat.mod_eq_of_lt hSmall]
  have hBody : blocksize out = (imageFile space payload).length + 4 - image.length →
      wordSum ((out.drop (srcaddr out)).take (blocksize out - 4)) = wordSum (padded payload) := by
    intro hBlock
    have hGap : 4 ∣ (zeros (space - image.length)).length := by
      unfold zeros
      rw [length_replicate]
      omega
    have hTake : ((imageFile space payload).drop image.length).length = blocksize out - 4 := by
      rw [length_drop]
      omega
    have hDrop : out.drop image.length = (imageFile space payload).drop image.length ++
          le32 (imageChecksum32 (imageFile space payload) (imageFile space payload).length) := by
      rw [hOut, append_assoc, drop_left]
    rw [hSource, hDrop, take_left' hTake, drop_imageFile hLe, wordSum_append hGap,
      wordSum_zeros (by omega), Nat.zero_add]
  unfold EndOk
  rw [hLast, ofBytes_le32, hLength, hSource]
  unfold LengthOk
  rw [← hSize]
  constructor
  · rintro ⟨hSum, hCheck⟩
    have hFits : (imageFile space payload).length + 4 < 2 ^ 32 + image.length := by
      have hMod := Nat.mod_lt
        ((imageFile space payload).length + 4 + 2 ^ 64 - image.length) (show 0 < 2 ^ 32 by decide)
      omega
    by_cases hShort : (imageFile space payload).length < 2 ^ 32
    · exact Or.inl hShort
    · refine Or.inr ⟨hFits, ?_⟩
      rw [← hSource, hBody (by omega), imageChecksum32_of_le hSpace (by omega) (by omega)] at hCheck
      exact hCheck.symm
  · intro hOk
    have hFits : (imageFile space payload).length + 4 < 2 ^ 32 + image.length := by
      rcases hOk with hShort | ⟨hFits, -⟩
      · omega
      · exact hFits
    have hBlock : blocksize out = (imageFile space payload).length + 4 - image.length := by
      rw [hBlocksize]
      omega
    refine ⟨by omega, ?_⟩
    rw [← hSource, hBody hBlock]
    rcases hOk with hShort | ⟨-, hZero⟩
    · rw [imageChecksum32_of_lt hSpace hShort]
      exact Nat.mod_mod _ _
    · by_cases hShort : (imageFile space payload).length < 2 ^ 32
      · rw [imageChecksum32_of_lt hSpace hShort]
        exact Nat.mod_mod _ _
      · rw [imageChecksum32_of_le hSpace (by omega) (by omega), hZero, Nat.zero_mod]

end End

end Uboot.Kwbimage
