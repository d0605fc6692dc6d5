import BootFirmware.Uboot.CTypes
import BootFirmware.Uboot.Fdt.FindRegions

/-
  A device tree as the bytes that it is stored in, whatever
  they are, and the tags that are read from it.

  Offsets are of type `int`, so that a tree has less than
  2 GB, also when its end is aligned; the sums of offsets are
  unsigned numbers of 32 bits.

  Key definitions include:
    * `Blob`
    * `fdtOffsetPtr`
    * `RawTag` and `fdtNextTag`

  The main results are:
    * `fdtNextTag_next`
-/

----
-- Bytes
----

namespace Uboot.Fdt.Raw

/- The memory from the tree on, and what its header says. -/
structure Blob where
  memory : Int → UInt8
  totalsize : Nat
  version : Nat
  offDtStruct : Nat
  sizeDtStruct : Nat
  offDtStrings : Nat
  sizeDtStrings : Nat
  totalsize_lt : totalsize + 3 < 2 ^ 31

def Blob.byte (b : Blob) (p : Nat) : UInt8 :=
  b.memory p

/- `fdt32_to_cpu` of the word at an address. -/
def Blob.be32 (b : Blob) (p : Nat) : Nat :=
  (b.byte p).toNat * 2 ^ 24 + (b.byte (p + 1)).toNat * 2 ^ 16 +
    (b.byte (p + 2)).toNat * 2 ^ 8 + (b.byte (p + 3)).toNat

/- `fdt_offset_ptr`: where an offset is in the tree. -/
def fdtOffsetPtr (b : Blob)
    (offset len : Nat) : Option Nat :=
  let absoffset := u32 (offset + b.offDtStruct)
  if absoffset < offset ∨ u32 (absoffset + len) < absoffset ∨
      u32 (absoffset + len) > b.totalsize then
    none
  else if 0x11 ≤ b.version ∧
      (u32 (offset + len) < offset ∨ u32 (offset + len) > b.sizeDtStruct) then
    none
  else
    some absoffset

----
-- Tags
----

/- A tag; a property with the offset of its name. -/
inductive RawTag where
  | beginNode (name : Str)
  | endNode
  | prop (nameoff : Nat)
  | nop
  | fin
deriving DecidableEq, Repr

def FDT_TAGSIZE : Nat := 4
def FDT_BEGIN_NODE : Nat := 1
def FDT_END_NODE : Nat := 2
def FDT_PROP : Nat := 3
def FDT_NOP : Nat := 4
def FDT_END : Nat := 9

def fdtErrTruncated : Int := 8
def fdtErrBadstructure : Int := 11

/-
  Skip the name of a node: the name, and the offset after its
  NUL.  Each turn goes on by a byte, which the size of the
  tree bounds.
-/
def readName (b : Blob) : Nat → Nat → Option (Str × Nat)
  | 0, _ => none
  | turns + 1, offset =>
    match fdtOffsetPtr b offset 1 with
    | none => none
    | some p =>
      if b.byte p = 0 then some ([], offset + 1)
      else
        (readName b turns (offset + 1)).map fun r => (b.byte p :: r.1, r.2)

/- The end of a tag, where the whole of it is in the tree. -/
def tagEnd (b : Blob) (startoffset offset : Nat)
    (tag : RawTag) : RawTag × Int :=
  match fdtOffsetPtr b startoffset (u32 (offset + 2 ^ 32 - startoffset)) with
  | none => (.fin, -fdtErrBadstructure)
  | some _ => (tag, tagAlign offset)

/- `fdt_next_tag`: the tag, and what `nextoffset` is set to. -/
def fdtNextTag (b : Blob) (startoffset : Nat) : RawTag × Int :=
  match fdtOffsetPtr b startoffset FDT_TAGSIZE with
  | none => (.fin, -fdtErrTruncated)
  | some tagp =>
    let tag := b.be32 tagp
    let offset := startoffset + FDT_TAGSIZE
    if tag = FDT_BEGIN_NODE then
      match readName b (b.totalsize + 1) offset with
      | none => (.fin, -fdtErrBadstructure)
      | some (name, offset) => tagEnd b startoffset offset (.beginNode name)
    else if tag = FDT_PROP then
      match fdtOffsetPtr b offset 4 with
      | none => (.fin, -fdtErrBadstructure)
      | some lenp =>
        -- the sum goes back into an `int`
        tagEnd b startoffset (u32 (offset + 8 + b.be32 lenp)) (.prop (b.be32 (tagp + 8)))
    else if tag = FDT_END then
      tagEnd b startoffset offset .fin
    else if tag = FDT_END_NODE then
      tagEnd b startoffset offset .endNode
    else if tag = FDT_NOP then
      tagEnd b startoffset offset .nop
    else (.fin, -fdtErrBadstructure)

section

variable {b : Blob}

theorem fdtOffsetPtr_some
    {offset len p : Nat} (hLen : len < 2 ^ 32) (hPtr : fdtOffsetPtr b offset len = some p) :
    offset ≤ p ∧ p + len ≤ b.totalsize ∧ p = u32 (offset + b.offDtStruct) := by
  unfold fdtOffsetPtr at hPtr
  dsimp only at hPtr
  split at hPtr
  · cases hPtr
  rename_i hAbs
  split at hPtr
  · cases hPtr
  cases hPtr
  unfold u32 at *
  omega

/- A name ends after its NUL, in the tree. -/
theorem readName_offset {turns offset stop : Nat} {name : Str}
    (hOffset : offset < 2 ^ 31) (hRead : readName b turns offset = some (name, stop)) :
    stop = offset + name.length + 1 ∧ stop ≤ b.totalsize := by
  induction turns generalizing offset name with
  | zero => cases hRead
  | succ turns ih =>
    unfold readName at hRead
    split at hRead
    · cases hRead
    rename_i p hPtr
    have hLt := b.totalsize_lt
    have hIn := fdtOffsetPtr_some (by decide) hPtr
    split_ifs at hRead
    · cases hRead
      rw [List.length_nil]
      omega
    · rw [Option.map_eq_some_iff] at hRead
      rcases hRead with ⟨⟨rest, stop'⟩, hRest, hEq⟩
      cases hEq
      have hTail := ih (by omega) hRest
      dsimp only
      rw [List.length_cons]
      omega

variable {next : Int} {startoffset offset : Nat} {tag tag' : RawTag}

theorem tagEnd_next (hStart : startoffset < 2 ^ 31) (hOffset : offset < 2 ^ 32)
    (hEnd : tagEnd b startoffset offset tag = (tag', next)) :
    (tag' = .fin ∧ next = -fdtErrBadstructure) ∨
      (tag' = tag ∧ next = tagAlign offset ∧ startoffset ≤ offset ∧ offset ≤ b.totalsize ∧
        u32 (startoffset + b.offDtStruct) + (offset - startoffset) ≤ b.totalsize ∧
        startoffset ≤ u32 (startoffset + b.offDtStruct)) := by
  unfold tagEnd at hEnd
  split at hEnd
  · cases hEnd
    exact Or.inl ⟨rfl, rfl⟩
  · rename_i p hPtr
    cases hEnd
    have hLen : u32 (offset + 2 ^ 32 - startoffset) < 2 ^ 32 := Nat.mod_lt _ (by decide)
    have hIn := fdtOffsetPtr_some hLen hPtr
    have hLt := b.totalsize_lt
    refine Or.inr ⟨rfl, rfl, ?_⟩
    unfold u32 at *
    omega

/-
  After a tag that is not the last the walk goes on further
  up in the tree, or it is a property that has it stay.
-/
structure Follows
    (b : Blob) (startoffset : Nat) (tag : RawTag)
    (next : Int) : Prop where
  toNat : next = (next.toNat : Int)
  le : startoffset ≤ next.toNat
  upper : next.toNat ≤ b.totalsize + 3
  aligned : next.toNat % 4 = 0
  stays : next.toNat = startoffset → ∃ nameoff, tag = .prop nameoff

theorem follows_of_tagEnd (hStart : startoffset < 2 ^ 31) (hOffset : offset < 2 ^ 32)
    (hMore : startoffset < offset ∨ ∃ nameoff, tag = .prop nameoff)
    (hEnd : tagEnd b startoffset offset tag = (tag', next)) (hTag : tag' ≠ .fin) :
    Follows b startoffset tag' next := by
  rcases tagEnd_next hStart hOffset hEnd with ⟨hFin, -⟩ | ⟨rfl, rfl, hLe, hUpper, -, -⟩
  · exact absurd hFin hTag
  · have hNat : ((tagAlign offset : Nat) : Int).toNat = tagAlign offset := Int.toNat_natCast _
    refine ⟨by rw [hNat], ?_, ?_, ?_, ?_⟩
    · rw [hNat]
      unfold tagAlign
      omega
    · rw [hNat]
      unfold tagAlign
      omega
    · rw [hNat]
      unfold tagAlign
      omega
    · rw [hNat]
      intro hStay
      rcases hMore with hLt | hProp
      · unfold tagAlign at hStay
        omega
      · exact hProp

/- Where the walk goes on after a tag. -/
theorem fdtNextTag_next {startoffset : Nat} {tag : RawTag}
    (hStart : startoffset < 2 ^ 31) (hNext : fdtNextTag b startoffset = (tag, next))
    (hTag : tag ≠ .fin) :
    Follows b startoffset tag next := by
  unfold fdtNextTag at hNext
  split at hNext
  · cases hNext
    exact absurd rfl hTag
  rename_i tagp hPtr
  dsimp only at hNext
  have hLt := b.totalsize_lt
  have hIn := fdtOffsetPtr_some (by decide) hPtr
  unfold FDT_TAGSIZE at *
  split_ifs at hNext
  · split at hNext
    · cases hNext
      exact absurd rfl hTag
    rename_i name stop hRead
    have hStop := readName_offset (by omega) hRead
    exact follows_of_tagEnd hStart (by omega) (Or.inl (by omega)) hNext hTag
  · split at hNext
    · cases hNext
      exact absurd rfl hTag
    exact follows_of_tagEnd hStart (Nat.mod_lt _ (by decide)) (Or.inr ⟨_, rfl⟩) hNext hTag
  · exact follows_of_tagEnd hStart (by omega) (Or.inl (by omega)) hNext hTag
  · exact follows_of_tagEnd hStart (by omega) (Or.inl (by omega)) hNext hTag
  · exact follows_of_tagEnd hStart (by omega) (Or.inl (by omega)) hNext hTag
  · cases hNext
    exact absurd rfl hTag

end

end Uboot.Fdt.Raw
