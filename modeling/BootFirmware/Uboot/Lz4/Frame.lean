import BootFirmware.Lib.Memory
import BootFirmware.Lib.Words
import Mathlib.Tactic.SplitIfs

/-
  The reader of LZ4 frames, with the decoder of a single block
  as a parameter.

  A read of a block header that is not in the source has no
  result.  A header with a size of zero is the end mark.

  Key definitions include:
    * `turn` and `ulz4fn`
    * `Block`, `Blocks` and `Overrun`

  Main declarations:
    * `ulz4fn_exact`
-/

----
-- The Reader
----

namespace Uboot.Lz4

def EINVAL : Int := 22

def EPROTO : Int := 71

def EPROTONOSUPPORT : Int := 93

def ENOBUFS : Int := 105

def LZ4F_MAGIC : Nat := 0x184D2204

/-
  The arguments.  `decompress` is `LZ4_decompress_generic`: a
  block and the room that is left give the bytes it makes.
-/
structure Frame where
  src : Memory UInt8
  srcn : Nat
  dstn : Nat
  decompress : List UInt8 → Nat → Option (List UInt8)

namespace Frame

variable (f : Frame)

def le32 (pos : Nat) : Nat :=
  Words.ofBytes (f.src.slice pos 4)

/- A bit field of the frame header. -/
def bits (pos low count : Nat) : Nat :=
  (f.src pos).toNat / 2 ^ low % 2 ^ count

def reserved0 : Nat := f.bits 4 0 2

def hasContentSize : Nat := f.bits 4 3 1

def hasBlockChecksum : Nat := f.bits 4 4 1

def independentBlocks : Nat := f.bits 4 5 1

def version : Nat := f.bits 4 6 2

def reserved1 : Nat := f.bits 5 0 4

def reserved2 : Nat := f.bits 5 7 1

def headerSize : Nat := 6

/- The first block, behind the header and its checksum. -/
def start : Nat :=
  headerSize + (if f.hasContentSize ≠ 0 then 8 else 0) + 1

def checksum : Nat :=
  if f.hasBlockChecksum ≠ 0 then 4 else 0

def size (pos : Nat) : Nat := f.le32 pos % 2 ^ 31

def notCompressed (pos : Nat) : Prop := 2 ^ 31 ≤ f.le32 pos

instance (pos : Nat) : Decidable (f.notCompressed pos) :=
  inferInstanceAs (Decidable (_ ≤ _))

def data (pos : Nat) : List UInt8 :=
  f.src.slice (pos + 4) (f.size pos)

/- Behind a block and its checksum. -/
def next (pos : Nat) : Nat :=
  pos + 4 + f.size pos + f.checksum

end Frame

/- What one turn of the loop does. -/
inductive Turn where
  | outside
  | stop (ret : Int) (bytes : List UInt8)
  | next (bytes : List UInt8)

def turn (f : Frame) (pos done : Nat) : Turn :=
  if f.srcn < pos + 4 then .outside
  else if pos + 4 + f.size pos > f.srcn then .stop (-EINVAL) []
  else if f.size pos = 0 then .stop 0 []
  else if f.notCompressed pos then
    let size := min (f.size pos) (f.dstn - done)
    let bytes := f.src.slice (pos + 4) size
    if size < f.size pos then .stop (-ENOBUFS) bytes
    else .next bytes
  else
    match f.decompress (f.data pos) (f.dstn - done) with
    | none => .stop (-EPROTO) []
    | some bytes => .next bytes

/- A block that is in the source, and what it decodes to. -/
structure Block (f : Frame) (pos done : Nat) (bytes : List UInt8) : Prop where
  inside : pos + 4 + f.size pos ≤ f.srcn
  nonempty : f.size pos ≠ 0
  decodes :
    if f.notCompressed pos then
      bytes = f.data pos ∧ bytes.length ≤ f.dstn - done
    else f.decompress (f.data pos) (f.dstn - done) = some bytes

theorem turn_next_iff {f : Frame} {pos done : Nat} {bytes : List UInt8} :
    turn f pos done = .next bytes ↔ Block f pos done bytes := by
  constructor
  · intro hTurn
    unfold turn at hTurn
    dsimp only at hTurn
    split_ifs at hTurn with hOut hEnd hEmpty hRaw hShort
    · cases hTurn
      have hMin : min (f.size pos) (f.dstn - done) = f.size pos := by omega
      refine ⟨Nat.not_lt.mp hEnd, hEmpty, ?_⟩
      rw [if_pos hRaw, hMin]
      refine ⟨rfl, ?_⟩
      rw [Memory.length_slice]
      omega
    · cases hBytes : f.decompress (f.data pos) (f.dstn - done) with
      | none =>
        rw [hBytes] at hTurn
        cases hTurn
      | some made =>
        rw [hBytes] at hTurn
        cases hTurn
        refine ⟨Nat.not_lt.mp hEnd, hEmpty, ?_⟩
        rw [if_neg hRaw]
        exact hBytes
  · rintro ⟨hInside, hNonempty, hDecodes⟩
    unfold turn
    rw [if_neg (by omega), if_neg (by omega), if_neg hNonempty]
    by_cases hRaw : f.notCompressed pos
    · rw [if_pos hRaw] at hDecodes
      rcases hDecodes with ⟨rfl, hRoom⟩
      unfold Frame.data at hRoom
      rw [Memory.length_slice] at hRoom
      rw [if_pos hRaw, Nat.min_eq_left hRoom, if_neg (Nat.lt_irrefl _)]
      rfl
    · rw [if_neg hRaw] at hDecodes
      rw [if_neg hRaw, hDecodes]

/- The loop, from a position on. -/
def loop (f : Frame) (pos : Nat) (out : List UInt8) : Option (Int × List UInt8) :=
  match h : turn f pos out.length with
  | .outside => none
  | .stop ret bytes => some (ret, out ++ bytes)
  | .next bytes => loop f (f.next pos) (out ++ bytes)
termination_by f.srcn - pos
decreasing_by
  have hBlock := turn_next_iff.mp h
  have hInside := hBlock.inside
  have hNonempty := hBlock.nonempty
  unfold Frame.next
  omega

/- `ulz4fn`, with what is written to the destination. -/
def ulz4fn (f : Frame) : Option (Int × List UInt8) :=
  if f.srcn < Frame.headerSize + 8 + 1 then some (-EINVAL, [])
  else if f.le32 0 ≠ LZ4F_MAGIC ∨ f.version ≠ 1 then
    some (-EPROTONOSUPPORT, [])
  else if f.reserved0 ≠ 0 ∨ f.reserved1 ≠ 0 ∨ f.reserved2 ≠ 0 then
    some (-EINVAL, [])
  else if f.independentBlocks = 0 then some (-EPROTONOSUPPORT, [])
  else loop f f.start []

----
-- Frames
----

/- Blocks one after the other, from a position to another. -/
inductive Blocks (f : Frame) : Nat → Nat → List UInt8 → Nat → Prop
  | nil {pos done : Nat} : Blocks f pos done [] pos
  | cons {pos done stop : Nat} {bytes out : List UInt8} : Block f pos done bytes →
      Blocks f (f.next pos) (done + bytes.length) out stop → Blocks f pos done (bytes ++ out) stop

def EndMark (f : Frame) (pos : Nat) : Prop :=
  pos + 4 ≤ f.srcn ∧ f.size pos = 0

/- A header that the reader knows. -/
structure Accepted (f : Frame) : Prop where
  long : Frame.headerSize + 8 + 1 ≤ f.srcn
  magic : f.le32 0 = LZ4F_MAGIC ∧ f.version = 1
  reserved : f.reserved0 = 0 ∧ f.reserved1 = 0 ∧ f.reserved2 = 0
  independent : f.independentBlocks ≠ 0

/- After some blocks, the source ends in the next header. -/
def Overrun (f : Frame) : Prop :=
  Accepted f ∧ ∃ out stop, Blocks f f.start 0 out stop ∧ f.srcn < stop + 4

/- A result, and what the output is where it is zero. -/
def Exact (f : Frame) (r : Option (Int × List UInt8)) : Prop :=
  ∃ ret out, r = some (ret, out) ∧ out.length ≤ f.dstn ∧
    (ret = 0 → Accepted f ∧ ∃ stop, Blocks f f.start 0 out stop ∧ EndMark f stop)

/- The decoder of a block stays in the room that it is given. -/
def Frame.Confined (f : Frame) : Prop :=
  ∀ block room bytes, f.decompress block room = some bytes → bytes.length ≤ room

section Reader

variable {f : Frame} {pos done : Nat} {bytes : List UInt8}

theorem Block.room (hConfined : f.Confined) (hBlock : Block f pos done bytes) :
    bytes.length ≤ f.dstn - done := by
  have hDecodes := hBlock.decodes
  by_cases hRaw : f.notCompressed pos
  · rw [if_pos hRaw] at hDecodes
    exact hDecodes.2
  · rw [if_neg hRaw] at hDecodes
    exact hConfined _ _ _ hDecodes

theorem turn_outside_iff : turn f pos done = .outside ↔ f.srcn < pos + 4 := by
  constructor
  · intro hTurn
    by_contra hIn
    unfold turn at hTurn
    rw [if_neg hIn] at hTurn
    dsimp only at hTurn
    split_ifs at hTurn
    split at hTurn
    · cases hTurn
    · cases hTurn
  · intro hOut
    unfold turn
    rw [if_pos hOut]

theorem turn_stop {ret : Int} (hTurn : turn f pos done = .stop ret bytes) :
    bytes.length ≤ f.dstn - done ∧ (ret = 0 → bytes = [] ∧ EndMark f pos) := by
  unfold turn at hTurn
  dsimp only at hTurn
  split_ifs at hTurn with hOut hEnd hEmpty hRaw hShort
  · cases hTurn
    exact ⟨Nat.zero_le _, fun h => absurd h (by decide)⟩
  · cases hTurn
    exact ⟨Nat.zero_le _, fun _ => ⟨rfl, by omega, hEmpty⟩⟩
  · cases hTurn
    refine ⟨?_, fun h => absurd h (by decide)⟩
    rw [Memory.length_slice]
    exact Nat.min_le_right _ _
  · split at hTurn
    · cases hTurn
      exact ⟨Nat.zero_le _, fun h => absurd h (by decide)⟩
    · cases hTurn

variable {out : List UInt8}

theorem Blocks.cases_turn {stop : Nat} (hBlocks : Blocks f pos done out stop) :
    out = [] ∧ stop = pos ∨ ∃ bytes rest, turn f pos done = .next bytes ∧ out = bytes ++ rest ∧
        Blocks f (f.next pos) (done + bytes.length) rest stop := by
  cases hBlocks with
  | nil => exact Or.inl ⟨rfl, rfl⟩
  | cons hBlock hRest => exact Or.inr ⟨_, _, turn_next_iff.mpr hBlock, rfl, hRest⟩

theorem loop_some {r : Int × List UInt8}
    (hConfined : f.Confined) (hRoom : out.length ≤ f.dstn) (hRun : loop f pos out = some r) :
    r.2.length ≤ f.dstn ∧ (r.1 = 0 → ∃ made stop, r.2 = out ++ made ∧
        Blocks f pos out.length made stop ∧ EndMark f stop) ∧
      ∀ made stop, Blocks f pos out.length made stop → stop + 4 ≤ f.srcn := by
  induction pos, out using loop.induct f with
  | case1 pos out hTurn =>
    rw [loop, hTurn] at hRun
    cases hRun
  | case2 pos out ret bytes hTurn =>
    rw [loop, hTurn] at hRun
    cases hRun
    rcases turn_stop hTurn with ⟨hLength, hZero⟩
    refine ⟨?_, ?_, ?_⟩
    · rw [List.length_append]
      omega
    · intro hRet
      rcases hZero hRet with ⟨rfl, hMark⟩
      exact ⟨[], pos, rfl, .nil, hMark⟩
    · intro made stop hBlocks
      rcases hBlocks.cases_turn with ⟨-, rfl⟩ | ⟨_, _, hNext, -, -⟩
      · by_contra hOut
        cases hTurn.symm.trans (turn_outside_iff.mpr (Nat.not_le.mp hOut))
      · cases hTurn.symm.trans hNext
  | case3 pos out bytes hTurn ih =>
    rw [loop, hTurn] at hRun
    have hBlock := turn_next_iff.mp hTurn
    have hLength := hBlock.room hConfined
    rw [List.length_append] at ih
    rcases ih (by omega) hRun with ⟨hFits, hZero, hInside⟩
    refine ⟨hFits, ?_, ?_⟩
    · intro hRet
      rcases hZero hRet with ⟨made, stop, hOut, hBlocks, hMark⟩
      exact ⟨bytes ++ made, stop, by rw [hOut, List.append_assoc], .cons hBlock hBlocks, hMark⟩
    · intro made stop hBlocks
      rcases hBlocks.cases_turn with ⟨-, rfl⟩ | ⟨_, rest, hNext, -, hRest⟩
      · have hIn := hBlock.inside
        omega
      · cases hTurn.symm.trans hNext
        exact hInside rest stop hRest

theorem loop_none (hRun : loop f pos out = none) :
    ∃ made stop, Blocks f pos out.length made stop ∧ f.srcn < stop + 4 := by
  induction pos, out using loop.induct f with
  | case1 pos out hTurn => exact ⟨[], pos, .nil, turn_outside_iff.mp hTurn⟩
  | case2 pos out ret bytes hTurn =>
    rw [loop, hTurn] at hRun
    cases hRun
  | case3 pos out bytes hTurn ih =>
    rw [loop, hTurn] at hRun
    rw [List.length_append] at ih
    rcases ih hRun with ⟨made, stop, hBlocks, hOut⟩
    exact ⟨_, stop, .cons (turn_next_iff.mp hTurn) hBlocks, hOut⟩

theorem ulz4fn_cases (f : Frame) :
    (¬ Accepted f ∧ ∃ ret, ret ≠ 0 ∧ ulz4fn f = some (ret, [])) ∨
      (Accepted f ∧ ulz4fn f = loop f f.start []) := by
  unfold ulz4fn
  split_ifs with hShort hMagic hReserved hDependent
  · exact Or.inl ⟨fun h => absurd h.long (Nat.not_le.mpr hShort), _, by decide, rfl⟩
  · exact Or.inl ⟨fun h => hMagic.elim (fun hNe => hNe h.magic.1)
      (fun hNe => hNe h.magic.2), _, by decide, rfl⟩
  · refine Or.inl ⟨fun h => ?_, _, by decide, rfl⟩
    rcases h.reserved with ⟨h0, h1, h2⟩
    rcases hReserved with hNe | hNe | hNe
    · exact hNe h0
    · exact hNe h1
    · exact hNe h2
  · exact Or.inl ⟨fun h => h.independent hDependent, _, by decide, rfl⟩
  · rw [not_or, not_not, not_not] at hMagic
    rw [not_or, not_or, not_not, not_not, not_not] at hReserved
    exact Or.inr ⟨⟨Nat.not_lt.mp hShort, hMagic, hReserved, hDependent⟩, rfl⟩

/-
  The reader stays in the source and is right about what it
  decodes if and only if the source does not end in a block
  header that it comes to.
-/
theorem ulz4fn_exact (f : Frame) (hConfined : f.Confined) :
    Exact f (ulz4fn f) ↔ ¬ Overrun f := by
  rcases ulz4fn_cases f with ⟨hNot, ret, hRet, hRun⟩ | ⟨hYes, hRun⟩
  · refine iff_of_true ?_ (fun h => hNot h.1)
    exact ⟨ret, [], hRun, Nat.zero_le _, fun h => absurd h hRet⟩
  · rw [hRun]
    cases hLoop : loop f f.start [] with
    | none =>
      refine iff_of_false ?_ (not_not_intro ⟨hYes, loop_none hLoop⟩)
      rintro ⟨_, _, hSome, -⟩
      cases hSome
    | some r =>
      rcases loop_some hConfined (Nat.zero_le _) hLoop with ⟨hFits, hZero, hInside⟩
      refine iff_of_true ⟨r.1, r.2, rfl, hFits, fun hRet => ?_⟩ ?_
      · rcases hZero hRet with ⟨made, stop, hOut, hBlocks, hMark⟩
        rw [hOut]
        exact ⟨hYes, stop, hBlocks, hMark⟩
      · rintro ⟨-, made, stop, hBlocks, hOut⟩
        have hIn := hInside made stop hBlocks
        omega

end Reader

/- A compressed block of three literals, and a stored byte. -/
def twoBlocks : Frame where
  src i := [0x04, 0x22, 0x4d, 0x18, 0x60, 0x40, 0x82, 0x04, 0x00, 0x00, 0x00, 0x30, 0x61, 0x62,
    0x63, 0x01, 0x00, 0x00, 0x80, 0x64].getD i 0
  srcn := 24
  dstn := 4
  decompress block room :=
    if block = [0x30, 0x61, 0x62, 0x63] ∧ 3 ≤ room then some [0x61, 0x62, 0x63] else none

/- With its end mark, the frame is read. -/
theorem ulz4fn_exact_two : Exact twoBlocks (ulz4fn twoBlocks) := by
  have hConfined : twoBlocks.Confined := by
    intro block room bytes hMade
    rcases Option.ite_none_right_eq_some.mp hMade with ⟨hRoom, ⟨⟩⟩
    exact hRoom.2
  have hEnd : loop twoBlocks 20 [0x61, 0x62, 0x63, 0x64] = some (0, [0x61, 0x62, 0x63, 0x64]) := by
    rw [loop, show turn twoBlocks 20 [(0x61 : UInt8), 0x62, 0x63, 0x64].length = .stop 0 [] from rfl]
    rfl
  have hStored : loop twoBlocks 15 [0x61, 0x62, 0x63] = some (0, [0x61, 0x62, 0x63, 0x64]) := by
    rw [loop, show turn twoBlocks 15 [(0x61 : UInt8), 0x62, 0x63].length = .next [0x64] from rfl]
    exact hEnd
  have hRun : loop twoBlocks 7 [] = some (0, [0x61, 0x62, 0x63, 0x64]) := by
    rw [loop, show turn twoBlocks 7 ([] : List UInt8).length = .next [0x61, 0x62, 0x63] from rfl]
    exact hStored
  refine (ulz4fn_exact twoBlocks hConfined).mpr ?_
  rintro ⟨-, made, stop, hBlocks, hOut⟩
  exact Nat.not_lt.mpr ((loop_some hConfined (Nat.zero_le _) hRun).2.2 made stop hBlocks) hOut

/- A frame with one stored byte, and so much of what follows. -/
def storedByte (left : Nat) : Frame where
  src i := [0x04, 0x22, 0x4d, 0x18, 0x60, 0x40, 0x82, 0x01, 0x00, 0x00, 0x80, 0x61].getD i 0
  srcn := 12 + left
  dstn := 1
  decompress _ _ := none

/- Without its last byte, the source is left. -/
theorem ulz4fn_truncated : ¬ Exact (storedByte 3) (ulz4fn (storedByte 3)) := by
  have hFirst : ulz4fn (storedByte 3) = loop (storedByte 3) 7 [] := rfl
  have hTurn : turn (storedByte 3) 7 ([] : List UInt8).length = .next [0x61] := rfl
  have hNext : turn (storedByte 3) 12 [(0x61 : UInt8)].length = .outside := rfl
  have hNone : loop (storedByte 3) 12 [0x61] = none := by rw [loop, hNext]
  rintro ⟨ret, out, hRun, -⟩
  rw [hFirst, loop, hTurn] at hRun
  cases hNone.symm.trans hRun

end Uboot.Lz4
