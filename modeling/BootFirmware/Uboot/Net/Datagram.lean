import BootFirmware.Uboot.Net.FragmentSafety

/-
  A datagram that was cut into fragments, and where the bytes
  of a fragment belong.

  Key definitions include:
    * `Datagram` and `Datagram.offset`
    * `IsFragment`

  The main results are:
    * `Datagram.exists_piece` and `Datagram.piece_unique`
    * `IsFragment.cuts`
-/

----
-- Datagrams And Their Pieces
----

namespace Uboot.Net

open List

/- A payload in pieces, the last of which may be any. -/
structure Datagram where
  id : Nat
  pieces : List (List UInt8)
  hSome : pieces ≠ []
  hAligned : ∀ k, k + 1 < pieces.length →
    0 < (pieces.getD k []).length ∧ (pieces.getD k []).length % 8 = 0
  hTotal : pieces.flatten.length ≤ 16360

namespace Datagram

def payload (d : Datagram) : List UInt8 :=
  d.pieces.flatten

def count (d : Datagram) : Nat :=
  d.pieces.length

def piece (d : Datagram) (k : Nat) : List UInt8 :=
  d.pieces.getD k []

/- The offset of a piece in the payload. -/
def offset (d : Datagram) (k : Nat) : Nat :=
  (d.pieces.take k).flatten.length

variable (d : Datagram)

theorem count_pos : 0 < d.count :=
  length_pos_iff.mpr d.hSome

variable {k : Nat}

theorem piece_eq (hk : k < d.count) :
    d.piece k = d.pieces.get ⟨k, hk⟩ := by
  unfold piece
  rw [getD_eq_getElem?_getD, getElem?_eq_getElem hk]
  rfl

theorem pieces_cut (hk : k < d.count) :
    d.payload = (d.pieces.take k).flatten ++ (d.piece k ++ (d.pieces.drop (k + 1)).flatten) := by
  have hDrop : d.pieces.drop k = d.piece k :: d.pieces.drop (k + 1) := by
    rw [drop_eq_getElem_cons hk, piece_eq d hk]
    rfl
  calc d.payload
      = (d.pieces.take k ++ d.pieces.drop k).flatten := by
          rw [take_append_drop]
          rfl
    _ = _ := by
          rw [flatten_append, hDrop, flatten_cons]

@[simp] theorem offset_zero : d.offset 0 = 0 := rfl

theorem offset_succ (hk : k < d.count) :
    d.offset (k + 1) = d.offset k + (d.piece k).length := by
  unfold offset
  rw [take_succ_eq_append_getElem hk, flatten_append, length_append, piece_eq d hk,
    flatten_singleton]
  rfl

theorem offset_count : d.offset d.count = d.payload.length := by
  unfold offset count payload
  rw [take_length]

theorem offset_mono {j k : Nat} (hLe : j ≤ k) (hk : k ≤ d.count) :
    d.offset j ≤ d.offset k := by
  induction k with
  | zero => rw [Nat.le_zero.mp hLe]
  | succ k ih =>
    rcases Nat.lt_or_eq_of_le hLe with hLt | rfl
    · have hBelow := ih (Nat.le_of_lt_succ hLt) (Nat.le_of_succ_le hk)
      rw [d.offset_succ hk]
      exact Nat.le_add_right_of_le hBelow
    · exact Nat.le_refl _

theorem offset_le (hk : k ≤ d.count) :
    d.offset k ≤ d.payload.length := by
  rw [← d.offset_count]
  exact d.offset_mono hk (Nat.le_refl _)

theorem payload_le : d.payload.length ≤ 16360 :=
  d.hTotal

theorem offset_lt_succ (hk : k + 1 < d.count) :
    d.offset k < d.offset (k + 1) := by
  rw [d.offset_succ (Nat.lt_of_succ_lt hk)]
  exact Nat.lt_add_of_pos_right (d.hAligned k hk).1

theorem offset_strict {j k : Nat} (hLt : j < k) (hk : k < d.count) :
    d.offset j < d.offset k :=
  Nat.lt_of_lt_of_le (d.offset_lt_succ (Nat.lt_of_le_of_lt hLt hk))
    (d.offset_mono hLt (Nat.le_of_lt hk))

theorem offset_aligned (hk : k < d.count) :
    d.offset k % 8 = 0 := by
  induction k with
  | zero => rfl
  | succ k ih =>
    have hPiece : (d.piece k).length % 8 = 0 := (d.hAligned k hk).2
    rw [d.offset_succ (Nat.lt_of_succ_lt hk)]
    omega

theorem exists_piece {b n : Nat} (hn : n ≤ d.count) (hb : b < d.offset n) :
    ∃ k < n, d.offset k ≤ b ∧ b < d.offset (k + 1) := by
  induction n with
  | zero => exact absurd hb (Nat.not_lt_zero b)
  | succ n ih =>
    by_cases hBelow : b < d.offset n
    · rcases ih (Nat.le_of_succ_le hn) hBelow with ⟨k, hk, hIn⟩
      exact ⟨k, Nat.lt_succ_of_lt hk, hIn⟩
    · exact ⟨n, Nat.lt_succ_self n, Nat.not_lt.mp hBelow, hb⟩

/- No byte is in two pieces. -/
theorem piece_unique {b j k : Nat}
    (hj : j < d.count) (hk : k < d.count) (hInFirst : d.offset j ≤ b ∧ b < d.offset (j + 1))
    (hInSecond : d.offset k ≤ b ∧ b < d.offset (k + 1)) :
    j = k := by
  rcases Nat.lt_trichotomy j k with hLt | rfl | hGt
  · have hLe : d.offset (j + 1) ≤ d.offset k := d.offset_mono hLt (Nat.le_of_lt hk)
    omega
  · rfl
  · have hLe : d.offset (k + 1) ≤ d.offset j := d.offset_mono hGt (Nat.le_of_lt hj)
    omega

theorem payload_at {k i : Nat} (hk : k < d.count) (hi : i < (d.piece k).length) :
    d.payload.getD (d.offset k + i) 0 = (d.piece k).getD i 0 := by
  rw [getD_eq_getElem?_getD, getD_eq_getElem?_getD, d.pieces_cut hk]
  unfold offset
  rw [getElem?_append_right (Nat.le_add_right _ i),
    Nat.add_sub_cancel_left, getElem?_append_left hi]

end Datagram

----
-- Fragments Of A Datagram
----

/-
  A packet with a piece of the datagram.  Nothing else is
  said of its header.
-/
structure IsFragment
    (d : Datagram) (k : Nat)
    (ip : List UInt8) : Prop where
  hPiece : k < d.count
  hHeader : IP_HDR_SIZE ≤ ip.length
  hId : ipId ip = d.id
  hOffset : ipOff ip % 2 ^ 13 * 8 = d.offset k
  hMore : (ipOff ip).testBit 13 = decide (k + 1 < d.count)
  hLength : ipLen ip = IP_HDR_SIZE + (d.piece k).length
  hData : (ip.drop IP_HDR_SIZE).take (d.piece k).length = d.piece k

/- A fragment with the bytes of a piece. -/
structure Cuts
    (d : Datagram) (k : Nat)
    (f : Fragment) : Prop where
  hPiece : k < d.count
  hStart : f.start = d.offset k
  hLen : f.len = (d.piece k).length
  hStop : f.stop = (d.offset (k + 1) : Int)
  hMore : f.more = decide (k + 1 < d.count)

namespace IsFragment

variable {d : Datagram} {k : Nat} {ip : List UInt8}

section

variable (hFragment : IsFragment d k ip)
include hFragment

theorem cuts : Cuts d k (Fragment.ofIp ip) := by
  have hStart : (Fragment.ofIp ip).start = d.offset k := hFragment.hOffset
  have hLen : (Fragment.ofIp ip).len = (d.piece k).length := by
    have hLength := hFragment.hLength
    have hOf : (Fragment.ofIp ip).len = (ipLen ip : Int) - IP_HDR_SIZE := rfl
    omega
  constructor
  · exact hFragment.hPiece
  · exact hStart
  · exact hLen
  · rw [Fragment.stop, hStart, hLen, d.offset_succ hFragment.hPiece]
    exact (Int.natCast_add _ _).symm
  · exact hFragment.hMore

theorem length_le : ipLen ip ≤ ip.length := by
  have hTake := congrArg List.length hFragment.hData
  have hHeader := hFragment.hHeader
  rw [length_take, length_drop] at hTake
  rw [hFragment.hLength]
  omega

theorem not_tooFar : (Fragment.ofIp ip).tooFar = false := by
  have hStop := hFragment.cuts.hStop
  have hEnd : d.offset (k + 1) ≤ d.payload.length := d.offset_le hFragment.hPiece
  have hTotal := d.payload_le
  have hMax : IP_MAXUDP = 16364 := rfl
  apply decide_eq_false
  rw [hStop]
  omega

/- The bytes that the packet brings. -/
theorem data_at {i : Nat} (hi : i < (d.piece k).length) :
    ip.getD (IP_HDR_SIZE + i) 0 = d.payload.getD (d.offset k + i) 0 := by
  have hAt := congrArg (fun bytes => bytes[i]?) hFragment.hData
  rw [getElem?_take_of_lt hi, getElem?_drop] at hAt
  rw [d.payload_at hFragment.hPiece hi, getD_eq_getElem?_getD, getD_eq_getElem?_getD, hAt]

end

end IsFragment

end Uboot.Net
