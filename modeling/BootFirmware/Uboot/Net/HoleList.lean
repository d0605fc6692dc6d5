import BootFirmware.Lib.IndexLinks
import BootFirmware.Uboot.Net.Defragment
import Mathlib.Data.List.Perm.Subperm

/-
  The list of holes that the buffer of a packet holds.

  A descriptor is read by its index and its field, so that
  the links of a list are functions from indices, and each of
  the changes that the code makes to a list is a change to
  one or two of them.

  Key definitions include:
    * `slot`, `fieldOf` and `Linked`
    * `linkedFront` and `putEnds`

  The main results are:
    * `search_eq`
    * `removeHole_eq`, `moveHole_eq` and `splitHole_eq`
-/

----
-- Descriptors
----

namespace Uboot.Net

open IndexLinks List Function Option

/- The offset of a descriptor in the buffer. -/
def slot (i : Nat) : Nat := IP_HDR_SIZE + 8 * i

/- The descriptor lies in the buffer. -/
def SlotFits (i : Nat) : Prop :=
  slot i + 8 ≤ IP_PKTSIZE

instance (i : Nat) : Decidable (SlotFits i) :=
  inferInstanceAs (Decidable (slot i + 8 ≤ IP_PKTSIZE))

def fieldOf (m : Memory UInt8) (field : Field) (i : Nat) :
    Nat :=
  le16 m (slot i + field.off)

def putField (m : Memory UInt8) (i : Nat) (field : Field) (v : Nat) :
    Memory UInt8 :=
  putLe16 m (slot i + field.off) v

theorem slotFits_iff {i : Nat} :
    SlotFits i ↔ i ≤ 2044 := by
  simp only [SlotFits, slot, IP_HDR_SIZE, IP_PKTSIZE]
  omega

theorem Field.off_le (field : Field) :
    field.off ≤ 4 := by
  cases field <;> decide

variable {field field' : Field}

theorem Field.off_apart (hNe : field' ≠ field) :
    field'.off + 2 ≤ field.off ∨ field.off + 2 ≤ field'.off := by
  revert hNe
  cases field <;> cases field' <;> decide

theorem holeOff_nat (i n : Nat) :
    holeOff (i : Int) + (n : Int) = ((slot i + n : Nat) : Int) := by
  simp only [holeOff, slot]
  omega

variable {i : Nat}

theorem inBuff_field (hFits : SlotFits i) (field : Field) :
    inBuff (holeOff (i : Int) + (field.off : Int)) 2 = true := by
  have hOff := field.off_le
  rw [slotFits_iff] at hFits
  apply decide_eq_true
  simp only [holeOff, IP_HDR_SIZE, IP_PKTSIZE]
  omega

theorem getField_eq (hFits : SlotFits i) (m : Memory UInt8) (field : Field) :
    getField m i field = some (fieldOf m field i) := by
  rw [getField, if_pos (inBuff_field hFits field), holeOff_nat]
  rfl

theorem setField_eq (hFits : SlotFits i) (m : Memory UInt8) (field : Field) (v : Nat) :
    setField m i field v = some (putField m i field v) := by
  rw [setField, if_pos (inBuff_field hFits field), holeOff_nat]
  rfl

variable {α : Type}

/- What goes on after a read or a write of a field. -/
theorem getField_bind (hFits : SlotFits i) (m : Memory UInt8) (field : Field) (k : Nat → Option α) :
    (getField m i field).bind k = k (fieldOf m field i) := by
  rw [getField_eq hFits, bind_some]

theorem setField_bind (hFits : SlotFits i) (m : Memory UInt8) (field : Field) (v : Nat)
    (k : Memory UInt8 → Option α) :
    (setField m i field v).bind k = k (putField m i field v) := by
  rw [setField_eq hFits, bind_some]

theorem setField_map
    (hFits : SlotFits i) (m : Memory UInt8) (field : Field) (v : Nat) (k : Memory UInt8 → α) :
    (setField m i field v).map k = some (k (putField m i field v)) := by
  rw [setField_eq hFits, map_some]

theorem copyHole_eq {i j : Nat} (hFits : SlotFits i) (hNew : SlotFits j) (m : Memory UInt8) :
    copyHole m j i = some (m.move (slot j) (slot i) 8) := by
  have hIn : ∀ k : Nat, SlotFits k → inBuff (holeOff (k : Int)) 8 = true := by
    intro k hk
    rw [slotFits_iff] at hk
    apply decide_eq_true
    simp only [holeOff, IP_HDR_SIZE, IP_PKTSIZE]
    omega
  have hToNat : ∀ k : Nat, (holeOff (k : Int)).toNat = slot k := by
    intro k
    simp only [holeOff, slot]
    omega
  rw [copyHole, hIn i hFits, hIn j hNew, hToNat, hToNat]
  rfl

----
-- The Fields After A Change
----

theorem le16_lt (m : Memory UInt8) (off : Nat) :
    le16 m off < 2 ^ 16 := by
  have hLow := (m off).toNat_lt
  have hHigh := (m (off + 1)).toNat_lt
  unfold le16
  omega

theorem fieldOf_lt (m : Memory UInt8) (field : Field) (i : Nat) :
    fieldOf m field i < 2 ^ 16 :=
  le16_lt m _

variable {m : Memory UInt8}

theorem le16_putLe16_self {off v : Nat} (hv : v < 2 ^ 16) :
    le16 (putLe16 m off v) off = v := by
  have hHigh : off + 1 - off = 1 := by omega
  simp only [le16, putLe16, Memory.write, Nat.le_refl,
    if_true, Nat.sub_self, Nat.le_add_right, hHigh,
    getElem?_cons_zero, getElem?_cons_succ, getD_some, UInt8.toNat_ofNat']
  omega

theorem le16_congr
    {m m' : Memory UInt8} {off : Nat} (hLow : m' off = m off) (hHigh : m' (off + 1) = m (off + 1)) :
    le16 m' off = le16 m off := by
  rw [le16, le16, hLow, hHigh]

theorem putLe16_apart {off v a : Nat} (hApart : a < off ∨ off + 2 ≤ a) :
    putLe16 m off v a = m a := by
  rcases hApart with hBelow | hAbove
  · exact Memory.write_of_lt hBelow
  · exact Memory.write_of_le hAbove

theorem le16_putLe16_apart {off off' v : Nat} (hApart : off' + 2 ≤ off ∨ off + 2 ≤ off') :
    le16 (putLe16 m off v) off' = le16 m off' :=
  le16_congr (putLe16_apart (by omega)) (putLe16_apart (by omega))

/- A field of a descriptor changes for its index alone. -/
theorem fieldOf_putField_self
    {v : Nat} (m : Memory UInt8) (i : Nat) (field : Field) (hv : v < 2 ^ 16) :
    fieldOf (putField m i field v) field = update (fieldOf m field) i v := by
  funext j
  by_cases hEq : j = i
  · subst hEq
    rw [update_self]
    exact le16_putLe16_self hv
  · rw [update_of_ne hEq]
    refine le16_putLe16_apart ?_
    simp only [slot]
    omega

theorem fieldOf_putField_ne (m : Memory UInt8) (i v : Nat) (hNe : field' ≠ field) :
    fieldOf (putField m i field v) field' = fieldOf m field' := by
  funext j
  have hOff := field.off_le
  have hOff' := field'.off_le
  have hApart := Field.off_apart hNe
  refine le16_putLe16_apart ?_
  simp only [slot]
  omega

theorem fieldOf_move (m : Memory UInt8) (i j : Nat) (field : Field) :
    fieldOf (m.move (slot j) (slot i) 8) field =
      update (fieldOf m field) j (fieldOf m field i) := by
  funext k
  have hOff := field.off_le
  by_cases hEq : k = j
  · subst hEq
    rw [update_self]
    have hAt : ∀ n, n < 8 → m.move (slot k) (slot i) 8 (slot k + n) = m (slot i + n) := by
      intro n hn
      rw [Memory.move_apply, if_pos (by omega), Nat.add_sub_cancel_left]
    unfold fieldOf le16
    rw [Nat.add_assoc, Nat.add_assoc, hAt _ (by omega), hAt _ (by omega)]
  · rw [update_of_ne hEq]
    unfold fieldOf le16
    have hApart : slot k + 8 ≤ slot j ∨ slot j + 8 ≤ slot k := by
      simp only [slot]
      omega
    rw [Memory.move_apply, Memory.move_apply, if_neg (by omega), if_neg (by omega)]

----
-- What A Change Leaves
----

/- No byte differs but in the descriptors of these indices. -/
def SameBut (indices : List Nat)
    (m m' : Memory UInt8) : Prop :=
  ∀ a, (∀ i ∈ indices, a < slot i ∨ slot i + 8 ≤ a) → m' a = m a

theorem SameBut.refl (indices : List Nat) (m : Memory UInt8) :
    SameBut indices m m :=
  fun _ _ => rfl

variable {indices : List Nat}

theorem SameBut.trans
    {m m' m'' : Memory UInt8} (hFirst : SameBut indices m m') (hSecond : SameBut indices m' m'') :
    SameBut indices m m'' := by
  intro a hApart
  rw [hSecond a hApart, hFirst a hApart]

theorem sameBut_putField (hMem : i ∈ indices) (m : Memory UInt8) (field : Field) (v : Nat) :
    SameBut indices m (putField m i field v) := by
  intro a hApart
  have hOff := field.off_le
  have hAway := hApart i hMem
  exact putLe16_apart (by omega)

theorem sameBut_move {j : Nat} (hMem : j ∈ indices) (m : Memory UInt8) (i : Nat) :
    SameBut indices m (m.move (slot j) (slot i) 8) := by
  intro a hApart
  have hAway := hApart j hMem
  rw [Memory.move_apply, if_neg (by omega)]

----
-- The Links
----

/- The holes of these indices are linked in this order. -/
structure Linked
    (s : Defrag)
    (indices : List Nat) : Prop where
  hFirst : s.firstHole = indices.headD 0
  hSegment : Segment (fieldOf s.pktBuff .nextHole) (fieldOf s.pktBuff .prevHole) 0 0 indices
  hSorted : indices.Pairwise (· < ·)
  hFits : ∀ i ∈ indices, SlotFits i

/-
  The holes before another one, as its link has them.  The
  index 0 stands for no hole as well, so that a hole at the
  start of the packet is not seen from the second one.
-/
def linkedFront (front : List Nat) : List Nat :=
  if front.getLastD 0 = 0 then [] else front

/- Link the hole before a change and the one after it. -/
def putEnds (m : Memory UInt8) (front rest : List Nat) (before after : Nat) :
    Memory UInt8 :=
  let m :=
    match rest.head? with
    | none => m
    | some next => putField m next .prevHole before
  match front.getLast? with
  | none => m
  | some prev => putField m prev .nextHole after

theorem linkedFront_getLastD (front : List Nat) :
    (linkedFront front).getLastD 0 = front.getLastD 0 := by
  unfold linkedFront
  by_cases hZero : front.getLastD 0 = 0
  · rw [if_pos hZero, hZero]
    rfl
  · rw [if_neg hZero]

theorem linkedFront_eq_nil {front : List Nat} :
    linkedFront front = [] ↔ front.getLastD 0 = 0 := by
  unfold linkedFront
  by_cases hZero : front.getLastD 0 = 0
  · exact iff_of_true (if_pos hZero) hZero
  · rw [if_neg hZero]
    refine iff_of_false ?_ hZero
    rintro rfl
    exact hZero rfl

theorem linkedFront_sublist (front : List Nat) :
    List.Sublist (linkedFront front) front := by
  unfold linkedFront
  by_cases hZero : front.getLastD 0 = 0
  · rw [if_pos hZero]
    exact nil_sublist front
  · rw [if_neg hZero]

theorem segment_linkedFront {next prev : Nat → Nat} {front rest : List Nat}
    (hSegment : Segment next prev 0 0 (front ++ rest)) :
    Segment next prev 0 0 (linkedFront front ++ rest) := by
  unfold linkedFront
  by_cases hZero : front.getLastD 0 = 0
  · rw [if_pos hZero]
    have hRest := (segment_append.mp hSegment).2
    rwa [hZero] at hRest
  · rwa [if_neg hZero]

section Ends

variable {m : Memory UInt8} {front rest : List Nat} {before after : Nat}

theorem fieldOf_putEnds_last :
    fieldOf (putEnds m front rest before after) .lastByte = fieldOf m .lastByte := by
  unfold putEnds
  cases rest.head? <;> cases front.getLast? <;>
    simp only [fieldOf_putField_ne, ne_eq, reduceCtorEq, not_false_eq_true]

theorem fieldOf_putEnds_next (hAfter : after < 2 ^ 16) :
    fieldOf (putEnds m front rest before after) .nextHole =
      updateLast (fieldOf m .nextHole) front after := by
  unfold putEnds updateLast
  cases rest.head? <;> cases front.getLast? <;>
    simp only [fieldOf_putField_ne, fieldOf_putField_self,
      hAfter, ne_eq, reduceCtorEq, not_false_eq_true]

theorem fieldOf_putEnds_prev (hBefore : before < 2 ^ 16) :
    fieldOf (putEnds m front rest before after) .prevHole =
      updateHead (fieldOf m .prevHole) rest before := by
  unfold putEnds updateHead
  cases rest.head? <;> cases front.getLast? <;>
    simp only [fieldOf_putField_ne, fieldOf_putField_self,
      hBefore, ne_eq, reduceCtorEq, not_false_eq_true]

theorem sameBut_putEnds
    {indices : List Nat} (hFront : ∀ k ∈ front, k ∈ indices) (hRest : ∀ k ∈ rest, k ∈ indices) :
    SameBut indices m (putEnds m front rest before after) := by
  unfold putEnds
  cases hHead : rest.head? with
  | none =>
    cases hLast : front.getLast? with
    | none => exact .refl _ _
    | some prev => exact sameBut_putField (hFront prev (mem_of_getLast? hLast)) _ _ _
  | some next =>
    have hNext := sameBut_putField (hRest next (mem_of_head? hHead)) m .prevHole before
    cases hLast : front.getLast? with
    | none => exact hNext
    | some prev => exact hNext.trans (sameBut_putField (hFront prev (mem_of_getLast? hLast)) _ _ _)

end Ends

----
-- The Search
----

theorem length_le_of_sorted
    {n : Nat} (hSorted : indices.Pairwise (· < ·)) (hBelow : ∀ i ∈ indices, i < n) :
    indices.length ≤ n := by
  have hNodup : indices.Nodup := hSorted.imp Nat.ne_of_lt
  have hRange : indices ⊆ List.range n := fun i hi => mem_range.mpr (hBelow i hi)
  have hLength := (subperm_of_subset hNodup hRange).length_le
  rwa [length_range] at hLength

theorem headD_ne_zero
    {rest : List Nat} (hSorted : (i :: rest).Pairwise (· < ·)) (hRest : rest ≠ []) :
    rest.headD 0 ≠ 0 := by
  cases rest with
  | nil => exact absurd rfl hRest
  | cons k rest =>
    have hLt := (pairwise_cons.mp hSorted).1 k mem_cons_self
    exact Nat.ne_of_gt (Nat.lt_of_le_of_lt i.zero_le hLt)

theorem search_segment {before i fuel : Nat} {rest : List Nat} (start : Nat)
    (hSegment : Segment (fieldOf m .nextHole) (fieldOf m .prevHole) before 0 (i :: rest))
    (hSorted : (i :: rest).Pairwise (· < ·))
    (hFits : ∀ k ∈ i :: rest, SlotFits k) (hFuel : rest.length < fuel) :
    search m start fuel i = some ((i :: rest).find? fun k => start ≤ fieldOf m .lastByte k) := by
  induction rest generalizing before i fuel with
  | nil =>
    rcases Nat.exists_eq_add_one_of_ne_zero (Nat.ne_of_gt hFuel) with ⟨more, rfl⟩
    have hIn := hFits i mem_cons_self
    have hNext : fieldOf m .nextHole i = 0 := hSegment.2.1
    rw [search, getField_bind hIn, getField_bind hIn, hNext]
    by_cases hLast : fieldOf m .lastByte i < start
    · rw [find?_cons_of_neg (by simpa using hLast), if_pos hLast, if_pos rfl, find?_nil]
    · rw [find?_cons_of_pos (by simpa using Nat.not_lt.mp hLast), if_neg hLast]
  | cons k rest ih =>
    rcases Nat.exists_eq_add_one_of_ne_zero
      (Nat.ne_of_gt (Nat.lt_of_le_of_lt (Nat.zero_le _) hFuel)) with ⟨more, rfl⟩
    have hIn := hFits i mem_cons_self
    have hNext : fieldOf m .nextHole i = k := hSegment.2.1
    have hNonzero : k ≠ 0 := headD_ne_zero hSorted (cons_ne_nil k rest)
    have hTail := ih hSegment.2.2 (pairwise_cons.mp hSorted).2
      (fun j hj => hFits j (mem_cons_of_mem _ hj))
      (Nat.lt_of_succ_lt_succ hFuel)
    rw [search, getField_bind hIn, getField_bind hIn, hNext]
    by_cases hLast : fieldOf m .lastByte i < start
    · rw [find?_cons_of_neg (by simpa using hLast), if_pos hLast, if_neg hNonzero, hTail]
    · rw [find?_cons_of_pos (by simpa using Nat.not_lt.mp hLast), if_neg hLast]

theorem search_eq {s : Defrag} (start : Nat) (hLinked : Linked s indices) (hSome : indices ≠ []) :
    search s.pktBuff start (2 ^ 16) s.firstHole =
      some (indices.find? fun k => start ≤ fieldOf s.pktBuff .lastByte k) := by
  have hBelow : ∀ i ∈ indices, i < 2045 :=
    fun i hi => Nat.lt_succ_of_le (slotFits_iff.mp (hLinked.hFits i hi))
  have hLength := length_le_of_sorted hLinked.hSorted hBelow
  rw [hLinked.hFirst]
  cases indices with
  | nil => exact absurd rfl hSome
  | cons i rest =>
    rw [length_cons] at hLength
    exact search_segment start hLinked.hSegment hLinked.hSorted hLinked.hFits (by omega)

----
-- Removing A Hole
----

theorem u16_nat {n : Nat} (hn : n < 2 ^ 16) :
    u16 (n : Int) = n := by
  unfold u16
  omega

section Changes

variable {s : Defrag} {front rest : List Nat} {i j : Nat}

section

variable (hLinked : Linked s (front ++ i :: rest))
include hLinked

theorem Linked.prev_eq : fieldOf s.pktBuff .prevHole i = front.getLastD 0 :=
  (segment_append.mp hLinked.hSegment).2.1

theorem Linked.next_eq : fieldOf s.pktBuff .nextHole i = rest.headD 0 :=
  (segment_append.mp hLinked.hSegment).2.2.1

theorem Linked.sorted_rest : (i :: rest).Pairwise (· < ·) :=
  (pairwise_append.mp hLinked.hSorted).2.1

theorem Linked.fits_at : SlotFits i :=
  hLinked.hFits i (mem_append_right front mem_cons_self)

end

theorem Linked.fits_next {k : Nat} (hLinked : Linked s (front ++ i :: k :: rest)) :
    SlotFits k := by
  apply hLinked.hFits
  simp only [mem_append, mem_cons, true_or, or_true]

theorem Linked.fits_prev (hLinked : Linked s (front ++ i :: rest)) (hFront : front ≠ []) :
    SlotFits (front.getLastD 0) := by
  apply hLinked.hFits
  rw [getLastD_eq_getLast?, getLast?_eq_some_getLast hFront]
  exact mem_append_left _ (getLast_mem hFront)

/- The state without a hole between a front and a rest. -/
def dropHole (s : Defrag) (front rest : List Nat) :
    Defrag :=
  { s with
    pktBuff := putEnds s.pktBuff front rest (front.getLastD 0) (rest.headD 0)
    firstHole := (front ++ rest).headD 0 }

section

variable (hLinked : Linked s (front ++ i :: rest))
include hLinked

theorem removeHole_last (hFront : linkedFront front = []) (hRest : rest = []) :
    removeHole s i = some (true, s) := by
  have hPrev : fieldOf s.pktBuff .prevHole i = 0 := by
    rw [hLinked.prev_eq, linkedFront_eq_nil.mp hFront]
  have hNext : fieldOf s.pktBuff .nextHole i = 0 := by
    rw [hLinked.next_eq, hRest]
    rfl
  have hIn := hLinked.fits_at
  rw [removeHole, getField_bind hIn, getField_bind hIn, hPrev, hNext, if_pos ⟨rfl, rfl⟩]

theorem removeHole_first (hFront : linkedFront front = []) (hRest : rest ≠ []) :
    removeHole s i = some (false, dropHole s [] rest) := by
  have hIn := hLinked.fits_at
  have hPrev := hLinked.prev_eq
  have hNonzero := headD_ne_zero hLinked.sorted_rest hRest
  rw [linkedFront_eq_nil.mp hFront] at hPrev
  rw [removeHole, getField_bind hIn, getField_bind hIn, hPrev,
    hLinked.next_eq, if_neg (fun hBoth => hNonzero hBoth.2),
    if_pos rfl]
  cases rest with
  | nil => exact absurd rfl hRest
  | cons k rest =>
    have hFits : SlotFits k := hLinked.fits_next
    rw [headD_cons, setField_map hFits]
    simp only [dropHole, putEnds, head?_cons, getLast?_nil, nil_append, headD_cons, getLastD_nil]

theorem removeHole_after (hZero : front.getLastD 0 ≠ 0) :
    removeHole s i = some (false, dropHole s front rest) := by
  have hIn := hLinked.fits_at
  have hPrev := hLinked.prev_eq
  have hNext := hLinked.next_eq
  have hSome : front ≠ [] := by
    rintro rfl
    exact hZero rfl
  have hLast := getLast?_eq_some_getLast hSome
  have hPrevFits := hLinked.fits_prev hSome
  have hHead : (front ++ rest).headD 0 = s.firstHole := by
    rw [hLinked.hFirst]
    cases front with
    | nil => exact absurd rfl hSome
    | cons k front => rfl
  rw [removeHole, getField_bind hIn, getField_bind hIn, hPrev,
    hNext, if_neg (fun hBoth => hZero hBoth.1), if_neg hZero]
  cases rest with
  | nil =>
    rw [headD_nil, if_pos rfl, setField_map hPrevFits]
    simp only [dropHole, putEnds, hHead, head?_nil, hLast, getLastD_eq_getLast?,
      getD_some, headD_nil]
  | cons k rest =>
    have hNonzero := headD_ne_zero hLinked.sorted_rest (cons_ne_nil k rest)
    have hFits : SlotFits k := hLinked.fits_next
    have hBound : front.getLastD 0 < 2 ^ 16 := hPrev ▸ fieldOf_lt _ _ _
    have hNe : i ≠ k := Nat.ne_of_lt ((pairwise_cons.mp hLinked.sorted_rest).1 k mem_cons_self)
    have hPrevSame :
        fieldOf (putField s.pktBuff k .prevHole (front.getLastD 0)) .prevHole i =
          front.getLastD 0 := by
      rw [fieldOf_putField_self _ _ _ hBound, update_of_ne hNe, hPrev]
    have hNextSame :
        fieldOf (putField s.pktBuff k .prevHole (front.getLastD 0)) .nextHole i = k := by
      rw [fieldOf_putField_ne _ _ _ (by decide), hNext, headD_cons]
    rw [if_neg hNonzero, headD_cons, setField_bind hFits, getField_bind hIn,
      getField_bind hIn, hPrevSame, hNextSame, setField_map hPrevFits]
    simp only [dropHole, putEnds, hHead, head?_cons, hLast, getLastD_eq_getLast?,
      getD_some, headD_cons]

theorem removeHole_eq (hMore : linkedFront front ++ rest ≠ []) :
    removeHole s i = some (false, dropHole s (linkedFront front) rest) := by
  by_cases hZero : front.getLastD 0 = 0
  · have hFront := linkedFront_eq_nil.mpr hZero
    rw [hFront, nil_append] at hMore
    rw [hFront]
    exact removeHole_first hLinked hFront hMore
  · have hFront : linkedFront front = front := if_neg hZero
    rw [hFront]
    exact removeHole_after hLinked hZero

end

theorem Linked.sorted_linkedFront (hLinked : Linked s (front ++ rest)) :
    (linkedFront front ++ rest).Pairwise (· < ·) :=
  hLinked.hSorted.sublist ((linkedFront_sublist front).append_right rest)

theorem Linked.mem_linkedFront {k : Nat} (hMem : k ∈ linkedFront front ++ rest) :
    k ∈ front ++ rest :=
  ((linkedFront_sublist front).append_right rest).subset hMem

theorem Linked.dropHole (hLinked : Linked s (front ++ i :: rest)) :
    Linked (dropHole s (linkedFront front) rest) (linkedFront front ++ rest) := by
  have hSorted := hLinked.sorted_linkedFront
  have hNodup : (linkedFront front ++ i :: rest).Nodup := hSorted.imp Nat.ne_of_lt
  have hLess : List.Sublist (linkedFront front ++ rest) (linkedFront front ++ i :: rest) :=
    (sublist_cons_self i rest).append_left _
  have hBefore : (linkedFront front).getLastD 0 < 2 ^ 16 := by
    rw [linkedFront_getLastD, ← hLinked.prev_eq]
    exact fieldOf_lt _ _ _
  have hAfter : rest.headD 0 < 2 ^ 16 := by
    rw [← hLinked.next_eq]
    exact fieldOf_lt _ _ _
  constructor
  · rfl
  · have hUnlinked := (segment_linkedFront hLinked.hSegment).unlink hNodup
    unfold Net.dropHole
    rwa [fieldOf_putEnds_next hAfter, fieldOf_putEnds_prev hBefore]
  · exact hSorted.sublist hLess
  · intro k hk
    exact hLinked.hFits k (Linked.mem_linkedFront (hLess.subset hk))

----
-- Moving A Hole
----

/- The state with a hole moved, after a front. -/
def replaceHole (s : Defrag) (front : List Nat) (i j : Nat) (rest : List Nat) :
    Defrag :=
  { s with
    pktBuff := putEnds (s.pktBuff.move (slot j) (slot i) 8) front rest j j
    firstHole := (front ++ j :: rest).headD 0 }

section

variable (hLinked : Linked s (front ++ i :: rest))
include hLinked

theorem moveHole_eq (hNew : SlotFits j) (hBefore : ∀ k ∈ rest, j < k) :
    moveHole s i j = some (replaceHole s (linkedFront front) i j rest) := by
  have hIn := hLinked.fits_at
  have hSmall : j < 2 ^ 16 := by
    rw [slotFits_iff] at hNew
    omega
  have hMoved : ∀ field,
      fieldOf (s.pktBuff.move (slot j) (slot i) 8) field j = fieldOf s.pktBuff field i := by
    intro field
    rw [fieldOf_move, update_self]
  -- The link to the hole after it does not change its own.
  have hPrev : ∀ k, k ≠ j → fieldOf (putField (s.pktBuff.move (slot j) (slot i) 8) k
        .prevHole j) .prevHole j = front.getLastD 0 := by
    intro k hk
    rw [fieldOf_putField_self _ _ _ hSmall, update_of_ne hk.symm, hMoved, hLinked.prev_eq]
  have hEnd : ∀ m, fieldOf m .prevHole j = front.getLastD 0 →
      (getField m j .prevHole).bind (fun prev =>
        if prev = 0 then
          some { s with pktBuff := m, firstHole := j }
        else
          (setField m prev .nextHole j).map fun m => { s with pktBuff := m }) =
        some
          { s with
            pktBuff := putEnds m (linkedFront front) [] j j
            firstHole := (linkedFront front ++ j :: rest).headD 0 } := by
    intro m hm
    rw [getField_bind hNew, hm]
    by_cases hZero : front.getLastD 0 = 0
    · have hFront := linkedFront_eq_nil.mpr hZero
      rw [if_pos hZero, hFront]
      rfl
    · have hFront : linkedFront front = front := if_neg hZero
      have hSome : front ≠ [] := by
        rintro rfl
        exact hZero rfl
      have hLast := getLast?_eq_some_getLast hSome
      have hHead : (front ++ j :: rest).headD 0 = s.firstHole := by
        rw [hLinked.hFirst]
        cases front with
        | nil => exact absurd rfl hSome
        | cons k front => rfl
      rw [if_neg hZero, setField_map (hLinked.fits_prev hSome), hFront, hHead]
      simp only [putEnds, hLast, head?_nil, getLastD_eq_getLast?, getD_some]
  rw [moveHole, copyHole_eq hIn hNew, bind_some, getField_bind hNew, hMoved, hLinked.next_eq,
    u16_nat hSmall]
  cases rest with
  | nil =>
    rw [headD_nil, if_pos rfl, bind_some]
    rw [hEnd _ ((hMoved _).trans hLinked.prev_eq)]
    rfl
  | cons k rest =>
    have hFits : SlotFits k := hLinked.fits_next
    have hNonzero := headD_ne_zero hLinked.sorted_rest (cons_ne_nil k rest)
    have hNe : k ≠ j := Nat.ne_of_gt (hBefore k mem_cons_self)
    rw [if_neg hNonzero, headD_cons, setField_bind hFits]
    rw [hEnd _ (hPrev k hNe)]
    rfl

theorem Linked.sorted_moved (hAfter : i < j) (hBefore : ∀ k ∈ rest, j < k) :
    (front ++ i :: j :: rest).Pairwise (· < ·) := by
  rcases pairwise_append.mp hLinked.hSorted with ⟨hFront, hTail, hBelow⟩
  rcases pairwise_cons.mp hTail with ⟨-, hRest⟩
  have hMoved : (j :: rest).Pairwise (· < ·) := pairwise_cons.mpr ⟨hBefore, hRest⟩
  have hFirst : ∀ k ∈ j :: rest, i < k := by
    intro k hk
    rcases mem_cons.mp hk with rfl | hk
    · exact hAfter
    · exact Nat.lt_trans hAfter (hBefore k hk)
  refine pairwise_append.mpr ⟨hFront, pairwise_cons.mpr ⟨hFirst, hMoved⟩, ?_⟩
  intro k hk n hn
  have hi := hBelow k hk i mem_cons_self
  rcases mem_cons.mp hn with rfl | hn
  · exact hi
  · exact Nat.lt_trans hi (hFirst n hn)

/- The copy of a descriptor does not change the links. -/
theorem Linked.segment_move (hNew : j ∉ front ++ i :: rest) :
    Segment (update (fieldOf s.pktBuff .nextHole) j (fieldOf s.pktBuff .nextHole i))
      (update (fieldOf s.pktBuff .prevHole) j (fieldOf s.pktBuff .prevHole i))
      0 0 (front ++ i :: rest) :=
  hLinked.hSegment.congr (fun _ hk => update_of_ne (ne_of_mem_of_not_mem hk hNew) _ _)
    (fun _ hk => update_of_ne (ne_of_mem_of_not_mem hk hNew) _ _)

theorem Linked.not_mem_moved (hAfter : i < j) (hBefore : ∀ k ∈ rest, j < k) :
    j ∉ front ++ i :: rest := by
  rcases pairwise_append.mp hLinked.hSorted with ⟨-, -, hBelow⟩
  intro hMem
  rcases mem_append.mp hMem with hFront | hTail
  · have hi := hBelow j hFront i mem_cons_self
    exact absurd hi (Nat.lt_asymm hAfter)
  · rcases mem_cons.mp hTail with rfl | hRest
    · exact absurd hAfter (Nat.lt_irrefl j)
    · exact absurd (hBefore j hRest) (Nat.lt_irrefl j)

theorem Linked.replaceHole (hNew : SlotFits j) (hAfter : i < j) (hBefore : ∀ k ∈ rest, j < k) :
    Linked (replaceHole s (linkedFront front) i j rest) (linkedFront front ++ j :: rest) := by
  have hSmall : j < 2 ^ 16 := by
    rw [slotFits_iff] at hNew
    omega
  have hSorted : (linkedFront front ++ j :: rest).Pairwise (· < ·) := by
    refine (hLinked.sorted_moved hAfter hBefore).sublist ?_
    exact List.Sublist.append (linkedFront_sublist front) (sublist_cons_self i (j :: rest))
  constructor
  · rfl
  · have hMoved := hLinked.segment_move (hLinked.not_mem_moved hAfter hBefore)
    have hRelinked :=
      (segment_linkedFront hMoved).relink (hSorted.imp Nat.ne_of_lt)
        (by rw [update_self, update_of_ne (Nat.ne_of_lt hAfter)])
        (by rw [update_self, update_of_ne (Nat.ne_of_lt hAfter)])
    unfold Net.replaceHole
    rwa [fieldOf_putEnds_next hSmall, fieldOf_putEnds_prev hSmall, fieldOf_move, fieldOf_move]
  · exact hSorted
  · intro k hk
    rcases mem_append.mp hk with hFront | hTail
    · exact hLinked.hFits k (mem_append_left _ ((linkedFront_sublist front).subset hFront))
    · rcases mem_cons.mp hTail with rfl | hRest
      · exact hNew
      · exact hLinked.hFits k (mem_append_right _ (mem_cons_of_mem i hRest))

end

----
-- Splitting A Hole
----

/- The state with a hole ended, and its end after another. -/
def insertHole (s : Defrag) (i j start : Nat) (rest : List Nat) :
    Defrag :=
  let m := s.pktBuff.move (slot j) (slot i) 8
  let m := putField m i .lastByte start
  let m := putField m i .nextHole j
  let m := putField m j .prevHole i
  { s with pktBuff := putEnds m [] rest j 0 }

theorem splitHole_eq {start : Nat} (hLinked : Linked s (front ++ i :: rest)) (hNew : SlotFits j)
    (hAfter : i < j) (hStart : start < 2 ^ 16) :
    splitHole s i j start = some (insertHole s i j start rest) := by
  have hIn := hLinked.fits_at
  have hSmall : j < 2 ^ 16 := by
    rw [slotFits_iff] at hNew
    omega
  have hNext :
      fieldOf (putField (putField (putField
        (s.pktBuff.move (slot j) (slot i) 8) i .lastByte start)
          i .nextHole j) j .prevHole i) .nextHole j =
        rest.headD 0 := by
    rw [fieldOf_putField_ne _ _ _ (by decide), fieldOf_putField_self _ _ _ hSmall,
      update_of_ne (Nat.ne_of_gt hAfter),
      fieldOf_putField_ne _ _ _ (by decide), fieldOf_move, update_self, hLinked.next_eq]
  rw [splitHole, copyHole_eq hIn hNew, bind_some, u16_nat hStart, u16_nat hSmall,
    u16_nat (Nat.lt_trans hAfter hSmall), setField_bind hIn, setField_bind hIn, setField_bind hNew,
    getField_bind hNew, hNext]
  cases rest with
  | nil =>
    rw [headD_nil, if_pos rfl, map_some]
    rfl
  | cons k rest =>
    have hFits : SlotFits k := hLinked.fits_next
    have hNonzero := headD_ne_zero hLinked.sorted_rest (cons_ne_nil k rest)
    rw [if_neg hNonzero, headD_cons, setField_map hFits]
    rfl

theorem Linked.insertHole
    {start : Nat} (hLinked : Linked s (front ++ i :: rest)) (hNew : SlotFits j)
    (hAfter : i < j) (hBefore : ∀ k ∈ rest, j < k) :
    Linked (insertHole s i j start rest) (front ++ i :: j :: rest) := by
  have hSmall : j < 2 ^ 16 := by
    rw [slotFits_iff] at hNew
    omega
  have hSorted := hLinked.sorted_moved hAfter hBefore
  have hNotMem := hLinked.not_mem_moved hAfter hBefore
  have hNe : i ≠ j := Nat.ne_of_lt hAfter
  constructor
  · unfold Net.insertHole
    rw [hLinked.hFirst]
    cases front <;> rfl
  · have hCopied :
        Segment (update (fieldOf s.pktBuff .nextHole) j (fieldOf s.pktBuff .nextHole i))
          (update (fieldOf s.pktBuff .prevHole) j i)
          0 0 (front ++ i :: rest) :=
      hLinked.hSegment.congr
        (fun _ hk => update_of_ne (ne_of_mem_of_not_mem hk hNotMem) _ _)
        (fun _ hk => update_of_ne (ne_of_mem_of_not_mem hk hNotMem) _ _)
    have hInserted :=
      hCopied.insert_after (hSorted.imp Nat.ne_of_lt)
        (by rw [update_self, update_of_ne hNe])
        (update_self _ _ _)
    unfold Net.insertHole
    rw [fieldOf_putEnds_next (by decide), fieldOf_putEnds_prev hSmall, updateLast_nil,
      fieldOf_putField_ne _ _ _ (by decide), fieldOf_putField_self _ _ _ hSmall,
      fieldOf_putField_ne _ _ _ (by decide), fieldOf_move,
      fieldOf_putField_self _ _ _ (Nat.lt_trans hAfter hSmall),
      fieldOf_putField_ne _ _ _ (by decide), fieldOf_putField_ne _ _ _ (by decide), fieldOf_move,
      update_idem]
    exact hInserted
  · exact hSorted
  · intro k hk
    rcases mem_append.mp hk with hFront | hTail
    · exact hLinked.hFits k (mem_append_left _ hFront)
    · rcases mem_cons.mp hTail with rfl | hTail
      · exact hLinked.fits_at
      · rcases mem_cons.mp hTail with rfl | hRest
        · exact hNew
        · exact hLinked.hFits k (mem_append_right _ (mem_cons_of_mem i hRest))

end Changes

end Uboot.Net
