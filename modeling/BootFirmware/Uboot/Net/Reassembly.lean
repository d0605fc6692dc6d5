import BootFirmware.Uboot.Net.Datagram

/-
  Reassembly of a datagram whose fragments arrive in any
  order, and more than once.

  The list of holes stands for the bytes that have not
  arrived, as long as no fragment takes the hole at the start
  of the packet out of the list.

  Key definitions include:
    * `Assembly` and `arriveStep`
    * `ArrivesOk`
    * `Kept`

  The main results are:
    * `netDefragment_kept`
    * `reassembly_delivers`
    * `reassembly_without_first`
-/

----
-- Bytes That Have Arrived
----

namespace Uboot.Net

open List

/- A byte of a piece that has arrived. -/
def HasByte (d : Datagram) (arrived : List Nat) (b : Nat) :
    Prop :=
  ∃ k ∈ arrived, k < d.count ∧ d.offset k ≤ b ∧ b < d.offset (k + 1)

/- The end of the packet is known with its last piece. -/
def limit (d : Datagram) (arrived : List Nat) : Nat :=
  if d.count - 1 ∈ arrived then d.payload.length else 0xffff

/- All the pieces have arrived. -/
def Whole (d : Datagram) (arrived : List Nat) : Prop :=
  ∀ k < d.count, k ∈ arrived

instance (d : Datagram) (arrived : List Nat) : Decidable (Whole d arrived) :=
  inferInstanceAs (Decidable (∀ k < d.count, k ∈ arrived))

/-
  A piece that would take the start of the packet out of the
  list: the pieces from some `j` on up to it are there, and
  none of those before `j`, which are the first hole.
-/
def HidesFirst (d : Datagram) (arrived : List Nat)
    (k : Nat) : Prop :=
  k < d.count ∧ k ∉ arrived ∧ ∃ j < k, 0 < j ∧ (∀ i < j, i ∉ arrived) ∧ ∀ i < k, j ≤ i → i ∈ arrived

instance (d : Datagram) (arrived : List Nat) (k : Nat) : Decidable (HidesFirst d arrived k) :=
  inferInstanceAs (Decidable (_ ∧ _ ∧ ∃ j < k, _))

/- An empty last piece, and the one that it comes before. -/
def EndsInTime (d : Datagram) (arrived : List Nat)
    (k : Nat) : Prop :=
  d.piece (d.count - 1) = [] → 1 < d.count ∧ (k + 2 = d.count → d.count - 1 ∈ arrived)

instance (d : Datagram) (arrived : List Nat) (k : Nat) : Decidable (EndsInTime d arrived k) :=
  inferInstanceAs (Decidable (_ → _))

/- The holes are apart from each other. -/
def Strict (holes : List Hole) : Prop :=
  holes.Pairwise fun h h' => h.last < h'.start

/- What the buffer holds of a datagram. -/
structure Kept
    (d : Datagram) (arrived : List Nat) (s : Defrag)
    (holes : List Hole) : Prop where
  hRep : holes ≠ [] → Represents s holes
  hSpaced : Spaced holes
  hStrict : Strict holes
  hMissing : ∀ b, Missing holes b ↔ b < limit d arrived ∧ ¬HasByte d arrived b
  hData : ∀ b, HasByte d arrived b → s.pktBuff (IP_HDR_SIZE + b) = d.payload.getD b 0
  hTotal : s.totalLen = limit d arrived
  hId : s.ipId = d.id
  hEnds : d.piece (d.count - 1) = [] → d.count - 2 ∈ arrived → d.count - 1 ∈ arrived

section Bytes

variable {d : Datagram} {arrived : List Nat} {k b : Nat}

theorem limit_ge : d.payload.length ≤ limit d arrived := by
  have hTotal := d.payload_le
  unfold limit
  split_ifs <;> omega

theorem hasByte_lt (hHas : HasByte d arrived b) :
    b < d.payload.length := by
  rcases hHas with ⟨k, -, hk, -, hb⟩
  exact Nat.lt_of_lt_of_le hb (d.offset_le hk)

theorem hasByte_iff (hk : k < d.count) (hb : d.offset k ≤ b ∧ b < d.offset (k + 1)) :
    HasByte d arrived b ↔ k ∈ arrived := by
  constructor
  · rintro ⟨j, hj, hCount, hIn⟩
    rwa [d.piece_unique hk hCount hb hIn]
  · exact fun hMem => ⟨k, hMem, hk, hb⟩

theorem hasByte_cons (hk : k < d.count) :
    HasByte d (k :: arrived) b ↔ (d.offset k ≤ b ∧ b < d.offset (k + 1)) ∨ HasByte d arrived b := by
  constructor
  · rintro ⟨j, hj, hCount, hIn⟩
    rcases mem_cons.mp hj with rfl | hj
    · exact .inl hIn
    · exact .inr ⟨j, hj, hCount, hIn⟩
  · rintro (hIn | ⟨j, hj, hCount, hIn⟩)
    · exact ⟨k, mem_cons_self, hk, hIn⟩
    · exact ⟨j, mem_cons_of_mem k hj, hCount, hIn⟩

/- A piece that is not the last does not end the packet. -/
theorem limit_cons_more (hMore : k + 1 < d.count) :
    limit d (k :: arrived) = limit d arrived := by
  have hNe : d.count - 1 ≠ k := by omega
  unfold limit
  simp only [mem_cons, hNe, false_or]

theorem limit_cons_last (hLast : k + 1 = d.count) :
    limit d (k :: arrived) = d.payload.length := by
  have hEq : d.count - 1 = k := by omega
  unfold limit
  rw [hEq, if_pos mem_cons_self]

theorem limit_cons_mem (hMem : k ∈ arrived) :
    limit d (k :: arrived) = limit d arrived := by
  have hIff : d.count - 1 ∈ k :: arrived ↔ d.count - 1 ∈ arrived := by
    rw [mem_cons]
    constructor
    · rintro (hEq | hIn)
      · rwa [hEq]
      · exact hIn
    · exact .inr
  unfold limit
  simp only [hIff]

end Bytes

----
-- Holes And Missing Bytes
----

section Holes

variable {holes front rest : List Hole} {h : Hole} {f : Fragment}

theorem missing_append {b : Nat} :
    Missing (front ++ h :: rest) b ↔
      Missing front b ∨ (h.start ≤ b ∧ b < h.last) ∨ Missing rest b := by
  constructor
  · rintro ⟨k, hk, hIn⟩
    rcases mem_append.mp hk with hFront | hTail
    · exact .inl ⟨k, hFront, hIn⟩
    · rcases mem_cons.mp hTail with rfl | hRest
      · exact .inr (.inl hIn)
      · exact .inr (.inr ⟨k, hRest, hIn⟩)
  · rintro (⟨k, hk, hIn⟩ | hIn | ⟨k, hk, hIn⟩)
    · exact ⟨k, mem_append_left _ hk, hIn⟩
    · exact ⟨h, mem_append_right _ mem_cons_self, hIn⟩
    · exact ⟨k, mem_append_right _ (mem_cons_of_mem h hk), hIn⟩

theorem Spaced.missing_start (hSpaced : Spaced holes) (hMem : h ∈ holes) :
    Missing holes h.start := by
  have hRoom := hSpaced.hRoom h hMem
  exact ⟨h, hMem, Nat.le_refl _, by omega⟩

section

variable (hStrict : Strict (front ++ h :: rest))
include hStrict

theorem Strict.front_lt : ∀ k ∈ front, k.last < h.start :=
  fun k hk => (pairwise_append.mp hStrict).2.2 k hk h mem_cons_self

theorem Strict.rest_lt : ∀ k ∈ rest, h.last < k.start :=
  (pairwise_cons.mp (pairwise_append.mp hStrict).2.1).1

/- The byte after a hole is not missing. -/
theorem Strict.not_missing_last (hRoom : h.start ≤ h.last) :
    ¬Missing (front ++ h :: rest) h.last := by
  rw [missing_append]
  rintro (⟨k, hk, -, hLast⟩ | ⟨-, hLast⟩ | ⟨k, hk, hStart, -⟩)
  · have hBefore := hStrict.front_lt k hk
    omega
  · exact absurd hLast (Nat.lt_irrefl _)
  · have hAfter := hStrict.rest_lt k hk
    omega

end

theorem exists_hole {a n : Nat} (hSpaced : Spaced holes) (hStrict : Strict holes) (hSome : a < n)
    (hRange : ∀ b, a ≤ b → b < n → Missing holes b) :
    ∃ front h rest, holes = front ++ h :: rest ∧ h.start ≤ a ∧ n ≤ h.last := by
  rcases hRange a (Nat.le_refl a) hSome with ⟨h, hMem, hStart, hLast⟩
  rcases append_of_mem hMem with ⟨front, rest, rfl⟩
  refine ⟨front, h, rest, rfl, hStart, ?_⟩
  by_contra hShort
  exact hStrict.not_missing_last (by omega)
    (hRange h.last (Nat.le_of_lt hLast) (Nat.not_le.mp hShort))

/- The hole that a fragment meets, named in the list. -/
theorem met_eq (hFront : ∀ k ∈ front, k.last < f.start) (hMet : f.start ≤ h.last) :
    met f (front ++ h :: rest) = h :: rest ∧ passed f (front ++ h :: rest) = front := by
  have hPassed : ∀ k ∈ front, decide (k.last < f.start) = true :=
    fun k hk => decide_eq_true (hFront k hk)
  have hStops : decide (h.last < f.start) = false := decide_eq_false (Nat.not_lt.mpr hMet)
  unfold met passed
  constructor
  · rw [dropWhile_append_of_pos hPassed, dropWhile_cons_of_neg (by rw [hStops]; decide)]
  · rw [takeWhile_append_of_pos hPassed, takeWhile_cons_of_neg (by rw [hStops]; decide), append_nil]

/- The holes before the one that is met stay in the list. -/
def KeepsFront (f : Fragment) (front : List Hole)
    (h : Hole) : Prop :=
  f.offset8 ≤ h.index → keptFront front = front

theorem strict_fixedHoles (hMeets : Meets f front h rest) (hStrict : Strict (front ++ h :: rest))
    (hPos : f.more = true → 0 < f.len) :
    Strict (fixedHoles f front (h.endedBy f) rest) := by
  refine hMeets.pairwise_fixed Nat.lt_of_le_of_lt Nat.lt_of_lt_of_le hStrict fun hLt => ?_
  rcases hMeets.newh_eq hLt with ⟨j, hj, hStop, -⟩
  have hLen := hPos (hMeets.more_of_lt hLt).1
  rw [hj, Int.toNat_natCast]
  unfold Fragment.stop at hStop
  omega

theorem missing_nil {b : Nat} :
    ¬Missing [] b :=
  fun ⟨_, hMem, _⟩ => absurd hMem not_mem_nil

theorem missing_cons {b : Nat} :
    Missing (h :: rest) b ↔ (h.start ≤ b ∧ b < h.last) ∨ Missing rest b := by
  have hCons := @missing_append [] rest h b
  simpa only [nil_append, missing_nil, false_or] using hCons

/- Holes beside a fragment, and what is left of one. -/
theorem part_iff {front hole rest part inside : Prop}
    (hFront : front → ¬inside) (hRest : rest → ¬inside) (hPart : part ↔ hole ∧ ¬inside) :
    (front ∨ part ∨ rest) ↔ (front ∨ hole ∨ rest) ∧ ¬inside := by
  rw [hPart]
  constructor
  · rintro (hIn | ⟨hIn, hOut⟩ | hIn)
    · exact ⟨.inl hIn, hFront hIn⟩
    · exact ⟨.inr (.inl hIn), hOut⟩
    · exact ⟨.inr (.inr hIn), hRest hIn⟩
  · rintro ⟨hIn | hIn | hIn, hOut⟩
    · exact .inl hIn
    · exact .inr (.inl ⟨hIn, hOut⟩)
    · exact .inr (.inr hIn)

section

variable (hMeets : Meets f front h rest)
include hMeets

/- The place of the hole after a fragment. -/
theorem Meets.newh_start (hLt : f.stop < (h.endedBy f).last) :
    (8 * f.newh.toNat : Int) = f.stop := by
  rcases hMeets.newh_eq hLt with ⟨j, hj, hStop, -⟩
  rw [hj, Int.toNat_natCast, hStop]
  rfl

theorem Meets.start_le_last : f.start ≤ (h.endedBy f).last := by
  have hMet := hMeets.hMet
  have hLe := hMeets.start_le_stop
  have hEnd := hMeets.last_endedBy
  cases hMore : f.more with
  | true =>
    rw [hMore, if_pos rfl] at hEnd
    omega
  | false =>
    rw [hMore, if_neg Bool.false_ne_true] at hEnd
    omega

/- The hole that was met, without the fragment. -/
theorem missing_fixedHoles {b : Nat} (hKeeps : KeepsFront f front h) :
    Missing (fixedHoles f front (h.endedBy f) rest) b ↔
      (Missing front b ∨ (h.start ≤ b ∧ b < (h.endedBy f).last) ∨ Missing rest b) ∧
      ¬(f.start ≤ b ∧ (b : Int) < f.stop) := by
  have hReach := hMeets.start_lt_stop
  have hShort := hMeets.start_le_last
  have hFrontOut : Missing front b → ¬(f.start ≤ b ∧ (b : Int) < f.stop) := by
    rintro ⟨k, hk, -, hLast⟩
    have hBefore := hMeets.hFront k hk
    omega
  have hRestOut : Missing rest b → ¬(f.start ≤ b ∧ (b : Int) < f.stop) := by
    rintro ⟨k, hk, hStart, -⟩
    have hAfter := hMeets.hFits.2.1 k hk
    omega
  have hFirstIff : f.offset8 ≤ h.index ↔ f.start ≤ h.start := by
    unfold Fragment.start Hole.start
    omega
  unfold fixedHoles
  rw [endedBy_index]
  split_ifs with hDrop hLast hFirst
  · have hApp : Missing (front ++ rest) b ↔ Missing front b ∨ False ∨ Missing rest b := by
      unfold Missing
      simp only [mem_append, or_and_right, exists_or, false_or]
    rw [hKeeps hDrop.1, hApp]
    refine part_iff hFrontOut hRestOut ?_
    constructor
    · exact False.elim
    · omega
  · rw [missing_append]
    refine part_iff hFrontOut hRestOut ?_
    change (h.start ≤ b ∧ b < f.start) ↔ _
    omega
  · have hPlace := hMeets.newh_start (Int.not_le.mp hLast)
    rw [hKeeps hFirst, missing_append]
    refine part_iff hFrontOut hRestOut ?_
    change (8 * f.newh.toNat ≤ b ∧ b < (h.endedBy f).last) ↔ _
    omega
  · have hPlace := hMeets.newh_start (Int.not_le.mp hLast)
    rw [missing_append, missing_cons, ← or_assoc (a := _ ∧ _)]
    refine part_iff hFrontOut hRestOut ?_
    change (h.start ≤ b ∧ b < f.start) ∨ (8 * f.newh.toNat ≤ b ∧ b < (h.endedBy f).last) ↔ _
    omega

end

end Holes

----
-- The Hole That A Fragment Meets
----

section Step

variable {d : Datagram} {arrived : List Nat} {s : Defrag} {holes : List Hole} {k : Nat}
  {f : Fragment}

theorem Cuts.offset_succ (hCuts : Cuts d k f) :
    d.offset (k + 1) = d.offset k + (d.piece k).length :=
  d.offset_succ hCuts.hPiece

theorem Cuts.last_of_empty (hCuts : Cuts d k f) (hEmpty : f.len = 0) :
    k + 1 = d.count := by
  have hLt := hCuts.hPiece
  by_contra hNot
  have hPos : 0 < (d.piece k).length :=
    (d.hAligned k (Nat.lt_of_le_of_ne (Nat.succ_le_of_lt hLt) hNot)).1
  have hLen := hCuts.hLen
  omega

theorem not_hasByte {b : Nat}
    (hPiece : k < d.count) (hNew : k ∉ arrived) (hb : d.offset k ≤ b ∧ b < d.offset (k + 1)) :
    ¬HasByte d arrived b :=
  fun hHas => hNew ((hasByte_iff hPiece hb).mp hHas)

section

variable (hKept : Kept d arrived s holes)
include hKept

theorem new_hole_of_some (hCuts : Cuts d k f) (hNew : k ∉ arrived) (hSome : 0 < f.len) :
    ∃ front h rest, holes = front ++ h :: rest ∧ h.start ≤ f.start ∧ f.stop ≤ h.last := by
  have hStop := hCuts.hStop
  have hSucc := hCuts.offset_succ
  have hLen := hCuts.hLen
  have hEnd : d.offset (k + 1) ≤ d.payload.length := d.offset_le hCuts.hPiece
  have hLimit : d.payload.length ≤ limit d arrived := limit_ge
  have hRange : ∀ b, d.offset k ≤ b → b < d.offset (k + 1) → Missing holes b := by
    intro b hLow hHigh
    exact (hKept.hMissing b).mpr ⟨by omega, not_hasByte hCuts.hPiece hNew ⟨hLow, hHigh⟩⟩
  rcases exists_hole hKept.hSpaced hKept.hStrict (by omega) hRange with
    ⟨front, h, rest, hEq, hStart, hLast⟩
  refine ⟨front, h, rest, hEq, ?_, ?_⟩
  · rwa [hCuts.hStart]
  · omega

/-
  An empty last piece comes before the one that it follows,
  so that the hole of that one has its place.
-/
theorem new_hole_of_empty
    (hCuts : Cuts d k f) (hNew : k ∉ arrived) (hEmpty : f.len = 0) (hMany : 1 < d.count) :
    ∃ front h rest, holes = front ++ h :: rest ∧ h.start < f.start ∧ f.stop ≤ h.last := by
  have hLast := hCuts.last_of_empty hEmpty
  have hLen := hCuts.hLen
  have hStop := hCuts.hStop
  have hStart := hCuts.hStart
  have hEnd : d.count - 1 = k := by omega
  have hEmptyPiece : d.piece (d.count - 1) = [] := by
    rw [hEnd]
    exact length_eq_zero_iff.mp (by omega)
  have hPrevious : d.count - 2 ∉ arrived := by
    intro hMem
    have hIn := hKept.hEnds hEmptyPiece hMem
    rw [hEnd] at hIn
    exact hNew hIn
  have hPrevSucc : d.count - 2 + 1 = k := by omega
  have hBefore : d.offset (d.count - 2) < d.offset k := by
    have hLt := d.offset_lt_succ (k := d.count - 2)
      (by omega)
    rwa [hPrevSucc] at hLt
  have hSucc := hCuts.offset_succ
  have hPayload : d.offset k = d.payload.length := by
    rw [← d.offset_count, ← hLast]
    omega
  have hTotal := d.payload_le
  have hLimit : limit d arrived = 0xffff := by
    unfold limit
    rw [hEnd, if_neg hNew]
  have hRange : ∀ b, d.offset (d.count - 2) ≤ b → b < d.offset k + 1 → Missing holes b := by
    intro b hLow hHigh
    refine (hKept.hMissing b).mpr ⟨by omega, ?_⟩
    intro hHas
    have hLt := hasByte_lt hHas
    refine not_hasByte (by omega) hPrevious ⟨hLow, ?_⟩ hHas
    rw [hPrevSucc, hPayload]
    exact hLt
  rcases exists_hole hKept.hSpaced hKept.hStrict (by omega) hRange with
    ⟨front, h, rest, hEq, hHole, hHoleLast⟩
  refine ⟨front, h, rest, hEq, ?_, ?_⟩
  · omega
  · omega

/- A piece that has not arrived meets its hole. -/
theorem new_meets (hCuts : Cuts d k f) (hNew : k ∉ arrived) (hEnds : EndsInTime d arrived k) :
    ∃ h rest, met f holes = h :: rest ∧ ignored f h = false ∧ h.start ≤ f.start ∧
      f.stop ≤ h.last ∧ (f.len = 0 → h.start < f.start) := by
  have hLen := hCuts.hLen
  have hHole : ∃ front h rest, holes = front ++ h :: rest ∧ h.start ≤ f.start ∧ f.stop ≤ h.last ∧
      (f.len = 0 → h.start < f.start) := by
    by_cases hEmpty : f.len = 0
    · have hLast := hCuts.last_of_empty hEmpty
      have hEnd : d.count - 1 = k := by omega
      have hMany : 1 < d.count := by
        refine (hEnds ?_).1
        rw [hEnd]
        exact length_eq_zero_iff.mp (by omega)
      rcases new_hole_of_empty hKept hCuts hNew hEmpty hMany with
        ⟨front, h, rest, hEq, hStart, hStop⟩
      exact ⟨front, h, rest, hEq, Nat.le_of_lt hStart, hStop, fun _ => hStart⟩
    · rcases new_hole_of_some hKept hCuts hNew (by omega) with ⟨front, h, rest, hEq, hStart, hStop⟩
      exact ⟨front, h, rest, hEq, hStart, hStop, fun hZero => absurd hZero hEmpty⟩
  rcases hHole with ⟨front, h, rest, rfl, hStart, hStop, hEmpty⟩
  have hBefore := hKept.hStrict.front_lt
  have hReach : (f.start : Int) ≤ f.stop := by
    unfold Fragment.stop
    omega
  have hMet : met f (front ++ h :: rest) = h :: rest ∧ passed f (front ++ h :: rest) = front :=
    met_eq (fun g hg => Nat.lt_of_lt_of_le (hBefore g hg) hStart) (by omega)
  refine ⟨h, rest, hMet.1, ?_, hStart, hStop, hEmpty⟩
  apply decide_eq_false
  rw [Int.tdiv_eq_ediv_of_nonneg (by omega)]
  unfold Hole.start Fragment.start at hStart hEmpty
  omega

end

variable {h : Hole} {rest : List Hole}

theorem mem_of_met (hMet : met f holes = h :: rest) :
    holes = passed f holes ++ h :: rest := by
  rw [← hMet]
  exact (passed_append_met f holes).symm

section

variable (hKept : Kept d arrived s holes)
include hKept

/- A piece that comes again meets the hole before it. -/
theorem old_meets (hCuts : Cuts d k f) (hOld : k ∈ arrived)
    (hMet : met f holes = h :: rest) (hNew : ignored f h = false) :
    h.last = f.start ∧ h.start < f.start := by
  have hMem : h ∈ holes := by
    rw [mem_of_met hMet]
    exact mem_append_right _ mem_cons_self
  have hRoom := hKept.hSpaced.hRoom h hMem
  have hReach := met_head_last hMet
  have hStart := hCuts.hStart
  have hLen := hCuts.hLen
  have hSucc := hCuts.offset_succ
  have hPresent : ∀ b, d.offset k ≤ b → b < d.offset (k + 1) → ¬Missing holes b := by
    intro b hLow hHigh hMissing
    exact ((hKept.hMissing b).mp hMissing).2 ⟨k, hOld, hCuts.hPiece, hLow, hHigh⟩
  have hLast : h.last = f.start := by
    by_contra hNe
    by_cases hBefore : h.start ≤ f.start
    · have hMissing : Missing holes f.start := ⟨h, hMem, hBefore, by omega⟩
      by_cases hEmpty : f.len = 0
      · have hEnd := hCuts.last_of_empty hEmpty
        have hIndex : d.count - 1 = k := by omega
        have hLimit : limit d arrived = d.payload.length := by
          unfold limit
          rw [hIndex, if_pos hOld]
        have hPayload : d.offset (k + 1) = d.payload.length := by rw [hEnd, d.offset_count]
        have hBelow := ((hKept.hMissing _).mp hMissing).1
        omega
      · exact hPresent f.start (by omega) (by omega) hMissing
    · have hIgnored := of_decide_eq_false hNew
      rw [Int.tdiv_eq_ediv_of_nonneg (by omega)] at hIgnored
      have hInside : d.offset k ≤ h.start ∧ h.start < d.offset (k + 1) := by
        unfold Hole.start Fragment.start at *
        omega
      exact hPresent h.start hInside.1 hInside.2 (hKept.hSpaced.missing_start hMem)
  exact ⟨hLast, by omega⟩

/- The fragment of a piece leaves the other holes alone. -/
theorem kept_fits (hCuts : Cuts d k f) (hEnds : EndsInTime d arrived k) (hSome : holes ≠ []) :
    Fits f holes := by
  refine ⟨hSome, ?_⟩
  intro h hHead
  cases hMet : met f holes with
  | nil =>
    rw [hMet] at hHead
    exact absurd hHead (by nofun)
  | cons g rest =>
    rw [hMet] at hHead
    have hEq : g = h := Option.some.inj hHead
    subst hEq
    cases hIgnored : ignored f g with
    | true => exact .inl rfl
    | false =>
      refine .inr ?_
      rw [tail_cons]
      have hHoles := mem_of_met hMet
      have hStrict := hKept.hStrict
      rw [hHoles] at hStrict
      have hAfter := hStrict.rest_lt
      have hLen := hCuts.hLen
      have hStop := hCuts.hStop
      have hStart := hCuts.hStart
      have hSucc := hCuts.offset_succ
      have hEnd : d.offset (k + 1) ≤ d.payload.length := d.offset_le hCuts.hPiece
      have hTotal := d.payload_le
      by_cases hOld : k ∈ arrived
      · have hBefore := old_meets hKept hCuts hOld hMet hIgnored
        refine ⟨by omega, ?_, ?_⟩
        · intro r hr
          have hNext := hAfter r hr
          by_contra hInside
          have hMem : r ∈ holes := by
            rw [hHoles]
            exact mem_append_right _ (mem_cons_of_mem g hr)
          have hMissing := hKept.hSpaced.missing_start hMem
          exact ((hKept.hMissing _).mp hMissing).2 ⟨k, hOld, hCuts.hPiece, by omega, by omega⟩
        · intro _ hShort
          omega
      · rcases new_meets hKept hCuts hOld hEnds with ⟨h, more, hMet', -, hLow, hHigh, -⟩
        rw [hMet] at hMet'
        have hSame : g = h := (List.cons.inj hMet').1
        subst hSame
        refine ⟨by omega, ?_, ?_⟩
        · intro r hr
          have hNext := hAfter r hr
          omega
        · intro hMore hShort
          rw [hCuts.hMore, decide_eq_true_eq] at hMore
          have hAligned : (d.piece k).length % 8 = 0 := (d.hAligned k hMore).2
          have hOffset := d.offset_aligned hMore
          refine ⟨by omega, ?_⟩
          have hMax : IP_MAXUDP = 16364 := rfl
          -- The last 8 bytes are those of the last piece.
          by_contra hFull
          have hFullEnd : d.offset (k + 1) = d.payload.length := by omega
          have hEmpty : k + 2 = d.count := by
            by_contra hNot
            have hLt := d.offset_lt_succ (k := k + 1)
              (by omega)
            have hLe := d.offset_le (k := k + 1 + 1)
              (by omega)
            omega
          have hLast : d.count - 1 = k + 1 := by omega
          have hNone : d.piece (d.count - 1) = [] := by
            have hSuccLast := d.offset_succ (k := k + 1)
              (by omega)
            have hCount :
                d.offset (k + 1 + 1) = d.payload.length := by
              rw [hEmpty, d.offset_count]
            rw [hLast]
            exact length_eq_zero_iff.mp (by omega)
          have hKnown := (hEnds hNone).2 hEmpty
          have hMem : g ∈ holes := by
            rw [hHoles]
            exact mem_append_right _ mem_cons_self
          have hMissing : Missing holes (d.offset (k + 1)) := ⟨g, hMem, by omega, by omega⟩
          have hBelow := ((hKept.hMissing _).mp hMissing).1
          unfold limit at hBelow
          rw [if_pos hKnown] at hBelow
          omega

theorem first_byte {i : Nat} (hi : i + 1 < d.count) :
    Missing holes (d.offset i) ↔ i ∉ arrived := by
  have hLt := d.offset_lt_succ hi
  have hEnd : d.offset (i + 1) ≤ d.payload.length := d.offset_le (Nat.le_of_lt hi)
  have hLimit : d.payload.length ≤ limit d arrived := limit_ge
  have hIff : HasByte d arrived (d.offset i) ↔ i ∈ arrived :=
    hasByte_iff (Nat.lt_of_succ_lt hi) ⟨Nat.le_refl _, hLt⟩
  rw [hKept.hMissing, hIff]
  exact and_iff_right (by omega)

end

/-
  The front of the list is only lost to a piece that hides
  the first ones.
-/
theorem hidesFirst_of_lost
    {h g : Hole} (hKept : Kept d arrived s (g :: h :: rest)) (hCuts : Cuts d k f)
    (hNew : k ∉ arrived) (hFirst : g.index = 0) (hStart : h.start = f.start) :
    HidesFirst d arrived k := by
  have hStrict := hKept.hStrict
  have hRoomFirst := hKept.hSpaced.hRoom g mem_cons_self
  have hRoom := hKept.hSpaced.hRoom h (mem_cons_of_mem g mem_cons_self)
  have hZero : g.start = 0 := by
    unfold Hole.start
    omega
  have hBefore : g.last < h.start := (pairwise_cons.mp hStrict).1 h mem_cons_self
  have hAfter : ∀ r ∈ rest, h.last < r.start := (pairwise_cons.mp (pairwise_cons.mp hStrict).2).1
  have hLow : ∀ b, b < g.last → Missing (g :: h :: rest) b :=
    fun b hb => ⟨g, mem_cons_self, by omega, hb⟩
  have hBetween : ∀ b, g.last ≤ b → b < h.start → ¬Missing (g :: h :: rest) b := by
    intro b hLast hNext
    rw [missing_cons, missing_cons]
    rintro (hIn | hIn | ⟨r, hr, hIn, -⟩)
    · omega
    · omega
    · have hFar := hAfter r hr
      omega
  rw [hStart, hCuts.hStart] at hBefore hBetween
  have hPayload : d.offset k ≤ d.payload.length := d.offset_le (Nat.le_of_lt hCuts.hPiece)
  have hLimit : d.payload.length ≤ limit d arrived := limit_ge
  have hHas : HasByte d arrived g.last := by
    by_contra hNot
    exact hBetween g.last (Nat.le_refl _) hBefore ((hKept.hMissing _).mpr ⟨by omega, hNot⟩)
  rcases hHas with ⟨j, hMem, hCount, hFrom, hTo⟩
  have hLt : j < k := by
    by_contra hNot
    have hLe := d.offset_mono (Nat.not_lt.mp hNot) (Nat.le_of_lt hCount)
    omega
  have hPiece := hCuts.hPiece
  have hEq : d.offset j = g.last := by
    by_contra hNe
    have hMissing := hLow (d.offset j) (by omega)
    exact (first_byte hKept (by omega)).mp hMissing hMem
  refine ⟨hCuts.hPiece, hNew, j, hLt, ?_, ?_, ?_⟩
  · rcases Nat.eq_zero_or_pos j with rfl | hPos
    · rw [d.offset_zero] at hEq
      omega
    · exact hPos
  · intro i hi
    have hLess := d.offset_strict hi hCount
    exact (first_byte hKept (by omega)).mp (hLow _ (by omega))
  · intro i hi hFromJ
    have hLe := d.offset_mono hFromJ (by omega)
    have hLess := d.offset_strict hi hCuts.hPiece
    by_contra hOut
    exact hBetween (d.offset i) (by omega) hLess ((first_byte hKept (by omega)).mpr hOut)

theorem kept_keepsFront (hKept : Kept d arrived s holes) (hCuts : Cuts d k f)
    (hEnds : EndsInTime d arrived k) (hHides : ¬HidesFirst d arrived k)
    (hMet : met f holes = h :: rest) (hFresh : ignored f h = false) :
    KeepsFront f (passed f holes) h := by
  intro hBefore
  have hStart : f.start ≤ h.start := by
    unfold Fragment.start Hole.start
    omega
  unfold keptFront
  split_ifs with hLost
  · by_contra hSome
    have hNew : k ∉ arrived := by
      intro hOld
      have hShort := (old_meets hKept hCuts hOld hMet hFresh).2
      omega
    rcases new_meets hKept hCuts hNew hEnds with ⟨h', rest', hMet', -, hLow, -, -⟩
    rw [hMet] at hMet'
    have hSame : h = h' := (List.cons.inj hMet').1
    subst hSame
    rcases eq_nil_or_concat (passed f holes) with
      hNil | ⟨init, g, hFront⟩
    · exact hSome hNil.symm
    · rw [concat_eq_append] at hFront
      have hFirst : g.index = 0 := by
        rw [hFront, indices_append] at hLost
        simpa [indices] using hLost
      have hHoles := mem_of_met hMet
      rw [hFront, append_assoc] at hHoles
      have hStrict := hKept.hStrict
      rw [hHoles] at hStrict
      have hInit : init = [] := by
        rw [eq_nil_iff_forall_not_mem]
        intro r hr
        have hLess := hStrict.front_lt r hr
        unfold Hole.start at hLess
        omega
      rw [hInit] at hHoles
      rw [hHoles] at hKept
      exact hHides (hidesFirst_of_lost hKept hCuts hNew hFirst (Nat.le_antisymm hLow hStart))
  · rfl

----
-- One Arrival
----

theorem Cuts.inside_iff {b : Nat} (hCuts : Cuts d k f) :
    (f.start ≤ b ∧ (b : Int) < f.stop) ↔ (d.offset k ≤ b ∧ b < d.offset (k + 1)) := by
  rw [hCuts.hStart, hCuts.hStop, Int.ofNat_lt]

theorem Cuts.last_of_not_more (hCuts : Cuts d k f) (hMore : f.more = false) :
    k + 1 = d.count ∧ d.offset (k + 1) = d.payload.length := by
  have hPiece := hCuts.hPiece
  have hNot := hCuts.hMore
  rw [hMore] at hNot
  have hLast : k + 1 = d.count := by
    have hFalse := of_decide_eq_false hNot.symm
    omega
  exact ⟨hLast, by rw [hLast, d.offset_count]⟩

section

variable (hKept : Kept d arrived s holes)
include hKept

/- Nothing is missing after the last piece. -/
theorem rest_nil_of_last
    (hCuts : Cuts d k f) (hMet : met f holes = h :: rest) (hMeets : Meets f (passed f holes) h rest)
    (hMore : f.more = false) :
    rest = [] := by
  rcases hCuts.last_of_not_more hMore with ⟨hLast, hPayload⟩
  have hHoles := mem_of_met hMet
  have hStrict := hKept.hStrict
  rw [hHoles] at hStrict
  have hStop := hCuts.hStop
  have hStart := hCuts.hStart
  have hReach := met_head_last hMet
  rw [eq_nil_iff_forall_not_mem]
  intro r hr
  have hMem : r ∈ holes := by
    rw [hHoles]
    exact mem_append_right _ (mem_cons_of_mem h hr)
  have hAfter := hStrict.rest_lt r hr
  have hApart := hMeets.hFits.2.1 r hr
  have hBelow := ((hKept.hMissing _).mp (hKept.hSpaced.missing_start hMem)).1
  have hEnd : d.count - 1 = k := by omega
  unfold limit at hBelow
  split_ifs at hBelow with hKnown
  · omega
  · have hRoom := hMeets.room.2.2
    have hOut := hStrict.not_missing_last (by omega)
    rw [← hHoles, hKept.hMissing] at hOut
    have hHas : HasByte d arrived h.last := by
      by_contra hNot
      refine hOut ⟨?_, hNot⟩
      unfold limit
      rw [if_neg hKnown]
      omega
    rcases hHas with ⟨j, hj, hCount, -, hTo⟩
    have hNe : j ≠ k := by
      rintro rfl
      rw [hEnd] at hKnown
      exact hKnown hj
    have hLe : d.offset (j + 1) ≤ d.offset k := d.offset_mono (by omega) (by omega)
    omega

/- The bytes that are missing after a fragment. -/
theorem kept_missing {b : Nat}
    (hCuts : Cuts d k f) (hMet : met f holes = h :: rest) (hMeets : Meets f (passed f holes) h rest)
    (hKeeps : KeepsFront f (passed f holes) h) :
    Missing (fixedHoles f (passed f holes) (h.endedBy f) rest) b ↔
      b < limit d (k :: arrived) ∧ ¬HasByte d (k :: arrived) b := by
  have hHoles := mem_of_met hMet
  have hMissing := hKept.hMissing b
  rw [hHoles, missing_append] at hMissing
  rw [missing_fixedHoles hMeets hKeeps, hasByte_cons hCuts.hPiece, hCuts.inside_iff]
  cases hMore : f.more with
  | true =>
    have hNext := hCuts.hMore
    rw [hMore] at hNext
    have hSame : h.endedBy f = h := by
      unfold Hole.endedBy
      rw [hMore, if_pos rfl]
    rw [hSame, hMissing, limit_cons_more (of_decide_eq_true hNext.symm), not_or, and_assoc]
    exact and_congr_right fun _ => and_comm
  | false =>
    rcases hCuts.last_of_not_more hMore with ⟨hLast, hPayload⟩
    have hEnd := hMeets.last_endedBy
    rw [hMore, if_neg Bool.false_ne_true, hCuts.hStop] at hEnd
    have hRest := rest_nil_of_last hKept hCuts hMet hMeets hMore
    subst hRest
    have hReach := hMeets.hMet
    have hStart := hCuts.hStart
    have hLe : d.offset k ≤ d.payload.length := d.offset_le (Nat.le_of_lt hCuts.hPiece)
    have hLimit : d.payload.length ≤ limit d arrived := limit_ge
    have hFront : Missing (passed f holes) b → b < f.start := by
      rintro ⟨g, hg, -, hb⟩
      have hPassed := passed_last_lt hg
      omega
    have hNil : ¬Missing [] b := missing_nil
    rw [limit_cons_last hLast, not_or]
    simp only [hNil, or_false] at hMissing ⊢
    constructor
    · rintro ⟨hIn | hIn, hOut⟩
      · have hBelow := hFront hIn
        have hHas := (hMissing.mp (.inl hIn)).2
        exact ⟨by omega, hOut, hHas⟩
      · have hHas := (hMissing.mp (.inr (by omega))).2
        exact ⟨by omega, hOut, hHas⟩
    · rintro ⟨hBelow, hOut, hHas⟩
      refine ⟨?_, hOut⟩
      rcases hMissing.mpr ⟨by omega, hHas⟩ with hIn | hIn
      · exact .inl hIn
      · exact .inr (by omega)

theorem endsInTime_cons (hEnds : EndsInTime d arrived k) (hNone : d.piece (d.count - 1) = [])
    (hMem : d.count - 2 ∈ k :: arrived) :
    d.count - 1 ∈ k :: arrived := by
  rcases hEnds hNone with ⟨hMany, hBefore⟩
  rcases mem_cons.mp hMem with hEq | hIn
  · exact mem_cons_of_mem k (hBefore (by omega))
  · exact mem_cons_of_mem k (hKept.hEnds hNone hIn)

/- A piece that is dropped had arrived before. -/
theorem kept_dropped (hPiece : k < d.count) (hEnds : EndsInTime d arrived k) (hOld : k ∈ arrived) :
    Kept d (k :: arrived) s holes := by
  have hHas : ∀ b, HasByte d (k :: arrived) b ↔ HasByte d arrived b := by
    intro b
    rw [hasByte_cons hPiece]
    constructor
    · rintro (hIn | hIn)
      · exact ⟨k, hOld, hPiece, hIn⟩
      · exact hIn
    · exact .inr
  constructor
  · exact hKept.hRep
  · exact hKept.hSpaced
  · exact hKept.hStrict
  · intro b
    rw [limit_cons_mem hOld, hHas]
    exact hKept.hMissing b
  · intro b hb
    exact hKept.hData b ((hHas b).mp hb)
  · rw [limit_cons_mem hOld]
    exact hKept.hTotal
  · exact hKept.hId
  · exact endsInTime_cons hKept hEnds

theorem kept_inserted
    {ip : List UInt8} {s' : Defrag} (hFragment : IsFragment d k ip) (hEnds : EndsInTime d arrived k)
    (hHides : ¬HidesFirst d arrived k) (hMet : met (Fragment.ofIp ip) holes = h :: rest)
    (hMeets : Meets (Fragment.ofIp ip) (passed (Fragment.ofIp ip) holes) h rest)
    (hInserted :
      Inserted ip (Fragment.ofIp ip) s s' holes
        (fixedHoles (Fragment.ofIp ip) (passed (Fragment.ofIp ip) holes)
          (h.endedBy (Fragment.ofIp ip)) rest)) :
    Kept d (k :: arrived) s'
      (fixedHoles (Fragment.ofIp ip) (passed (Fragment.ofIp ip) holes)
        (h.endedBy (Fragment.ofIp ip)) rest) := by
  have hCuts := hFragment.cuts
  have hKeeps := kept_keepsFront hKept hCuts hEnds hHides hMet hMeets.hNew
  have hStrict := hKept.hStrict
  rw [mem_of_met hMet] at hStrict
  constructor
  · exact hInserted.hRep
  · exact spaced_fixedHoles hMeets
  · refine strict_fixedHoles hMeets hStrict ?_
    intro hMore
    rw [hCuts.hMore, decide_eq_true_eq] at hMore
    have hPos : 0 < (d.piece k).length := (d.hAligned k hMore).1
    rw [hCuts.hLen]
    omega
  · intro b
    exact kept_missing hKept hCuts hMet hMeets hKeeps
  · intro b hHas
    by_cases hIn : d.offset k ≤ b ∧ b < d.offset (k + 1)
    · have hInside := hCuts.inside_iff.mpr hIn
      have hSucc := hCuts.offset_succ
      have hStart := hCuts.hStart
      rw [hInserted.hData b hInside.1 hInside.2, hFragment.data_at (by omega)]
      congr 1
      omega
    · have hBefore : HasByte d arrived b := by
        rcases (hasByte_cons hCuts.hPiece).mp hHas with h | h
        · exact absurd h hIn
        · exact h
      have hThere : ¬Missing holes b := fun hMissing => ((hKept.hMissing b).mp hMissing).2 hBefore
      rw [hInserted.hSame b hThere (fun hInside => hIn (hCuts.inside_iff.mp hInside)),
        hKept.hData b hBefore]
  · rw [hInserted.hTotal]
    cases hMore : (Fragment.ofIp ip).more with
    | true =>
      have hNext := hCuts.hMore
      rw [hMore] at hNext
      rw [if_pos rfl, hKept.hTotal, limit_cons_more (of_decide_eq_true hNext.symm)]
    | false =>
      rcases hCuts.last_of_not_more hMore with ⟨hLast, hPayload⟩
      have hStop := hMeets.u16_stop.trans hCuts.hStop
      rw [if_neg Bool.false_ne_true, limit_cons_last hLast]
      omega
  · rw [hInserted.hHeader]
    exact hKept.hId
  · exact endsInTime_cons hKept hEnds

/- Nothing is missing just when all the pieces are there. -/
theorem Kept.whole_iff : holes = [] ↔ Whole d arrived := by
  have hTotal := d.payload_le
  constructor
  · rintro rfl
    have hAll : ∀ b, b < limit d arrived → HasByte d arrived b := by
      intro b hb
      by_contra hNot
      exact missing_nil ((hKept.hMissing b).mpr ⟨hb, hNot⟩)
    have hKnown : d.count - 1 ∈ arrived := by
      by_contra hNot
      have hFar : HasByte d arrived 16384 := by
        apply hAll
        unfold limit
        rw [if_neg hNot]
        decide
      have hLt := hasByte_lt hFar
      omega
    intro i hi
    by_cases hLast : i + 1 = d.count
    · have hEq : i = d.count - 1 := by omega
      rwa [hEq]
    · have hMore : i + 1 < d.count := by omega
      by_contra hNot
      exact missing_nil ((first_byte hKept hMore).mpr hNot)
  · intro hWhole
    rw [eq_nil_iff_forall_not_mem]
    intro h hh
    have hCount := d.count_pos
    rcases (hKept.hMissing _).mp (hKept.hSpaced.missing_start hh) with ⟨hBelow, hOut⟩
    unfold limit at hBelow
    rw [if_pos (hWhole _ (by omega)), ← d.offset_count] at hBelow
    rcases d.exists_piece (Nat.le_refl _) hBelow with ⟨j, hj, hIn⟩
    exact hOut ⟨j, hWhole j hj, hj, hIn⟩

end

theorem Kept.limit_of_nil (hKept : Kept d arrived s []) :
    limit d arrived = d.payload.length := by
  have hWhole := hKept.whole_iff.mp rfl
  have hCount := d.count_pos
  unfold limit
  rw [if_pos (hWhole _ (by omega))]

/- What a call returns for the holes that are left. -/
def returned (d : Datagram) (holes : List Hole) : Option Nat :=
  if holes = [] then
    some (d.payload.length + IP_HDR_SIZE)
  else none

/- One arrival, of a piece that is new or not. -/
theorem netDefragment_kept {ip : List UInt8} (hKept : Kept d arrived (startPacket ip s) holes)
    (hSome : holes ≠ []) (hFragment : IsFragment d k ip) (hEnds : EndsInTime d arrived k)
    (hHides : ¬HidesFirst d arrived k) :
    ∃ s' holes', netDefragment ip s = some (returned d holes', s') ∧
      Kept d (k :: arrived) s' holes' := by
  have hCuts := hFragment.cuts
  have hFits := kept_fits hKept hCuts hEnds hSome
  rcases netDefragment_outcome hFragment.hHeader hFragment.length_le hFragment.not_tooFar
      (hKept.hRep hSome) hKept.hSpaced hFits with
    ⟨r, s', hCall, hOutcome⟩
  rw [hCall]
  cases hOutcome with
  | dropped hAfter hIgnored =>
    have hOld : k ∈ arrived := by
      by_contra hNew
      rcases new_meets hKept hCuts hNew hEnds with ⟨h, rest, hMet, hFresh, -⟩
      have hTrue := hIgnored h (by rw [hMet]; rfl)
      rw [hFresh] at hTrue
      exact absurd hTrue Bool.false_ne_true
    refine ⟨_, holes, ?_, kept_dropped hKept hFragment.hPiece hEnds hOld⟩
    rw [returned, if_neg hSome]
  | inserted hMet hMeets hAfter hInserted =>
    have hNext : Kept d (k :: arrived) s' (holesAfter (Fragment.ofIp ip) holes) := by
      rw [hAfter] at hInserted ⊢
      exact kept_inserted hKept hFragment hEnds hHides hMet hMeets hInserted
    refine ⟨s', _, ?_, hNext⟩
    unfold returned
    by_cases hNone : holesAfter (Fragment.ofIp ip) holes = []
    · rw [if_pos hNone, if_pos hNone, hNext.hTotal]
      rw [hNone] at hNext
      rw [hNext.limit_of_nil]
    · rw [if_neg hNone, if_neg hNone]

end Step

----
-- The Start Of A Packet
----

variable {ip : List UInt8}

theorem ipId_take (hHeader : IP_HDR_SIZE ≤ ip.length) (s : Defrag) :
    (resetStructs ip s).ipId = ipId ip := by
  have hByte : ∀ i, i < IP_HDR_SIZE → (resetStructs ip s).pktBuff i = ip.getD i 0 := by
    intro i hi
    have hWrite :
        (resetStructs ip s).pktBuff = (freshField s.pktBuff).write 0 (ip.take IP_HDR_SIZE) := rfl
    rw [hWrite, Memory.write, if_pos (Nat.zero_le i), Nat.sub_zero, getElem?_take_of_lt hi,
      getElem?_eq_getElem (Nat.lt_of_lt_of_le hi hHeader), getD_eq_getElem?_getD,
      getElem?_eq_getElem (Nat.lt_of_lt_of_le hi hHeader)]
    rfl
  unfold Defrag.ipId
  rw [hByte 4 (by decide), hByte 5 (by decide)]
  rfl

variable {d : Datagram} {k : Nat}

/- The first fragment finds another identification. -/
theorem startPacket_kept {s : Defrag} (hOther : s.ipId ≠ d.id) (hFragment : IsFragment d k ip) :
    Kept d [] (startPacket ip s) freshHoles := by
  have hReset : startPacket ip s = resetStructs ip s := by
    unfold startPacket
    rw [hFragment.hId, if_pos (.inr hOther)]
  have hNone : ∀ b, ¬HasByte d [] b := fun b ⟨_, hMem, _⟩ => absurd hMem not_mem_nil
  have hLimit : limit d [] = 0xffff := if_neg not_mem_nil
  rw [hReset]
  constructor
  · exact fun _ => resetStructs_represents ip s
  · exact spaced_freshHoles
  · exact pairwise_singleton _ _
  · intro b
    unfold freshHoles
    rw [missing_cons, hLimit]
    have hNil : ¬Missing [] b := missing_nil
    simp only [hNil, or_false, hNone, not_false_eq_true, and_true]
    exact and_iff_right (Nat.zero_le b)
  · exact fun b hHas => absurd hHas (hNone b)
  · exact hLimit.symm
  · rw [ipId_take hFragment.hHeader, hFragment.hId]
  · exact fun _ hMem => absurd hMem not_mem_nil

variable {arrived : List Nat}

theorem startPacket_same {s : Defrag} {holes : List Hole}
    (hKept : Kept d arrived s holes) (hPos : 0 < d.payload.length) (hFragment : IsFragment d k ip) :
    startPacket ip s = s := by
  have hLimit : d.payload.length ≤ limit d arrived := limit_ge
  have hTotal := hKept.hTotal
  unfold startPacket
  rw [if_neg]
  rintro (hZero | hOther)
  · omega
  · rw [hFragment.hId] at hOther
    exact hOther hKept.hId

----
-- Every Order Of Arrival
----

/- A packet that arrives, with a piece of the datagram. -/
structure Arrival where
  piece : Nat
  ip : List UInt8

/-
  The buffer, the pieces that have arrived, and what the last
  call has returned.
-/
structure Assembly where
  defrag : Defrag
  arrived : List Nat
  result : Option Nat

instance
    (d : Datagram) (k : Nat) (ip : List UInt8) :
    Decidable (IsFragment d k ip) :=
  decidable_of_iff
    (k < d.count ∧ IP_HDR_SIZE ≤ ip.length ∧ ipId ip = d.id ∧ ipOff ip % 2 ^ 13 * 8 = d.offset k ∧
      (ipOff ip).testBit 13 = decide (k + 1 < d.count) ∧
      ipLen ip = IP_HDR_SIZE + (d.piece k).length ∧
      (ip.drop IP_HDR_SIZE).take (d.piece k).length = d.piece k)
    ⟨fun ⟨hPiece, hHeader, hId, hOffset, hMore, hLength, hData⟩ =>
      ⟨hPiece, hHeader, hId, hOffset, hMore, hLength, hData⟩,
    fun h => ⟨h.hPiece, h.hHeader, h.hId, h.hOffset, h.hMore, h.hLength, h.hData⟩⟩

/- The datagram is complete once all its pieces are there. -/
def arriveStep (d : Datagram) (s : Assembly) (a : Arrival) :
    Option Assembly :=
  if IsFragment d a.piece a.ip ∧ ¬Whole d s.arrived then
    (netDefragment a.ip s.defrag).map fun r =>
      { defrag := r.2
        arrived := a.piece :: s.arrived
        result := r.1 }
  else none

def arriveSystem (d : Datagram) (start : Defrag) :
    TransitionSystem Assembly Arrival :=
  .ofStep ⟨start, [], none⟩ (arriveStep d)

def ArrivesOk (d : Datagram) (s : Assembly)
    (a : Arrival) : Prop :=
  ¬HidesFirst d s.arrived a.piece ∧ EndsInTime d s.arrived a.piece

instance (d : Datagram) (s : Assembly) (a : Arrival) : Decidable (ArrivesOk d s a) :=
  inferInstanceAs (Decidable (_ ∧ _))

/- The packet is returned when it is whole, and not before. -/
structure Delivers (d : Datagram) (s : Assembly) : Prop where
  hWhole : Whole d s.arrived → s.result = some (IP_HDR_SIZE + d.payload.length) ∧
      s.defrag.pktBuff.slice IP_HDR_SIZE d.payload.length = d.payload
  hPart : ¬Whole d s.arrived → s.result = none

/- What holds between the arrivals. -/
def Underway (d : Datagram) (start : Defrag)
    (s : Assembly) : Prop :=
  (s.defrag = start ∧ s.arrived = [] ∧ s.result = none) ∨
    (0 < d.payload.length ∧ ∃ holes, Kept d s.arrived s.defrag holes ∧ s.result = returned d holes)

theorem payload_pos (hEnds : EndsInTime d arrived k) :
    0 < d.payload.length := by
  have hCount := d.count_pos
  by_cases hMany : 1 < d.count
  · have hFirst := d.offset_lt_succ (k := 0) hMany
    have hLe : d.offset (0 + 1) ≤ d.payload.length := d.offset_le (Nat.le_of_lt hMany)
    omega
  · have hOne : d.count = 1 := by omega
    have hNonempty : d.piece 0 ≠ [] := by
      intro hNone
      have hLast : d.piece (d.count - 1) = [] := by
        rw [hOne]
        exact hNone
      exact hMany (hEnds hLast).1
    have hPiece := length_pos_iff.mpr hNonempty
    have hSucc : d.offset 1 = d.offset 0 + (d.piece 0).length := d.offset_succ hCount
    have hEnd := d.offset_count
    rw [hOne] at hEnd
    omega

variable {start : Defrag}

/- An arrival finds the packet open, and leaves it so. -/
theorem arrive_kept
    {s : Assembly} {a : Arrival} (hOther : start.ipId ≠ d.id) (hUnderway : Underway d start s)
    (hOk : ArrivesOk d s a) (hFragment : IsFragment d a.piece a.ip) (hPart : ¬Whole d s.arrived) :
    ∃ s' holes', netDefragment a.ip s.defrag = some (returned d holes', s') ∧
      Kept d (a.piece :: s.arrived) s' holes' := by
  rcases hUnderway with ⟨hStart, hNone, -⟩ | ⟨hPos, hKept⟩
  · rw [hStart]
    have hOpen := startPacket_kept hOther hFragment
    rw [← hNone] at hOpen
    exact netDefragment_kept hOpen (cons_ne_nil _ _) hFragment hOk.2 hOk.1
  · rcases hKept with ⟨holes, hKept, -⟩
    have hSome : holes ≠ [] := fun hEq => hPart (hKept.whole_iff.mp hEq)
    have hSame := startPacket_same hKept hPos hFragment
    rw [← hSame] at hKept
    exact netDefragment_kept hKept hSome hFragment hOk.2 hOk.1

theorem arriveStep_underway
    {s t : Assembly} {a : Arrival} (hOther : start.ipId ≠ d.id) (hUnderway : Underway d start s)
    (hOk : ArrivesOk d s a) (hStep : arriveStep d s a = some t) :
    Underway d start t := by
  unfold arriveStep at hStep
  split_ifs at hStep with hGiven
  rcases arrive_kept hOther hUnderway hOk hGiven.1 hGiven.2 with ⟨s', holes', hCall, hKept⟩
  rw [hCall] at hStep
  have hEq := Option.some.inj hStep
  rw [← hEq]
  exact .inr ⟨payload_pos hOk.2, holes', hKept, rfl⟩

theorem Underway.delivers {s : Assembly} (hUnderway : Underway d start s) :
    Delivers d s := by
  rcases hUnderway with ⟨-, hNone, hResult⟩ | ⟨-, holes, hKept, hResult⟩
  · constructor
    · intro hWhole
      have hFirst := hWhole 0 d.count_pos
      rw [hNone] at hFirst
      exact absurd hFirst not_mem_nil
    · exact fun _ => hResult
  · constructor
    · intro hWhole
      have hHoles := hKept.whole_iff.mpr hWhole
      subst hHoles
      refine ⟨?_, ?_⟩
      · rw [hResult, returned, if_pos rfl, Nat.add_comm]
      · apply ext_getElem?
        intro b
        rw [Memory.getElem?_slice]
        by_cases hb : b < d.payload.length
        · have hHas : HasByte d s.arrived b := by
            by_contra hNot
            refine missing_nil ((hKept.hMissing b).mpr ⟨Nat.lt_of_lt_of_le hb limit_ge, hNot⟩)
          rw [if_pos hb, hKept.hData b hHas, getD_eq_getElem?_getD, getElem?_eq_getElem hb]
          rfl
        · rw [if_neg hb, getElem?_eq_none (Nat.not_lt.mp hb)]
    · intro hPart
      have hSome : holes ≠ [] := fun hEq => hPart (hKept.whole_iff.mp hEq)
      rw [hResult, returned, if_neg hSome]

/-
  From a buffer with another packet, every arrival returns
  the packet just when it is whole.
-/
theorem reassembly_delivers
    (d : Datagram) (start : Defrag) (hOther : start.ipId ≠ d.id) (s : Assembly)
    (hReach : (arriveSystem d start).ReachableBy (ArrivesOk d) s) :
    Delivers d s ∧ ∀ a, ArrivesOk d s a → IsFragment d a.piece a.ip →
        ¬Whole d s.arrived → ∃ t, arriveStep d s a = some t := by
  have hUnderway : Underway d start s := by
    refine hReach.invariant ?_ ?_
    · rintro s rfl
      exact .inl ⟨rfl, rfl, rfl⟩
    · intro s a t hUnderway hOk hStep
      exact arriveStep_underway hOther hUnderway hOk hStep
  refine ⟨hUnderway.delivers, ?_⟩
  intro a hOk hFragment hPart
  rcases arrive_kept hOther hUnderway hOk hFragment hPart with ⟨s', holes', hCall, -⟩
  unfold arriveStep
  rw [if_pos ⟨hFragment, hPart⟩, hCall]
  exact ⟨_, rfl⟩

----
-- A Packet Without Its First Bytes
----

def threePieces : Datagram where
  id := 7
  pieces := [[1, 1, 1, 1, 1, 1, 1, 1], [2, 2, 2, 2, 2, 2, 2, 2], [3, 3, 3, 3, 3, 3, 3, 3]]
  hSome := by decide
  hAligned := by
    intro k hk
    match k, hk with
    | 0, _ => decide
    | 1, _ => decide
  hTotal := by decide

def firstArrival : Arrival where
  piece := 0
  ip :=
    [0x45, 0, 0, 28, 0, 7, 32, 0, 64, 17, 217, 118,
      192, 168, 0, 1, 192, 168, 0, 2, 1, 1, 1, 1, 1, 1, 1, 1]

def secondArrival : Arrival where
  piece := 1
  ip :=
    [0x45, 0, 0, 28, 0, 7, 32, 1, 64, 17, 217, 117,
      192, 168, 0, 1, 192, 168, 0, 2, 2, 2, 2, 2, 2, 2, 2, 2]

def thirdArrival : Arrival where
  piece := 2
  ip :=
    [0x45, 0, 0, 28, 0, 7, 0, 2, 64, 17, 249, 116,
      192, 168, 0, 1, 192, 168, 0, 2, 3, 3, 3, 3, 3, 3, 3, 3]

/- The last piece first, and the second one twice. -/
theorem reassembly_delivers_three :
    ∃ s,
      (arriveSystem threePieces Reassembly.initial.defrag).ReachableBy (ArrivesOk threePieces) s ∧
      s.arrived = [1, 0, 0, 2] ∧ Delivers threePieces s := by
  rcases TransitionSystem.exists_reachableBy (arriveStep threePieces) (ArrivesOk threePieces)
      ⟨Reassembly.initial.defrag, [], none⟩
      [thirdArrival, firstArrival, firstArrival, secondArrival]
      (fun s => s.arrived = [1, 0, 0, 2])
      (by decide +kernel) with
    ⟨s, hReach, hArrived⟩
  exact ⟨s, hReach, hArrived,
    (reassembly_delivers threePieces Reassembly.initial.defrag (by decide) s hReach).1⟩

/-
  The second and the third piece are returned as a packet of
  three.
-/
theorem reassembly_without_first :
    ∃ s, (arriveSystem threePieces Reassembly.initial.defrag).Reachable s ∧
      s.arrived = [2, 1] ∧ s.result = some 44 ∧ ¬Delivers threePieces s := by
  rcases TransitionSystem.exists_reachableBy (arriveStep threePieces) (fun _ _ => True)
      ⟨Reassembly.initial.defrag, [], none⟩
      [secondArrival, thirdArrival]
      (fun s => s.arrived = [2, 1] ∧ s.result = some 44)
      (by decide +kernel) with
    ⟨s, hReach, hArrived, hResult⟩
  refine ⟨s, hReach, hArrived, hResult, ?_⟩
  intro hDelivers
  have hPart : ¬Whole threePieces s.arrived := by
    rw [hArrived]
    decide
  have hNone := hDelivers.hPart hPart
  rw [hResult] at hNone
  exact absurd hNone (by decide)

end Uboot.Net
