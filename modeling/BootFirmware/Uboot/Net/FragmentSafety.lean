import BootFirmware.Lib.TransitionSystem
import BootFirmware.Uboot.Net.Holes
import Mathlib.Data.List.TakeWhile

/-
  What the packets that arrive may do to the buffer.

  A packet that is accepted is reassembled without an access
  outside the buffer, as long as each fragment before it, and
  the fragment itself, leave the descriptors of the holes
  alone.

  Key definitions include:
    * `Reassembly` and `receiveStep`
    * `LeavesHoles`

  The main results are:
    * `netDefragment_outcome`
    * `receive_in_bounds`
    * `receive_copies_negative_length`
-/

----
-- One Fragment
----

namespace Uboot.Net

open List

/- The list of a packet of which nothing has arrived. -/
def freshHoles : List Hole :=
  [⟨0, 0xffff⟩]

theorem spaced_freshHoles : Spaced freshHoles := by
  constructor
  · exact pairwise_singleton _ _
  · intro h hh
    rw [mem_singleton.mp hh]
    decide
  · intro h hh
    rw [mem_singleton.mp hh]
    exact .inr rfl

/- The descriptor that a packet starts with. -/
def freshField (m : Memory UInt8) : Memory UInt8 :=
  putField (putField (putField m 0 .lastByte 0xffff) 0 .nextHole 0) 0 .prevHole 0

variable {ip : List UInt8}

theorem resetStructs_at {s : Defrag} {a : Nat} (ha : IP_HDR_SIZE ≤ a) :
    (resetStructs ip s).pktBuff a = freshField s.pktBuff a := by
  have hWrite :
      (resetStructs ip s).pktBuff = (freshField s.pktBuff).write 0 (ip.take IP_HDR_SIZE) := rfl
  rw [hWrite]
  apply Memory.write_of_le
  rw [length_take]
  omega

theorem resetStructs_represents (ip : List UInt8) (s : Defrag) :
    Represents (resetStructs ip s) freshHoles := by
  have hField : ∀ field,
      fieldOf (resetStructs ip s).pktBuff field 0 = fieldOf (freshField s.pktBuff) field 0 :=
    fun field => fieldOf_congr field fun a ha _ => resetStructs_at ha
  have hSmall : (0xffff : Nat) < 2 ^ 16 := by decide
  have hLast : fieldOf (freshField s.pktBuff) .lastByte 0 = 0xffff := by
    rw [freshField, fieldOf_putField_ne _ _ _ (by decide), fieldOf_putField_ne _ _ _ (by decide),
      fieldOf_putField_self _ _ _ hSmall, Function.update_self]
  have hNext : fieldOf (freshField s.pktBuff) .nextHole 0 = 0 := by
    rw [freshField, fieldOf_putField_ne _ _ _ (by decide), fieldOf_putField_self _ _ _ (by decide),
      Function.update_self]
  have hPrev : fieldOf (freshField s.pktBuff) .prevHole 0 = 0 := by
    rw [freshField, fieldOf_putField_self _ _ _ (by decide), Function.update_self]
  constructor
  · constructor
    · rfl
    · exact ⟨(hField _).trans hPrev, (hField _).trans hNext, trivial⟩
    · exact pairwise_singleton _ _
    · exact fun i hi => by
        rw [mem_singleton.mp hi]
        decide
  · intro h hh
    rw [mem_singleton.mp hh]
    exact (hField _).trans hLast

/- What becomes of a fragment, and of the buffer. -/
inductive Outcome
    (ip : List UInt8) (f : Fragment) (s : Defrag) (holes : List Hole) :
    Option Nat → Defrag → Prop
  | dropped : holesAfter f holes = holes → (∀ h ∈ (met f holes).head?, ignored f h = true) →
      Outcome ip f s holes none s
  | inserted {rest : List Hole} {h : Hole} {s' : Defrag} : met f holes = h :: rest →
      Meets f (passed f holes) h rest →
      holesAfter f holes = fixedHoles f (passed f holes) (h.endedBy f) rest →
      Inserted ip f s s' holes (holesAfter f holes) → Outcome ip f s holes
        (if holesAfter f holes = [] then
          some (s'.totalLen + IP_HDR_SIZE)
        else none) s'

variable {holes : List Hole}

theorem search_holes {s : Defrag} (f : Fragment) (hRep : Represents s holes) (hSome : holes ≠ []) :
    search s.pktBuff f.start (2 ^ 16) s.firstHole = some ((met f holes).head?.map Hole.index) := by
  have hIndices : indices holes ≠ [] := by rwa [ne_eq, indices_eq_nil]
  rw [search_eq f.start hRep.hLinked hIndices]
  have hLast := hRep.hLast
  clear hRep hSome hIndices
  congr 1
  induction holes with
  | nil => rfl
  | cons h holes ih =>
    have hHead := hLast h mem_cons_self
    have hTail := ih fun k hk => hLast k (mem_cons_of_mem h hk)
    unfold met at hTail ⊢
    rw [indices_cons, dropWhile_cons]
    by_cases hPassed : h.last < f.start
    · rw [find?_cons_of_neg (by rw [hHead]; simpa using hPassed),
        if_pos (by simpa using hPassed), hTail]
    · rw [find?_cons_of_pos (by rw [hHead]; simpa using hPassed),
        if_neg (by simpa using hPassed)]
      rfl

variable {f : Fragment}

theorem passed_last_lt {k : Hole} (hMem : k ∈ passed f holes) :
    k.last < f.start := by
  have hTrue := mem_takeWhile_imp hMem
  exact of_decide_eq_true hTrue

theorem met_head_last {h : Hole} {holes rest : List Hole} (hMet : met f holes = h :: rest) :
    f.start ≤ h.last := by
  have hHead : (met f holes).head? = some h := by
    rw [hMet]
    rfl
  have hNot := head?_dropWhile_not (fun k : Hole => decide (k.last < f.start)) holes
  unfold met at hHead
  rw [hHead] at hNot
  simpa using hNot

theorem ofIp_stop_le
    (hFar : (Fragment.ofIp ip).tooFar = false) (hLen : 0 ≤ (Fragment.ofIp ip).len) :
    (Fragment.ofIp ip).stop ≤ IP_MAXUDP := by
  have hNot := of_decide_eq_false hFar
  have hOffset : (Fragment.ofIp ip).offset8 < 2 ^ 13 := Nat.mod_lt _ (by decide)
  have hTotal : ipLen ip < 2 ^ 16 := by
    have hHigh := (ip.getD 2 0).toNat_lt
    have hLow := (ip.getD (2 + 1) 0).toNat_lt
    unfold ipLen be16
    omega
  have hLength : (Fragment.ofIp ip).len = (ipLen ip : Int) - IP_HDR_SIZE := rfl
  unfold Fragment.stop Fragment.start at hNot ⊢
  omega

theorem netDefragment_outcome
    {s : Defrag} (hHeader : IP_HDR_SIZE ≤ ip.length) (hLength : ipLen ip ≤ ip.length)
    (hFar : (Fragment.ofIp ip).tooFar = false) (hRep : Represents (startPacket ip s) holes)
    (hSpaced : Spaced holes) (hFits : Fits (Fragment.ofIp ip) holes) :
    ∃ r s', netDefragment ip s = some (r, s') ∧
      Outcome ip (Fragment.ofIp ip) (startPacket ip s) holes r s' := by
  have hSearch := search_holes (Fragment.ofIp ip) hRep hFits.1
  rw [netDefragment, if_neg (Nat.not_lt.mpr hHeader)]
  simp only [hFar, Bool.false_eq_true, if_false]
  rw [hSearch, Option.bind_some]
  cases hMet : met (Fragment.ofIp ip) holes with
  | nil =>
    refine ⟨none, _, rfl, .dropped ?_ ?_⟩
    · unfold holesAfter
      rw [hMet]
    · rw [hMet]
      nofun
  | cons h rest =>
    have hSplit := passed_append_met (Fragment.ofIp ip) holes
    rw [hMet] at hSplit
    have hCase := hFits.2 h (by rw [hMet]; rfl)
    rw [hMet, tail_cons] at hCase
    rw [head?_cons, Option.map_some]
    cases hIgnored : ignored (Fragment.ofIp ip) h with
    | true =>
      refine ⟨none, _, ?_, .dropped ?_ ?_⟩
      · exact if_pos (of_decide_eq_true hIgnored)
      · unfold holesAfter
        rw [hMet]
        exact if_pos hIgnored
      · rw [hMet]
        intro k hk
        rw [← Option.some.inj hk]
        exact hIgnored
    | false =>
      have hFitsHole : FitsHole (Fragment.ofIp ip) h rest := by
        rcases hCase with hTrue | hFitsHole
        · rw [hIgnored] at hTrue
          exact absurd hTrue Bool.false_ne_true
        · exact hFitsHole
      have hMeets : Meets (Fragment.ofIp ip) (passed (Fragment.ofIp ip) holes) h rest := by
        constructor
        · rwa [hSplit]
        · exact fun k hk => passed_last_lt hk
        · exact met_head_last hMet
        · exact hIgnored
        · exact hFitsHole
        · exact ofIp_stop_le hFar hFitsHole.1
      have hAfter :
          holesAfter (Fragment.ofIp ip) holes =
            fixedHoles (Fragment.ofIp ip) (passed (Fragment.ofIp ip) holes)
              (h.endedBy (Fragment.ofIp ip)) rest := by
        unfold holesAfter
        rw [hMet]
        exact if_neg (by rw [hIgnored]; decide)
      have hBytes :
          (IP_HDR_SIZE : Int) + (Fragment.ofIp ip).len ≤ ip.length := by
        have hLen : (Fragment.ofIp ip).len = (ipLen ip : Int) - IP_HDR_SIZE := rfl
        omega
      rw [← hSplit] at hRep
      rcases netInsert_represents hRep hMeets hBytes with ⟨s', hInsert, hInserted⟩
      refine ⟨_, s', hInsert, ?_⟩
      rw [← hAfter] at hInserted ⊢
      rw [hSplit] at hInserted
      exact .inserted hMet hMeets hAfter hInserted

/- What is left is in order, and the buffer holds it. -/
theorem Outcome.represents {s s' : Defrag} {r : Option Nat}
    (hOutcome : Outcome ip f s holes r s') (hRep : Represents s holes)
    (hSpaced : Spaced holes) (hSome : holesAfter f holes ≠ []) :
    Represents s' (holesAfter f holes) ∧ Spaced (holesAfter f holes) := by
  cases hOutcome with
  | dropped hAfter _ =>
    rw [hAfter]
    exact ⟨hRep, hSpaced⟩
  | inserted _ hMeets hAfter hInserted =>
    refine ⟨hInserted.hRep hSome, ?_⟩
    rw [hAfter]
    exact spaced_fixedHoles hMeets

----
-- The Packets That Arrive
----

/- The buffer, and the holes of the packet in it. -/
structure Reassembly where
  defrag : Defrag
  holes : List Hole

/- The static variables before the first packet. -/
def Reassembly.initial : Reassembly where
  defrag := ⟨fun _ => 0, 0, 0⟩
  holes := []

def startsPacket (ip : List UInt8) (s : Defrag) : Bool :=
  decide (s.totalLen = 0 ∨ s.ipId ≠ Net.ipId ip)

/- The holes that a fragment finds. -/
def Reassembly.opened (ip : List UInt8) (s : Reassembly) :
    List Hole :=
  if startsPacket ip s.defrag then freshHoles else s.holes

/- The packet is a fragment, and does not extend too far. -/
def enters (netIp ip : List UInt8) : Bool :=
  ipAccepted netIp ip && isFragment ip && !(Fragment.ofIp ip).tooFar

def receiveStep (netIp : List UInt8) (s : Reassembly) (ip : List UInt8) :
    Option Reassembly :=
  (receive netIp ip s.defrag).map fun r =>
    { defrag := r.2
      holes :=
        if enters netIp ip then
          holesAfter (Fragment.ofIp ip) (s.opened ip)
        else s.holes }

def receiveSystem (netIp : List UInt8) :
    TransitionSystem Reassembly (List UInt8) :=
  .ofStep .initial (receiveStep netIp)

/-
  The fragment leaves the descriptors alone that the list
  goes through, and there is a list.
-/
def LeavesHoles (netIp : List UInt8) (s : Reassembly)
    (ip : List UInt8) : Prop :=
  enters netIp ip = true → Fits (Fragment.ofIp ip) (s.opened ip)

instance
    (netIp : List UInt8) (s : Reassembly) (ip : List UInt8) :
    Decidable (LeavesHoles netIp s ip) :=
  inferInstanceAs (Decidable (_ → _))

/- As long as a byte is missing, the buffer has the list. -/
def Tracked (s : Reassembly) : Prop :=
  s.holes ≠ [] → Represents s.defrag s.holes ∧ Spaced s.holes

variable {s : Reassembly}

theorem startPacket_represents (hTracked : Tracked s) (hSome : s.opened ip ≠ []) :
    Represents (startPacket ip s.defrag) (s.opened ip) ∧ Spaced (s.opened ip) := by
  unfold Reassembly.opened startsPacket startPacket at *
  by_cases hStarts : s.defrag.totalLen = 0 ∨ s.defrag.ipId ≠ Net.ipId ip
  · rw [if_pos hStarts, if_pos (decide_eq_true hStarts)]
    exact ⟨resetStructs_represents ip s.defrag, spaced_freshHoles⟩
  · have hSame : ¬decide (s.defrag.totalLen = 0 ∨ s.defrag.ipId ≠ Net.ipId ip) = true :=
      fun hTrue => hStarts (of_decide_eq_true hTrue)
    rw [if_neg hSame] at hSome
    rw [if_neg hStarts, if_neg hSame]
    exact hTracked hSome

theorem enters_iff {netIp ip : List UInt8} :
    enters netIp ip = true ↔
      ipAccepted netIp ip = true ∧ isFragment ip = true ∧ (Fragment.ofIp ip).tooFar = false := by
  unfold enters
  rw [Bool.and_eq_true, Bool.and_eq_true, Bool.not_eq_true', and_assoc]

variable {netIp ip : List UInt8}

/- A packet that does not enter leaves the buffer alone. -/
theorem receive_of_not_enters (s : Defrag) (hNot : enters netIp ip = false) :
    receive netIp ip s = some (none, s) := by
  unfold receive
  cases hGiven : ipAccepted netIp ip && isFragment ip with
  | false => rfl
  | true =>
    have hBoth := (Bool.and_eq_true _ _).mp hGiven
    have hFar : (Fragment.ofIp ip).tooFar = true := by
      by_contra hNotFar
      rw [Bool.not_eq_true] at hNotFar
      rw [enters_iff.mpr ⟨hBoth.1, hBoth.2, hNotFar⟩] at hNot
      exact absurd hNot (by decide)
    have hHeader : ¬ip.length < IP_HDR_SIZE := by
      have hAccepted := hBoth.1
      unfold ipAccepted at hAccepted
      simp only [Bool.and_eq_true, decide_eq_true_eq] at hAccepted
      have hUdp : IP_UDP_HDR_SIZE = 28 := rfl
      have hIp : IP_HDR_SIZE = 20 := rfl
      omega
    rw [if_pos rfl, netDefragment, if_neg hHeader]
    exact if_pos hFar

theorem receive_of_enters (hEnters : enters netIp ip = true) (hTracked : Tracked s)
    (hFits : Fits (Fragment.ofIp ip) (s.opened ip)) :
    ∃ r s', receive netIp ip s.defrag = some (r, s') ∧
      Outcome ip (Fragment.ofIp ip) (startPacket ip s.defrag) (s.opened ip) r s' := by
  rcases enters_iff.mp hEnters with ⟨hAccepted, hFragment, hFar⟩
  rcases startPacket_represents hTracked hFits.1 with ⟨hRep, hSpaced⟩
  have hGiven : (ipAccepted netIp ip && isFragment ip) = true :=
    (Bool.and_eq_true _ _).mpr ⟨hAccepted, hFragment⟩
  unfold ipAccepted at hAccepted
  simp only [Bool.and_eq_true, decide_eq_true_eq] at hAccepted
  have hHeader : IP_HDR_SIZE ≤ ip.length := Nat.le_trans (by decide) hAccepted.1.1.1.1.1
  rw [receive, if_pos hGiven]
  exact netDefragment_outcome hHeader hAccepted.1.1.1.1.2 hFar hRep hSpaced hFits

/- One packet keeps track of the list. -/
theorem receiveStep_tracked {s t : Reassembly} (hTracked : Tracked s) (hOk : LeavesHoles netIp s ip)
    (hStep : receiveStep netIp s ip = some t) :
    Tracked t := by
  unfold receiveStep at hStep
  cases hEnters : enters netIp ip with
  | false =>
    rw [receive_of_not_enters s.defrag hEnters, hEnters] at hStep
    have hEq := Option.some.inj hStep
    rw [← hEq]
    exact hTracked
  | true =>
    have hFits := hOk hEnters
    rcases receive_of_enters hEnters hTracked hFits with ⟨r, s', hReceive, hOutcome⟩
    rw [hReceive, hEnters] at hStep
    have hEq := Option.some.inj hStep
    rw [← hEq]
    rcases startPacket_represents hTracked hFits.1 with ⟨hRep, hSpaced⟩
    exact fun hSome => hOutcome.represents hRep hSpaced hSome

theorem tracked_of_reachable
    {netIp : List UInt8} (hReach : (receiveSystem netIp).ReachableBy (LeavesHoles netIp) s) :
    Tracked s := by
  refine hReach.invariant ?_ ?_
  · rintro s rfl
    exact fun hSome => absurd rfl hSome
  · intro s ip t hTracked hOk hStep
    exact receiveStep_tracked hTracked hOk hStep

/-
  After packets that leave the holes alone, one that does so
  as well is received without an access out of bounds.
-/
theorem receive_in_bounds (netIp : List UInt8) (s : Reassembly)
    (hReach : (receiveSystem netIp).ReachableBy (LeavesHoles netIp) s)
    (ip : List UInt8) (hOk : LeavesHoles netIp s ip) :
    ∃ r s', receive netIp ip s.defrag = some (r, s') := by
  cases hEnters : enters netIp ip with
  | false => exact ⟨none, s.defrag, receive_of_not_enters s.defrag hEnters⟩
  | true =>
    rcases receive_of_enters hEnters (tracked_of_reachable hReach) (hOk hEnters) with
      ⟨r, s', hReceive, -⟩
    exact ⟨r, s', hReceive⟩

----
-- Packets Out Of Bounds
----

def boardIp : List UInt8 := [192, 168, 0, 2]

/- The second 8 bytes of a packet of 16. -/
def secondFragment : List UInt8 :=
  [0x45, 0, 0, 28, 0, 7, 0, 1, 64, 17, 249, 117,
    192, 168, 0, 1, 192, 168, 0, 2, 1, 1, 1, 1, 1, 1, 1, 1]

/- The first 8 bytes of that packet. -/
def firstFragment : List UInt8 :=
  [0x45, 0, 0, 28, 0, 7, 32, 0, 64, 17, 217, 118,
    192, 168, 0, 1, 192, 168, 0, 2, 2, 2, 2, 2, 2, 2, 2, 2]

theorem receive_two_in_bounds :
    ∃ s, (receiveSystem boardIp).ReachableBy (LeavesHoles boardIp) s ∧ s.holes = [⟨0, 8⟩] ∧
      ∃ r s', receive boardIp firstFragment s.defrag = some (r, s') := by
  rcases TransitionSystem.exists_reachableBy (receiveStep boardIp) (LeavesHoles boardIp)
      Reassembly.initial [secondFragment]
      (fun s => s.holes = [⟨0, 8⟩] ∧ LeavesHoles boardIp s firstFragment)
      (by decide +kernel) with
    ⟨s, hReach, hHoles, hOk⟩
  exact ⟨s, hReach, hHoles, receive_in_bounds boardIp s hReach firstFragment hOk⟩

/-
  A packet at offset 16 whose length is less than that of
  its header.
-/
def shortFragment : List UInt8 :=
  [0x45, 0, 0, 12, 0, 7, 0, 2, 64, 17, 249, 132,
    192, 168, 0, 1, 192, 168, 0, 2, 0, 0, 0, 0, 0, 0, 0, 0]

theorem receive_copies_negative_length :
    ipAccepted boardIp shortFragment = true ∧ (Fragment.ofIp shortFragment).len = -8 ∧
      receive boardIp shortFragment Reassembly.initial.defrag = none := by
  decide +kernel

end Uboot.Net
