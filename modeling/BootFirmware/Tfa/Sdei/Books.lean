import BootFirmware.Tfa.Sdei.Handlers
import Mathlib.Data.Finset.Card

/-
  The books of the dispatcher: the part of the state that
  says who has registered what and what is running where.

  Every entry point changes the books by a sequence of
  `Books.Effect`s, except the hook of a CPU that comes up.
  The invariant `Books.Inv` ties registration counts to
  registered bits and running bits to dispatch stacks.

  Key definitions include:
    * `Books` and `State.books`
    * `Books.Effect`
    * `Books.Inv`

  The main result is:
    * `Books.Effect.inv`
-/

----
-- The Books Of A State
----

namespace Tfa.Sdei

open Function

structure Books where
  privateState : Nat → Nat → EvState
  sharedState : Nat → EvState
  isPrivate : MapRef → Bool
  regCount : MapRef → Int
  stack : Nat → List MapRef

/- What the books record of a state. -/
def State.books (s : State) : Books where
  privateState := fun pe i => (s.privateEntry pe i).state
  sharedState := fun i => (s.sharedEntry i).state
  isPrivate := fun ref => (s.map ref).isPrivate
  regCount := fun ref => (s.map ref).regCount
  stack := fun pe => (s.cpu pe).dispatchStack.map (·.map)

namespace Books

/- The state of a handler as a PE sees it. -/
def stateAt (b : Books) (pe : Nat)
    (ref : MapRef) : EvState :=
  if ref.shared then b.sharedState ref.idx
  else b.privateState pe ref.idx

def setState (b : Books) (pe : Nat) (ref : MapRef)
    (st : EvState) : Books :=
  if ref.shared then
    { b with
      sharedState := update b.sharedState ref.idx st }
  else
    { b with
      privateState := update b.privateState pe (update (b.privateState pe) ref.idx st) }

def addCount (b : Books) (ref : MapRef)
    (change : Int) : Books :=
  { b with
    regCount := update b.regCount ref (b.regCount ref + change) }

def setStack (b : Books) (pe : Nat)
    (refs : List MapRef) : Books :=
  { b with stack := update b.stack pe refs }

/- The PEs that have registered for a private event. -/
def registeredPes (p : Platform) (b : Books)
    (i : Nat) : Finset Nat :=
  (Finset.range p.coreCount).filter (fun pe => (b.privateState pe i).registered = true)

----
-- Reading Changed Books
----

/- A changed handler state is seen only where it belongs. -/
theorem setState_shared (b : Books) (pe i : Nat) (st : EvState) :
    b.setState pe ⟨true, i⟩ st =
      { b with
        sharedState := update b.sharedState i st } :=
  rfl

theorem setState_private (b : Books) (pe i : Nat) (st : EvState) :
    b.setState pe ⟨false, i⟩ st =
      { b with
        privateState := update b.privateState pe (update (b.privateState pe) i st) } :=
  rfl

@[simp] theorem setState_regCount (b : Books) (pe : Nat) (ref : MapRef) (st : EvState) :
    (b.setState pe ref st).regCount = b.regCount := by
  unfold setState
  split <;> rfl

@[simp] theorem setState_isPrivate (b : Books) (pe : Nat) (ref : MapRef) (st : EvState) :
    (b.setState pe ref st).isPrivate = b.isPrivate := by
  unfold setState
  split <;> rfl

@[simp] theorem setState_stack (b : Books) (pe : Nat) (ref : MapRef) (st : EvState) :
    (b.setState pe ref st).stack = b.stack := by
  unfold setState
  split <;> rfl

/- Elsewhere the handler states stay. -/
theorem setState_privateState_of_ne {b : Books} {pe pe' i : Nat} {ref : MapRef} {st : EvState}
    (hNe : (⟨false, i⟩ : MapRef) ≠ ref ∨ pe' ≠ pe) :
    (b.setState pe ref st).privateState pe' i = b.privateState pe' i := by
  rcases ref with ⟨shared, j⟩
  cases shared with
  | true => rfl
  | false =>
    rw [setState_private]
    by_cases hPe : pe' = pe
    · subst hPe
      have hIdx : i ≠ j := by
        rintro rfl
        rcases hNe with hNe | hNe
        · exact hNe rfl
        · exact hNe rfl
      simp [hIdx]
    · simp [hPe]

theorem setState_sharedState_of_ne
    {b : Books} {pe i : Nat} {ref : MapRef} {st : EvState} (hNe : (⟨true, i⟩ : MapRef) ≠ ref) :
    (b.setState pe ref st).sharedState i = b.sharedState i := by
  rcases ref with ⟨shared, j⟩
  cases shared with
  | false => rfl
  | true =>
    rw [setState_shared]
    have hIdx : i ≠ j := by
      rintro rfl
      exact hNe rfl
    simp [hIdx]

theorem setState_setState (b : Books) (pe : Nat) (ref : MapRef) (st st' : EvState) :
    (b.setState pe ref st).setState pe ref st' = b.setState pe ref st' := by
  rcases ref with ⟨shared, i⟩
  cases shared with
  | true => simp [setState_shared]
  | false => simp [setState_private]

/- Writing back what is there changes nothing. -/
theorem setState_same (b : Books) (pe : Nat) (ref : MapRef) :
    b.setState pe ref (b.stateAt pe ref) = b := by
  rcases ref with ⟨shared, i⟩
  cases shared with
  | true => simp [setState_shared, stateAt]
  | false => simp [setState_private, stateAt]

----
-- Effects
----

/-
  What one operation of a PE does to the books: it changes
  at most the enabled bit of a handler, registers or removes
  one, or starts or ends one.
-/
inductive Effect (b : Books) (pe : Nat) : Books → Prop
  | keep (ref : MapRef) (next : EvState)
      (hRegistered : next.registered = (b.stateAt pe ref).registered)
      (hRunning : next.running = (b.stateAt pe ref).running) :
      Effect b pe (b.setState pe ref next)
  | register (ref : MapRef) (next : EvState) (hBefore : (b.stateAt pe ref).registered = false)
      (hAfter : next.registered = true)
      (hRunning : next.running = (b.stateAt pe ref).running) :
      Effect b pe ((b.setState pe ref next).addCount ref 1)
  | unregister (ref : MapRef) (next : EvState) (hBefore : (b.stateAt pe ref).registered = true)
      (hAfter : next.registered = false)
      (hRunning : next.running = (b.stateAt pe ref).running) :
      Effect b pe ((b.setState pe ref next).addCount ref (-1))
  | start (ref : MapRef) (next : EvState)
      (hRegistered : next.registered = (b.stateAt pe ref).registered)
      (hBefore : (b.stateAt pe ref).running = false)
      (hAfter : next.running = true) :
      Effect b pe ((b.setState pe ref next).setStack pe (ref :: b.stack pe))
  | finish (ref : MapRef) (rest : List MapRef) (next : EvState) (hStack : b.stack pe = ref :: rest)
      (hRegistered : next.registered = (b.stateAt pe ref).registered)
      (hAfter : next.running = false) :
      Effect b pe ((b.setState pe ref next).setStack pe rest)

----
-- The Invariant
----

/- Registration counts agree with the registered bits. -/
structure CountInv (p : Platform) (b : Books) : Prop where
  private_count : ∀ i, b.regCount ⟨false, i⟩ = (b.registeredPes p i).card
  shared_count :
    ∀ i, b.regCount ⟨true, i⟩ =
      if (b.sharedState i).registered then 1 else 0

/-
  Running bits agree with the dispatch stacks, and nothing
  is on two stacks or on one of them twice.
-/
structure StackInv (p : Platform) (b : Books) : Prop where
  private_running : ∀ pe i, (b.privateState pe i).running = true ↔ ⟨false, i⟩ ∈ b.stack pe
  shared_running : ∀ i, (b.sharedState i).running = true ↔ ∃ pe, ⟨true, i⟩ ∈ b.stack pe
  shared_unique : ∀ i pe pe', ⟨true, i⟩ ∈ b.stack pe → ⟨true, i⟩ ∈ b.stack pe' → pe = pe'
  nodup : ∀ pe, (b.stack pe).Nodup
  present : ∀ pe, b.stack pe ≠ [] → pe < p.coreCount

structure Inv (p : Platform) (b : Books) : Prop where
  kinds : ∀ ref, ref.idx < p.numMaps ref.shared → b.isPrivate ref = !ref.shared
  counts : b.CountInv p
  dispatches : b.StackInv p

variable {p : Platform} {b : Books} {pe : Nat} {ref : MapRef}

variable {next : EvState}

theorem setState_bit (bit : EvState → Bool) (hKeep : bit next = bit (b.stateAt pe ref)) :
    (∀ pe' i, bit ((b.setState pe ref next).privateState pe' i) = bit (b.privateState pe' i)) ∧
      ∀ i, bit ((b.setState pe ref next).sharedState i) = bit (b.sharedState i) := by
  rcases ref with ⟨shared, j⟩
  cases shared with
  | true =>
    simp only [stateAt, if_true] at hKeep
    refine ⟨fun _ _ => rfl, ?_⟩
    intro i
    rw [setState_shared]
    by_cases hHere : i = j
    · simp [hHere, hKeep]
    · simp [hHere]
  | false =>
    simp only [stateAt] at hKeep
    refine ⟨?_, fun _ => rfl⟩
    intro pe' i
    rw [setState_private]
    by_cases hPe : pe' = pe
    · subst hPe
      by_cases hHere : i = j
      · subst hHere
        simpa using hKeep
      · simp [hHere]
    · simp [hPe]

variable {b' : Books}

theorem CountInv.congr (hInv : b.CountInv p)
    (hPrivate : ∀ pe i, (b'.privateState pe i).registered = (b.privateState pe i).registered)
    (hShared : ∀ i, (b'.sharedState i).registered = (b.sharedState i).registered)
    (hCount : b'.regCount = b.regCount) :
    b'.CountInv p := by
  have hPes : ∀ i, b'.registeredPes p i = b.registeredPes p i := by
    intro i
    simp only [registeredPes, hPrivate]
  constructor
  · intro i
    rw [hCount, hPes]
    exact hInv.private_count i
  · intro i
    rw [hCount, hShared]
    exact hInv.shared_count i

theorem StackInv.congr (hInv : b.StackInv p)
    (hPrivate : ∀ pe i, (b'.privateState pe i).running = (b.privateState pe i).running)
    (hShared : ∀ i, (b'.sharedState i).running = (b.sharedState i).running)
    (hStack : b'.stack = b.stack) :
    b'.StackInv p := by
  refine ⟨?_, ?_, ?_, ?_, ?_⟩
  · intro pe i
    rw [hPrivate, hStack]
    exact hInv.private_running pe i
  · intro i
    rw [hShared, hStack]
    exact hInv.shared_running i
  · rw [hStack]
    exact hInv.shared_unique
  · rw [hStack]
    exact hInv.nodup
  · rw [hStack]
    exact hInv.present

theorem CountInv.keep
    (hInv : b.CountInv p) (hKeep : next.registered = (b.stateAt pe ref).registered) :
    (b.setState pe ref next).CountInv p := by
  rcases setState_bit (·.registered) hKeep with ⟨hPrivate, hShared⟩
  exact hInv.congr hPrivate hShared (by simp)

theorem StackInv.keep (hInv : b.StackInv p) (hKeep : next.running = (b.stateAt pe ref).running) :
    (b.setState pe ref next).StackInv p := by
  rcases setState_bit (·.running) hKeep with ⟨hPrivate, hShared⟩
  exact hInv.congr hPrivate hShared (by simp)

----
-- Registering
----

theorem registeredPes_setState_of_ne {i j : Nat} (hNe : i ≠ j) :
    (b.setState pe ⟨false, j⟩ next).registeredPes p i = b.registeredPes p i := by
  apply Finset.filter_congr
  intro pe' _
  rw [setState_private]
  by_cases hPe : pe' = pe
  · subst hPe
    simp [hNe]
  · simp [hPe]

theorem registeredPes_register
    {i : Nat} (hPe : pe < p.coreCount) (hAfter : next.registered = true) :
    (b.setState pe ⟨false, i⟩ next).registeredPes p i = insert pe (b.registeredPes p i) := by
  ext pe'
  rw [setState_private]
  by_cases hSelf : pe' = pe
  · subst hSelf
    simp [registeredPes, hAfter, hPe]
  · simp [registeredPes, hSelf]

theorem registeredPes_unregister {i : Nat} (hAfter : next.registered = false) :
    (b.setState pe ⟨false, i⟩ next).registeredPes p i = (b.registeredPes p i).erase pe := by
  ext pe'
  rw [setState_private]
  by_cases hSelf : pe' = pe
  · subst hSelf
    simp [registeredPes, hAfter]
  · simp [registeredPes, hSelf]

@[simp] theorem registeredPes_addCount (b : Books) (ref : MapRef) (change : Int) (i : Nat) :
    (b.addCount ref change).registeredPes p i = b.registeredPes p i := rfl

@[simp] theorem addCount_regCount_self (b : Books) (ref : MapRef) (change : Int) :
    (b.addCount ref change).regCount ref = b.regCount ref + change := by
  simp [addCount]

theorem addCount_regCount_of_ne {other : MapRef} {change : Int} (hNe : other ≠ ref) :
    (b.addCount ref change).regCount other = b.regCount other := by
  simp [addCount, hNe]

/-
  Changing one registered bit and one count keeps the counts
  of all other events.
-/
theorem CountInv.addCount_of {change : Int} (hInv : b.CountInv p)
    (hPrivate :
      ∀ i, ref = ⟨false, i⟩ →
        b.regCount ref + change = ((b.setState pe ref next).registeredPes p i).card)
    (hShared : ∀ i, ref = ⟨true, i⟩ → b.regCount ref + change = if next.registered then 1 else 0) :
    ((b.setState pe ref next).addCount ref change).CountInv p
    := by
  constructor
  · intro i
    rw [registeredPes_addCount]
    by_cases hHere : ref = ⟨false, i⟩
    · rw [← hHere, addCount_regCount_self, setState_regCount]
      exact hPrivate i hHere
    · rw [addCount_regCount_of_ne (Ne.symm hHere), setState_regCount, hInv.private_count i]
      rcases ref with ⟨shared, j⟩
      cases shared with
      | true => rfl
      | false =>
        rw [registeredPes_setState_of_ne]
        rintro rfl
        exact hHere rfl
  · intro i
    by_cases hHere : ref = ⟨true, i⟩
    · have hCount := hShared i hHere
      subst hHere
      rw [addCount_regCount_self, setState_regCount, hCount]
      simp [addCount, setState_shared]
    · rw [addCount_regCount_of_ne (Ne.symm hHere), setState_regCount, hInv.shared_count i]
      rcases ref with ⟨shared, j⟩
      cases shared with
      | false => rfl
      | true =>
        have hNe : i ≠ j := by
          rintro rfl
          exact hHere rfl
        simp [addCount, setState_shared, hNe]

theorem CountInv.register
    (hInv : b.CountInv p) (hPe : pe < p.coreCount) (hBefore : (b.stateAt pe ref).registered = false)
    (hAfter : next.registered = true) :
    ((b.setState pe ref next).addCount ref 1).CountInv p := by
  apply hInv.addCount_of
  · rintro i rfl
    have hNew : pe ∉ b.registeredPes p i := by
      simp only [stateAt] at hBefore
      simpa [registeredPes] using fun _ => hBefore
    rw [registeredPes_register hPe hAfter, Finset.card_insert_of_notMem hNew, hInv.private_count i]
    simp
  · rintro i rfl
    simp only [stateAt, if_true] at hBefore
    simp [hInv.shared_count i, hBefore, hAfter]

theorem CountInv.unregister
    (hInv : b.CountInv p) (hPe : pe < p.coreCount) (hBefore : (b.stateAt pe ref).registered = true)
    (hAfter : next.registered = false) :
    ((b.setState pe ref next).addCount ref (-1)).CountInv p
    := by
  apply hInv.addCount_of
  · rintro i rfl
    have hOld : pe ∈ b.registeredPes p i := by simpa [registeredPes] using ⟨hPe, hBefore⟩
    have hSome := Finset.card_pos.mpr ⟨pe, hOld⟩
    rw [registeredPes_unregister hAfter, Finset.card_erase_of_mem hOld, hInv.private_count i]
    omega
  · rintro i rfl
    simp only [stateAt, if_true] at hBefore
    simp [hInv.shared_count i, hBefore, hAfter]

----
-- Starting And Finishing
----

@[simp] theorem setStack_stack_self (b : Books) (pe : Nat) (refs : List MapRef) :
    (b.setStack pe refs).stack pe = refs := by
  simp [setStack]

variable {refs : List MapRef}

theorem setStack_stack_of_ne {pe' : Nat} (hNe : pe' ≠ pe) :
    (b.setStack pe refs).stack pe' = b.stack pe' := by
  simp [setStack, hNe]

/- Membership after this PE's stack lost or gained `ref`. -/
theorem mem_setStack {pe' : Nat} {other : MapRef}
    (hOthers : ∀ other, other ≠ ref → (other ∈ refs ↔ other ∈ b.stack pe))
    (hNe : other ≠ ref ∨ pe' ≠ pe) :
    other ∈ (b.setStack pe refs).stack pe' ↔ other ∈ b.stack pe' := by
  by_cases hSelf : pe' = pe
  · subst hSelf
    rw [setStack_stack_self]
    rcases hNe with hNe | hNe
    · exact hOthers other hNe
    · exact absurd rfl hNe
  · rw [setStack_stack_of_ne hSelf]

section

variable (hInv : b.StackInv p)
include hInv

theorem StackInv.running_of_mem (hMem : ref ∈ b.stack pe) :
    (b.stateAt pe ref).running = true := by
  rcases ref with ⟨shared, i⟩
  cases shared with
  | true => exact (hInv.shared_running i).mpr ⟨pe, hMem⟩
  | false => exact (hInv.private_running pe i).mpr hMem

/-
  This PE's stack loses or gains `ref`, and the running bit
  of `ref` says whether it is there now.
-/
theorem StackInv.setStack_of
    (hPe : pe < p.coreCount) (hOthers : ∀ other, other ≠ ref → (other ∈ refs ↔ other ∈ b.stack pe))
    (hHere : next.running = true ↔ ref ∈ refs) (hNodup : refs.Nodup)
    (hAlone : ref.shared = true → ∀ pe', pe' ≠ pe → ref ∉ b.stack pe') :
    ((b.setState pe ref next).setStack pe refs).StackInv p
    := by
  have hMem :
      ∀ pe' other, other ≠ ref ∨ pe' ≠ pe →
        (other ∈ ((b.setState pe ref next).setStack pe refs).stack pe' ↔ other ∈ b.stack pe') := by
    intro pe' other hNe
    have hSame : other ∈ ((b.setState pe ref next).setStack pe refs).stack pe' ↔
        other ∈ (b.setState pe ref next).stack pe' :=
      mem_setStack (by simpa using hOthers) hNe
    rwa [setState_stack] at hSame
  refine ⟨?_, ?_, ?_, ?_, ?_⟩
  · intro pe' i
    show ((b.setState pe ref next).privateState pe' i).running = true ↔ _
    by_cases hSelf : (⟨false, i⟩ : MapRef) = ref ∧ pe' = pe
    · rcases hSelf with ⟨rfl, rfl⟩
      rw [setStack_stack_self, setState_private]
      simpa using hHere
    · have hNe : (⟨false, i⟩ : MapRef) ≠ ref ∨ pe' ≠ pe := not_and_or.mp hSelf
      rw [hMem pe' _ hNe, setState_privateState_of_ne hNe]
      exact hInv.private_running pe' i
  · intro i
    show ((b.setState pe ref next).sharedState i).running = true ↔ _
    by_cases hSelf : (⟨true, i⟩ : MapRef) = ref
    · subst hSelf
      have hState :
          (b.setState pe ⟨true, i⟩ next).sharedState i = next := by
        simp [setState_shared]
      rw [hState, hHere]
      constructor
      · intro hIn
        exact ⟨pe, by rwa [setStack_stack_self]⟩
      · rintro ⟨pe', hIn⟩
        by_cases hPe' : pe' = pe
        · subst hPe'
          rwa [setStack_stack_self] at hIn
        · rw [hMem pe' _ (Or.inr hPe')] at hIn
          exact absurd hIn (hAlone rfl pe' hPe')
    · rw [setState_sharedState_of_ne hSelf, hInv.shared_running i]
      constructor
      · rintro ⟨pe', hIn⟩
        exact ⟨pe', (hMem pe' _ (Or.inl hSelf)).mpr hIn⟩
      · rintro ⟨pe', hIn⟩
        exact ⟨pe', (hMem pe' _ (Or.inl hSelf)).mp hIn⟩
  · intro i pe₁ pe₂ hFirst hSecond
    by_cases hSelf : (⟨true, i⟩ : MapRef) = ref
    · subst hSelf
      have hOnly :
          ∀ pe', ⟨true, i⟩ ∈
            ((b.setState pe ⟨true, i⟩ next).setStack pe refs).stack pe' → pe' = pe := by
        intro pe' hIn
        by_contra hNe
        rw [hMem pe' _ (Or.inr hNe)] at hIn
        exact hAlone rfl pe' hNe hIn
      rw [hOnly pe₁ hFirst, hOnly pe₂ hSecond]
    · rw [hMem pe₁ _ (Or.inl hSelf)] at hFirst
      rw [hMem pe₂ _ (Or.inl hSelf)] at hSecond
      exact hInv.shared_unique i pe₁ pe₂ hFirst hSecond
  · intro pe'
    by_cases hSelf : pe' = pe
    · subst hSelf
      rwa [setStack_stack_self]
    · rw [setStack_stack_of_ne hSelf, setState_stack]
      exact hInv.nodup pe'
  · intro pe' hSome
    by_cases hSelf : pe' = pe
    · rw [hSelf]
      exact hPe
    · rw [setStack_stack_of_ne hSelf, setState_stack] at hSome
      exact hInv.present pe' hSome

theorem StackInv.start (hPe : pe < p.coreCount) (hBefore : (b.stateAt pe ref).running = false)
    (hAfter : next.running = true) :
    ((b.setState pe ref next).setStack pe (ref :: b.stack pe)).StackInv p := by
  have hNew : ref ∉ b.stack pe := by
    intro hMem
    rw [hInv.running_of_mem hMem] at hBefore
    cases hBefore
  apply hInv.setStack_of hPe
  · intro other hNe
    simp [hNe]
  · simp [hAfter]
  · exact List.nodup_cons.mpr ⟨hNew, hInv.nodup pe⟩
  · intro hShared pe' _ hMem
    have hRunning := hInv.running_of_mem hMem
    simp only [stateAt, hShared, if_true] at hBefore hRunning
    rw [hRunning] at hBefore
    cases hBefore

theorem StackInv.finish {rest : List MapRef}
    (hPe : pe < p.coreCount) (hStack : b.stack pe = ref :: rest) (hAfter : next.running = false) :
    ((b.setState pe ref next).setStack pe rest).StackInv p
    := by
  have hNodup := hInv.nodup pe
  rw [hStack, List.nodup_cons] at hNodup
  apply hInv.setStack_of hPe
  · intro other hNe
    simp [hStack, hNe]
  · simp [hAfter, hNodup.1]
  · exact hNodup.2
  · intro hShared pe' hNe hMem
    rcases ref with ⟨shared, i⟩
    cases hShared
    apply hNe
    apply hInv.shared_unique i pe' pe hMem
    simp [hStack]

end

theorem Effect.isPrivate (hEffect : Effect b pe b') :
    b'.isPrivate = b.isPrivate := by
  cases hEffect with
  | keep ref next hRegistered hRunning => exact setState_isPrivate b pe ref next
  | register ref next hBefore hAfter hRunning => exact setState_isPrivate b pe ref next
  | unregister ref next hBefore hAfter hRunning => exact setState_isPrivate b pe ref next
  | start ref next hRegistered hBefore hAfter => exact setState_isPrivate b pe ref next
  | finish ref rest next hStack hRegistered hAfter => exact setState_isPrivate b pe ref next

theorem Effect.inv (hEffect : Effect b pe b') (hPe : pe < p.coreCount) (hInv : b.Inv p) :
    b'.Inv p := by
  have hKinds : ∀ ref, ref.idx < p.numMaps ref.shared → b'.isPrivate ref = !ref.shared := by
    rw [hEffect.isPrivate]
    exact hInv.kinds
  cases hEffect with
  | keep ref next hRegistered hRunning =>
    exact ⟨hKinds, hInv.counts.keep hRegistered, hInv.dispatches.keep hRunning⟩
  | register ref next hBefore hAfter hRunning =>
    refine ⟨hKinds, hInv.counts.register hPe hBefore hAfter, ?_⟩
    exact (hInv.dispatches.keep hRunning).congr (fun _ _ => rfl) (fun _ => rfl) rfl
  | unregister ref next hBefore hAfter hRunning =>
    refine ⟨hKinds, hInv.counts.unregister hPe hBefore hAfter, ?_⟩
    exact (hInv.dispatches.keep hRunning).congr (fun _ _ => rfl) (fun _ => rfl) rfl
  | start ref next hRegistered hBefore hAfter =>
    refine ⟨hKinds, ?_, hInv.dispatches.start hPe hBefore hAfter⟩
    exact (hInv.counts.keep hRegistered).congr (fun _ _ => rfl) (fun _ => rfl) rfl
  | finish ref rest next hStack hRegistered hAfter =>
    refine ⟨hKinds, ?_, hInv.dispatches.finish hPe hStack hAfter⟩
    exact (hInv.counts.keep hRegistered).congr (fun _ _ => rfl) (fun _ => rfl) rfl

end Books

end Tfa.Sdei
