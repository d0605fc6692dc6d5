import BootFirmware.Tfa.Sdei.Books
import Mathlib.Tactic.IntervalCases

/-
  Every SDEI entry point keeps the books, and the assertions
  on `reg_count` hold.

  The one exception is the hook of a CPU that comes up: it
  zeroes the private entries of the CPU and leaves counts
  and dispatch stack alone, so it keeps the books only when
  there is nothing to zero.

  Key definitions include:
    * `Outcome.Keeps`
    * `PrivateIdle`
    * `Bookkeeping`

  The main results are:
    * `State.run_keeps`
    * `sdei_registration_bookkeeping`
    * `sdei_cpu_on_loses_registration`
-/

----
-- State Changes In The Books
----

namespace Tfa.Sdei

namespace State

variable {p : Platform} {s : State} {pe : Nat}

@[simp] theorem books_stateAt (s : State) (pe : Nat) (ref : MapRef) :
    s.books.stateAt pe ref = (s.getEventEntry pe ref).state := by
  unfold Books.stateAt getEventEntry
  split <;> rfl

@[simp] theorem books_call (s : State) (pe : Nat) (c : IcCall) :
    (s.call pe c).books = s.books := rfl

@[simp] theorem books_setEntry (s : State) (pe : Nat) (ref : MapRef) (se : Entry) :
    (s.setEntry pe ref se).books = s.books.setState pe ref se.state := by
  rcases ref with ⟨shared, i⟩
  cases shared with
  | true =>
    simp only [setEntry, if_true, Books.setState_shared, books, Books.mk.injEq, true_and, and_true]
    funext j
    by_cases hHere : j = i
    · simp [hHere]
    · simp [hHere]
  | false =>
    simp only [setEntry, Bool.false_eq_true, if_false,
      Books.setState_private, books, Books.mk.injEq, and_true]
    funext pe' j
    by_cases hPe : pe' = pe
    · subst hPe
      by_cases hHere : j = i
      · simp [hHere]
      · simp [hHere]
    · simp [hPe]

@[simp] theorem books_setEvState (s : State) (pe : Nat) (ref : MapRef) (st : EvState) :
    (s.setEvState pe ref st).books = s.books.setState pe ref st := by
  simp [setEvState]

@[simp] theorem books_setCpu (s : State) (pe : Nat) (c : CpuState) :
    (s.setCpu pe c).books = s.books.setStack pe (c.dispatchStack.map (·.map)) := by
  simp only [setCpu, Books.setStack, books, Books.mk.injEq, true_and]
  funext pe'
  by_cases hPe : pe' = pe
  · simp [hPe]
  · simp [hPe]

/- Writing back the same stack changes nothing. -/
theorem books_setCpu_same {c : CpuState} (hSame : c.dispatchStack = (s.cpu pe).dispatchStack) :
    (s.setCpu pe c).books = s.books := by
  rw [books_setCpu, hSame]
  simp only [Books.setStack, books, Books.mk.injEq, true_and]
  exact Function.update_eq_self pe _

variable {ref : MapRef}

theorem books_setMap_same {m : EvMap}
    (hKind : m.isPrivate = (s.map ref).isPrivate) (hCount : m.regCount = (s.map ref).regCount) :
    (s.setMap ref m).books = s.books := by
  simp only [setMap, books, Books.mk.injEq, true_and, and_true]
  constructor
  · funext other
    by_cases hHere : other = ref
    · simp [hHere, hKind]
    · simp [hHere]
  · funext other
    by_cases hHere : other = ref
    · simp [hHere, hCount]
    · simp [hHere]

@[simp] theorem books_addRegCount (s : State) (ref : MapRef) (change : Int) :
    (s.addRegCount ref change).books = s.books.addCount ref change := by
  simp only [addRegCount, setMap, Books.addCount, books, Books.mk.injEq, true_and, and_true]
  constructor
  · funext other
    by_cases hHere : other = ref
    · simp [hHere]
    · simp [hHere]
  · funext other
    by_cases hHere : other = ref
    · simp [hHere]
    · simp [hHere]

@[simp] theorem books_claimInterrupt
    (s : State) (pe : Nat) (ref : MapRef) (evNum : Int) (flags mpidr : Nat) :
    (s.claimInterrupt p pe ref evNum flags mpidr).books = s.books := by
  dsimp only [claimInterrupt]
  split
  · split <;> rfl
  · split <;> rfl

theorem books_releaseInterrupt {ans : Answers} {evNum : Int} {s' : State}
    (hReleased : s.releaseInterrupt pe ref ans evNum = some s') :
    s'.books = s.books := by
  dsimp only [releaseInterrupt] at hReleased
  split at hReleased <;> split at hReleased <;>
    cases hReleased <;> rfl

----
-- Maps That Are Found
----

theorem findInMapping_range
    {shared : Bool} {test : EvMap → Bool} (hFound : s.findInMapping p shared test = some ref) :
    ref.idx < p.numMaps ref.shared := by
  rcases Option.map_eq_some_iff.mp hFound with ⟨i, hi, rfl⟩
  exact List.mem_range.mp (List.mem_of_find?_eq_some hi)

theorem findEventMap_range {evNum : Int} (hFound : s.findEventMap p evNum = some ref) :
    ref.idx < p.numMaps ref.shared := by
  unfold findEventMap at hFound
  split at hFound
  · rename_i ref' hPrivate
    cases hFound
    exact findInMapping_range hPrivate
  · exact findInMapping_range hFound

end State

----
-- The State Table
----

variable {st next : EvState}

/- Calls that are neither about registration nor running. -/
theorem canSdeiStateTrans_keep {act : Action}
    (hAct : act = .release ∨ act = .enable ∨ act = .disable ∨ act = .routing ∨ act = .context)
    (hTrans : canSdeiStateTrans st act = some next) :
    next.registered = st.registered ∧ next.running = st.running := by
  rcases st with ⟨_ | _, _ | _, _ | _⟩ <;>
    rcases hAct with rfl | rfl | rfl | rfl | rfl <;>
    cases hTrans <;> exact ⟨rfl, rfl⟩

theorem canSdeiStateTrans_register (hTrans : canSdeiStateTrans st .register = some next) :
    st.registered = false ∧ next.registered = true ∧ next.running = st.running := by
  rcases st with ⟨_ | _, _ | _, _ | _⟩ <;> cases hTrans
  exact ⟨rfl, rfl, rfl⟩

theorem canSdeiStateTrans_unregister (hTrans : canSdeiStateTrans st .unregister = some next) :
    st.registered = true ∧ next.registered = false ∧ next.running = st.running := by
  rcases st with ⟨_ | _, _ | _, _ | _⟩ <;> cases hTrans <;>
    exact ⟨rfl, rfl, rfl⟩

theorem canSdeiStateTrans_dispatch (hTrans : canSdeiStateTrans st .dispatch = some next) :
    next.registered = st.registered ∧ st.running = false ∧ next.running = true := by
  rcases st with ⟨_ | _, _ | _, _ | _⟩ <;> cases hTrans
  exact ⟨rfl, rfl, rfl⟩

theorem canSdeiStateTrans_complete {act : Action} (hAct : act = .complete ∨ act = .completeResume)
    (hTrans : canSdeiStateTrans st act = some next) :
    next.registered = st.registered ∧ next.running = false := by
  rcases st with ⟨_ | _, _ | _, _ | _⟩ <;>
    rcases hAct with rfl | rfl <;> cases hTrans <;>
    exact ⟨rfl, rfl⟩

----
-- Entry Points
----

/-
  A call returns in a state with `Q`, or fails in another
  way than by an assertion on `reg_count`.
-/
def Outcome.Keeps (Q : State → Prop) : Outcome → Prop
  | .ok (s, _) => Q s
  | .error fault => fault ≠ .regCount

namespace State

/- The books of a state are in order. -/
def Kept (p : Platform) (s : State) : Prop :=
  s.books.Inv p

variable {p : Platform} {s : State} {pe : Nat}

variable {s' : State}

theorem Kept.effect
    (hKept : s.Kept p) (hPe : pe < p.coreCount) (hEffect : Books.Effect s.books pe s'.books) :
    s'.Kept p :=
  hEffect.inv hPe hKept

/- A state with the same books is as good. -/
theorem Kept.same (hKept : s.Kept p) (hSame : s'.books = s.books) :
    s'.Kept p := by
  unfold Kept
  rw [hSame]
  exact hKept

variable {ref : MapRef}

theorem regCountOk_of_unregistered (hKept : s.Kept p) (hRange : ref.idx < p.numMaps ref.shared)
    (hState : (s.getEventEntry pe ref).state.registered = false) :
    s.regCountOk ref = true := by
  have hKind : (s.map ref).isPrivate = !ref.shared := hKept.kinds ref hRange
  rcases ref with ⟨shared, i⟩
  cases shared with
  | true =>
    have hCount : (s.map ⟨true, i⟩).regCount = _ := hKept.counts.shared_count i
    have hBit : (s.books.sharedState i).registered = false := hState
    rw [hBit] at hCount
    simp only [regCountOk, hKind, hCount]
    rfl
  | false =>
    have hCount : (s.map ⟨false, i⟩).regCount = _ := hKept.counts.private_count i
    simp only [regCountOk, hKind, hCount]
    simp

theorem sdeiEventRegister_keeps (hKept : s.Kept p) (hPe : pe < p.coreCount)
    (ans : Answers) (evNum : Int) (ep arg flags mpidr : Nat) :
    (s.sdeiEventRegister p pe ans evNum ep arg flags mpidr).Keeps (Kept p) := by
  unfold sdeiEventRegister
  split
  · exact hKept
  split
  · exact hKept
  split
  · exact hKept
  rename_i ref hFound
  dsimp only
  split
  · exact hKept
  rename_i next hTrans
  split
  · exact hKept
  rcases canSdeiStateTrans_register hTrans with ⟨hBefore, hAfter, hRunning⟩
  split
  · rename_i hFail
    rw [regCountOk_of_unregistered hKept (findEventMap_range hFound) hBefore] at hFail
    cases hFail
  split
  · exact hKept
  apply hKept.effect hPe
  have hEffect :=
    Books.Effect.register (b := s.books) ref next
      (by simpa using hBefore) hAfter (by simpa using hRunning)
  split <;>
    simpa [setSdeiEntry, Books.setState_setState] using hEffect

theorem regCountOk_of_effect
    (pe : Nat) (hKept : s'.Kept p) (hRange : ref.idx < p.numMaps ref.shared)
    (hState : (s'.getEventEntry pe ref).state.registered = false) :
    s'.regCountOk ref ≠ false := by
  rw [regCountOk_of_unregistered hKept hRange hState]
  simp

section

variable (hKept : s.Kept p)
include hKept

section

variable (hPe : pe < p.coreCount)
include hPe

theorem sdeiEventUnregister_keeps (ans : Answers) (evNum : Int) :
    (s.sdeiEventUnregister p pe ans evNum).Keeps (Kept p)
    := by
  unfold sdeiEventUnregister
  split
  · exact hKept
  rename_i ref hFound
  split
  · exact hKept
  rename_i next hTrans
  rcases canSdeiStateTrans_unregister hTrans with ⟨hBefore, hAfter, hRunning⟩
  -- the books after the transition and the decrement
  have hNext : ((s.setEvState pe ref next).addRegCount ref (-1)).Kept p := by
    apply hKept.effect hPe
    simpa using Books.Effect.unregister (b := s.books) ref next
      (by simpa using hBefore) hAfter (by simpa using hRunning)
  dsimp only
  split
  · rename_i hFail
    refine absurd hFail (regCountOk_of_effect pe hNext (findEventMap_range hFound) ?_)
    simpa [addRegCount] using hAfter
  split
  · simp [Outcome.Keeps]
  · rename_i s' hReleased
    apply hNext.same
    have hBooks : s'.books = ((s.setEvState pe ref next).addRegCount ref (-1)).books := by
      split at hReleased
      · exact books_releaseInterrupt hReleased
      · cases hReleased
        rfl
    rw [books_setEntry]
    have hSame := Books.setState_same s'.books pe ref
    rw [books_stateAt] at hSame
    exact hSame.trans hBooks

/- A call that only moves a handler within its bits. -/
theorem Kept.setEvState {next : EvState} {act : Action}
    (hAct : act = .release ∨ act = .enable ∨ act = .disable ∨ act = .routing ∨ act = .context)
    (hTrans : canSdeiStateTrans (s.getEventEntry pe ref).state act = some next) :
    (s.setEvState pe ref next).Kept p := by
  rcases canSdeiStateTrans_keep hAct hTrans with ⟨hRegistered, hRunning⟩
  apply hKept.effect hPe
  rw [books_setEvState]
  exact .keep ref next (by simpa using hRegistered) (by simpa using hRunning)

theorem sdeiEventSetEnabled_keeps {act : Action} (hAct : act = .enable ∨ act = .disable)
    (changed : Bool → Bool → Bool) (call : Nat → IcCall) (evNum : Int) :
    (s.sdeiEventSetEnabled p pe act changed call evNum).Keeps (Kept p) := by
  unfold sdeiEventSetEnabled
  split
  · exact hKept
  dsimp only
  split
  · exact hKept
  rename_i next hTrans
  have hNext := hKept.setEvState hPe (by rcases hAct with rfl | rfl <;> simp) hTrans
  split
  · exact hNext.same rfl
  · exact hNext

theorem sdeiEventRoutingSet_keeps (evNum : Int) (flags mpidr : Nat) :
    (s.sdeiEventRoutingSet p pe evNum flags mpidr).Keeps (Kept p) := by
  unfold sdeiEventRoutingSet
  split
  · exact hKept
  split
  · exact hKept
  split
  · exact hKept
  split
  · exact hKept
  split
  · exact hKept
  rename_i next hTrans
  have hNext := hKept.setEvState hPe (by simp) hTrans
  apply hNext.same
  simp [Books.setState_setState]

end

theorem sdeiInterruptBind_keeps (ans : Answers) (intrNum : Nat) :
    (s.sdeiInterruptBind p ans intrNum).Keeps (Kept p) := by
  unfold sdeiInterruptBind
  split
  · exact hKept
  -- what is done with a free slot, from both places
  have hSlot :
      ∀ ref : MapRef, Outcome.Keeps (Kept p)
          (if (s.map ref).dynamic = false then
            .error .halt
          else if ans.interruptType s.log intrNum ≠ .ns then
            .ok (s, sdeiEdeny)
          else if (s.map ref).bound then
            .error .spin
          else
            .ok (s.setMap ref
              { s.map ref with
                intr := intrNum
                bound := true },
              (s.map ref).evNum)) := by
    intro ref
    split
    · simp [Outcome.Keeps]
    split
    · exact hKept
    split
    · simp [Outcome.Keeps]
    · exact hKept.same (books_setMap_same rfl rfl)
  dsimp only
  split
  · split
    · exact hKept
    · exact hSlot _
  split
  · split
    · exact hKept
    · split
      · exact hKept
      · exact hSlot _
  · exact hKept

theorem sdeiInterruptRelease_keeps (hPe : pe < p.coreCount) (ans : Answers) (evNum : Int) :
    (s.sdeiInterruptRelease p pe ans evNum).Keeps (Kept p)
    := by
  unfold sdeiInterruptRelease
  split
  · exact hKept
  dsimp only
  split
  · exact hKept
  split
  · exact hKept
  split
  · exact hKept
  rename_i next hTrans
  have hNext := hKept.setEvState hPe (by simp) hTrans
  split
  · split
    · exact hNext
    · apply hNext.same
      apply books_setMap_same
      · unfold State.setEvState setEntry
        split <;> rfl
      · unfold State.setEvState setEntry
        split <;> rfl
  · exact hNext

end

theorem unregisterAll_keeps
    (hPe : pe < p.coreCount) (ans : Answers) (shared : Bool) (idxs : List Nat) (s : State)
    (finalRet : Int) (hKept : s.Kept p) :
    (unregisterAll p pe ans shared idxs s finalRet).Keeps (Kept p) := by
  induction idxs generalizing s finalRet with
  | nil => exact hKept
  | cons i rest ih =>
    have hOne := sdeiEventUnregister_keeps hKept hPe ans (s.map ⟨shared, i⟩).evNum
    unfold unregisterAll
    split
    · rename_i fault hRun
      rw [hRun] at hOne
      exact hOne
    · rename_i s' ret hRun
      rw [hRun] at hOne
      exact ih s' _ hOne

theorem releaseAll_keeps
    (hPe : pe < p.coreCount) (ans : Answers) (refs : List MapRef) (s : State) (finalRet : Int)
    (hKept : s.Kept p) :
    (releaseAll p pe ans refs s finalRet).Keeps (Kept p) := by
  induction refs generalizing s finalRet with
  | nil => exact hKept
  | cons ref rest ih =>
    have hOne := sdeiInterruptRelease_keeps hKept hPe ans (s.map ref).evNum
    unfold releaseAll
    split
    · split
      · rename_i fault hRun
        rw [hRun] at hOne
        exact hOne
      · rename_i s' ret hRun
        rw [hRun] at hOne
        exact ih s' _ hOne
    · exact ih s _ hKept

theorem sdeiSharedReset_keeps (hKept : s.Kept p) (hPe : pe < p.coreCount) (ans : Answers) :
    (s.sdeiSharedReset p pe ans).Keeps (Kept p) := by
  have hFirst := unregisterAll_keeps hPe ans true (List.range (p.numMaps true)) s 0 hKept
  unfold sdeiSharedReset
  split
  · rename_i fault hRun
    rw [hRun] at hFirst
    exact hFirst
  · rename_i s' ret hRun
    rw [hRun] at hFirst
    split
    · exact hFirst
    · exact releaseAll_keeps hPe ans _ s' 0 hFirst

/- Unmasking only makes calls. -/
theorem books_enableAll
    (pe : Nat) (shared : Bool) (test : EvMap → Entry → Bool) (idxs : List Nat) (s : State) :
    (enableAll pe shared test idxs s).books = s.books := by
  induction idxs generalizing s with
  | nil => rfl
  | cons i rest ih =>
    unfold enableAll
    rw [ih]
    split <;> rfl

theorem books_sdeiPeUnmask (p : Platform) (s : State) (pe : Nat) :
    (s.sdeiPeUnmask p pe).books = s.books := by
  refine Eq.trans (books_setCpu_same ?_) ?_
  · rfl
  split
  · rw [books_enableAll, books_enableAll]
  · rfl

----
-- Dispatch And Completion
----

/- A dispatch that goes through pushes the map. -/
theorem books_setupNsDispatch {secState : SecState} {intrRaw : Nat}
    (hSetup : s.setupNsDispatch p pe ref secState intrRaw = some s') :
    s'.books = s.books.setStack pe (ref :: s.books.stack pe) := by
  rcases Option.map_eq_some_iff.mp hSetup with ⟨mid, hSave, rfl⟩
  refine Eq.trans (books_setCpu_same ?_) ?_
  · rfl
  dsimp only [saveEventCtx] at hSave
  split at hSave
  · cases hSave
    rw [books_setCpu]
    rfl
  · cases hSave

section

variable (hKept : s.Kept p)
include hKept

/- The transition of a dispatch together with its push. -/
theorem Kept.dispatch {next : EvState} (hPe : pe < p.coreCount)
    (hTrans : canSdeiStateTrans (s.getEventEntry pe ref).state .dispatch = some next)
    (hBooks : s'.books = (s.books.setState pe ref next).setStack pe (ref :: s.books.stack pe)) :
    s'.Kept p := by
  rcases canSdeiStateTrans_dispatch hTrans with ⟨hRegistered, hBefore, hAfter⟩
  apply hKept.effect hPe
  rw [hBooks]
  exact .start ref next (by simpa using hRegistered) (by simpa using hBefore) hAfter

theorem handleMaskedTrigger_keeps (intrRaw : Nat) :
    (s.handleMaskedTrigger p pe ref intrRaw).Keeps (Kept p)
    := by
  unfold handleMaskedTrigger
  dsimp only
  split
  · exact hKept
  split
  · simp [Outcome.Keeps]
  split
  · apply hKept.same
    exact books_setCpu_same rfl
  split
  · simp [Outcome.Keeps]
  · exact hKept.same rfl

theorem sdeiIntrHandler_keeps (hPe : pe < p.coreCount) (intrRaw : Nat) (secState : SecState) :
    (s.sdeiIntrHandler p pe intrRaw secState).Keeps (Kept p)
    := by
  unfold sdeiIntrHandler
  dsimp only
  split
  · simp [Outcome.Keeps]
  rename_i ref hFound
  split
  · simp [Outcome.Keeps]
  split
  · exact handleMaskedTrigger_keeps hKept intrRaw
  split
  · simp [Outcome.Keeps]
  split
  · split
    · exact hKept.same rfl
    · exact hKept.same rfl
  rename_i next hTrans
  split
  · simp [Outcome.Keeps]
  split
  · simp [Outcome.Keeps]
  rename_i s' hSetup
  apply hKept.dispatch hPe hTrans
  rw [books_setupNsDispatch hSetup]
  split
  · have hEret :
        ((s.setEvState pe ref next).setNextEret pe .nonSecure).books =
          (s.setEvState pe ref next).books :=
      books_setCpu_same rfl
    rw [hEret]
    simp
  · simp

theorem sdeiDispatchEvent_keeps (hPe : pe < p.coreCount) (evNum : Int) (secState : SecState) :
    (s.sdeiDispatchEvent p pe evNum secState).Keeps (Kept p)
    := by
  unfold sdeiDispatchEvent
  dsimp only
  split
  · exact hKept
  split
  · exact hKept
  split
  · exact hKept
  rename_i ref hFound
  split
  · exact hKept
  split
  · exact hKept
  split
  · exact hKept
  split
  · exact hKept
  rename_i next hTrans
  split
  · simp [Outcome.Keeps]
  rename_i s' hSetup
  apply hKept.dispatch hPe hTrans
  rw [books_setupNsDispatch hSetup]
  have hEret :
      (((s.setEvState pe ref next).call pe
        (.activatePriority (p.sdeiEventPriority (s.map ref)))).setNextEret pe
        .nonSecure).books = (s.setEvState pe ref next).books :=
    books_setCpu_same rfl
  rw [hEret]
  simp

end

/- Completion pops what it finished. -/
theorem books_restoreEventCtx
    (p : Platform) (s : State) (pe : Nat) (d : DispatchContext) (resume : Option Nat) :
    (s.restoreEventCtx p pe d resume).books = s.books := by
  unfold restoreEventCtx
  split
  · exact books_setCpu_same rfl
  · exact books_setCpu_same rfl

theorem sdeiEventComplete_keeps
    (hKept : s.Kept p) (hPe : pe < p.coreCount) (ans : Answers) (resume : Option Nat) :
    (s.sdeiEventComplete p pe ans resume).Keeps (Kept p) := by
  unfold sdeiEventComplete
  split
  · exact hKept
  rename_i d rest hStack
  split
  · exact hKept
  dsimp only
  split
  · exact hKept
  rename_i next hTrans
  rcases canSdeiStateTrans_complete (by split <;> simp) hTrans with ⟨hRegistered, hAfter⟩
  have hTop : s.books.stack pe = d.map :: rest.map (·.map) := by simp [books, hStack]
  apply hKept.effect hPe
  have hEffect :=
    Books.Effect.finish (b := s.books) d.map
      (rest.map (·.map)) next hTop
      (by simpa using hRegistered) hAfter
  -- only the transition and the pop are in the books
  have hPopped :
      (((s.setEvState pe d.map next).setCpu pe
        { (s.setEvState pe d.map next).cpu pe with
          dispatchStack := rest }).restoreEventCtx p pe d resume).books =
        (s.books.setState pe d.map next).setStack pe (rest.map (·.map)) := by
    rw [books_restoreEventCtx]
    simp
  have hResumed : ∀ t : State, (t.setNextEret pe .secure).books = t.books :=
    fun t => books_setCpu_same rfl
  split <;> split <;>
    simpa only [books_call, hResumed, hPopped] using hEffect

theorem sdeiEventContext_keeps (hKept : s.Kept p) (hPe : pe < p.coreCount) (param : Nat) :
    (s.sdeiEventContext pe param).Keeps (Kept p) := by
  unfold sdeiEventContext
  split
  · exact hKept
  split
  · exact hKept
  split
  · exact hKept
  rename_i next hTrans
  exact hKept.setEvState hPe (by simp) hTrans

theorem sdeiSignal_keeps (hKept : s.Kept p) (evNum : Int) (target : Nat) :
    (s.sdeiSignal p pe evNum target).Keeps (Kept p) := by
  unfold sdeiSignal
  split
  · exact hKept
  split
  · exact hKept
  split
  · exact hKept
  split
  · exact hKept
  · exact hKept.same rfl

----
-- A CPU That Comes Up
----

/- No private event is registered or running on the PE. -/
def PrivateIdle (p : Platform) (s : State)
    (pe : Nat) : Prop :=
  ∀ i < p.numMaps false,
    (s.privateEntry pe i).state.registered = false ∧ (s.privateEntry pe i).state.running = false

theorem sdeiCpuOnInit_keeps (hKept : s.Kept p) (hIdle : s.PrivateIdle p pe) :
    (s.sdeiCpuOnInit p pe).Kept p := by
  have hBit :
      ∀ bit : EvState → Bool, bit reg_ = false →
        (∀ i < p.numMaps false, bit (s.privateEntry pe i).state = false) → ∀ pe' i,
          bit ((s.sdeiCpuOnInit p pe).books.privateState pe' i)
            = bit (s.books.privateState pe' i) := by
    intro bit hZero hOff pe' i
    simp only [sdeiCpuOnInit, sdeiPeMask, books, setCpu]
    by_cases hPe : pe' = pe
    · subst hPe
      simp only [Function.update_self]
      split
      · rename_i hIn
        rw [hOff i hIn]
        exact hZero
      · rfl
    · simp [hPe]
  have hStack : (s.sdeiCpuOnInit p pe).books.stack = s.books.stack := by
    simp only [sdeiCpuOnInit, sdeiPeMask, books, setCpu]
    funext pe'
    by_cases hPe : pe' = pe
    · simp [hPe]
    · simp [hPe]
  refine ⟨hKept.kinds, ?_, ?_⟩
  · exact hKept.counts.congr (hBit (·.registered) rfl fun i hi => (hIdle i hi).1) (fun _ => rfl) rfl
  · exact hKept.dispatches.congr (hBit (·.running) rfl fun i hi => (hIdle i hi).2)
      (fun _ => rfl) hStack

----
-- Runs
----

/- A CPU that comes up has nothing registered or running. -/
def CpuOnIdle (p : Platform) (s : State)
    (l : Label) : Prop :=
  l.entry = .cpuOnFinish → s.PrivateIdle p l.pe

instance (p : Platform) (s : State) (l : Label) : Decidable (CpuOnIdle p s l) := by
  unfold CpuOnIdle PrivateIdle
  infer_instance

theorem run_keeps
    {l : Label} (hKept : s.Kept p) (hPe : l.pe < p.coreCount) (hIdle : CpuOnIdle p s l) :
    (s.run p l).Keeps (Kept p) := by
  unfold run
  split
  case h_1 => exact sdeiEventRegister_keeps hKept hPe ..
  case h_2 =>
      exact sdeiEventSetEnabled_keeps hKept hPe (by simp) ..
  case h_3 =>
      exact sdeiEventSetEnabled_keeps hKept hPe (by simp) ..
  case h_4 => exact sdeiEventContext_keeps hKept hPe ..
  case h_5 => exact sdeiEventComplete_keeps hKept hPe ..
  case h_6 => exact sdeiEventUnregister_keeps hKept hPe ..
  case h_7 => exact hKept
  case h_8 => exact hKept
  case h_9 => exact sdeiEventRoutingSet_keeps hKept hPe ..
  case h_10 => exact hKept.same (books_setCpu_same rfl)
  case h_11 => exact hKept.same (books_sdeiPeUnmask ..)
  case h_12 => exact sdeiInterruptBind_keeps hKept ..
  case h_13 => exact sdeiInterruptRelease_keeps hKept hPe ..
  case h_14 => exact sdeiSignal_keeps hKept ..
  case h_15 => exact unregisterAll_keeps hPe _ _ _ s 0 hKept
  case h_16 => exact sdeiSharedReset_keeps hKept hPe ..
  case h_17 => exact sdeiIntrHandler_keeps hKept hPe ..
  case h_18 => exact sdeiDispatchEvent_keeps hKept hPe ..
  case h_19 hEntry =>
      exact sdeiCpuOnInit_keeps hKept (hIdle hEntry)

theorem sdeiInit_kept (contexts : Nat → Context) :
    (p.sdeiInit contexts).Kept p := by
  refine ⟨?_, ?_, ?_⟩
  · intro ref hRange
    have hMem : (p.maps ref.shared).getD ref.idx .none ∈ p.maps ref.shared := by
      rw [List.getD, List.getElem?_eq_getElem hRange]
      exact List.getElem_mem hRange
    show ((p.maps ref.shared).getD ref.idx .none).isPrivate = !ref.shared
    cases hShared : ref.shared with
    | true =>
      rw [hShared] at hMem
      exact (p.shared_ok _ hMem).1
    | false =>
      rw [hShared] at hMem
      exact (p.private_ok _ hMem).1
  · constructor
    · intro i
      simp [books, Platform.sdeiInit, EvMap.classInit, Books.registeredPes, Entry.zero, reg_]
    · intro i
      rfl
  · refine ⟨?_, ?_, ?_, ?_, ?_⟩
    · intro pe i
      simp [books, Platform.sdeiInit, Entry.zero, reg_]
    · intro i
      simp [books, Platform.sdeiInit, Entry.zero, reg_]
    · intro i pe pe' hMem
      simp [books, Platform.sdeiInit] at hMem
    · intro pe
      simp [books, Platform.sdeiInit]
    · intro pe hSome
      simp [books, Platform.sdeiInit] at hSome

/- Reached states have their books in order. -/
theorem kept_of_reachable
    {contexts : Nat → Context} (hReach : (sdeiSystem p contexts).ReachableBy (CpuOnIdle p) s) :
    s.Kept p := by
  refine hReach.invariant ?_ ?_
  · intro s hStart
    rw [hStart]
    exact sdeiInit_kept contexts
  · intro s l s' hKept hIdle hStep
    have hStep : s.step p l = some s' := hStep
    unfold step at hStep
    split at hStep
    · rename_i hPe
      have hRun := run_keeps hKept hPe hIdle
      split at hStep
      · rename_i hOk
        rw [hOk] at hRun
        cases hStep
        exact hRun
      · cases hStep
    · cases hStep

----
-- Bookkeeping
----

/- A map is on the dispatch stack of a PE. -/
def OnStack (s : State) (pe : Nat) (ref : MapRef) : Prop :=
  ∃ d ∈ (s.cpu pe).dispatchStack, d.map = ref

/-
  The registration count of a private event is the number of
  PEs registered for it, that of a shared event says whether
  it is registered, no assertion on a count can fail, and
  exactly the running events are on dispatch stacks.
-/
structure Bookkeeping (p : Platform) (s : State) : Prop where
  private_count :
    ∀ i < p.numMaps false, (s.map ⟨false, i⟩).regCount =
      ((Finset.range p.coreCount).filter (fun pe =>
        (s.privateEntry pe i).state.registered = true)).card
  shared_count :
    ∀ i < p.numMaps true, (s.map ⟨true, i⟩).regCount =
      if (s.sharedEntry i).state.registered then 1 else 0
  assertions : ∀ l : Label, l.pe < p.coreCount → s.run p l ≠ .error .regCount
  private_running :
    ∀ pe < p.coreCount, ∀ i < p.numMaps false,
      (s.privateEntry pe i).state.running = true ↔ s.OnStack pe ⟨false, i⟩
  shared_running :
    ∀ i < p.numMaps true,
      (s.sharedEntry i).state.running = true ↔ ∃! pe, pe < p.coreCount ∧ s.OnStack pe ⟨true, i⟩
  shared_on_stack :
    ∀ i < p.numMaps true, ∀ pe, s.OnStack pe ⟨true, i⟩ → (s.sharedEntry i).state.running = true

theorem onStack_iff {ref : MapRef} :
    s.OnStack pe ref ↔ ref ∈ s.books.stack pe := by
  simp [OnStack, books]

/- No call fails an assertion on a count. -/
theorem run_ne_regCount {l : Label} (hKept : s.Kept p) (hPe : l.pe < p.coreCount) :
    s.run p l ≠ .error .regCount := by
  intro hFail
  by_cases hEntry : l.entry = .cpuOnFinish
  · unfold run at hFail
    rw [hEntry] at hFail
    cases hFail
  · have hRun := run_keeps hKept hPe (fun h => absurd h hEntry)
    rw [hFail] at hRun
    exact hRun rfl

theorem Kept.bookkeeping (hKept : s.Kept p) : s.Bookkeeping p
    where
  private_count := fun i _ => hKept.counts.private_count i
  shared_count := fun i _ => hKept.counts.shared_count i
  assertions := fun _ hPe => run_ne_regCount hKept hPe
  private_running := fun pe _ i _ => by
    rw [onStack_iff]
    exact hKept.dispatches.private_running pe i
  shared_running := fun i _ => by
    have hOnly : ∀ pe pe', s.OnStack pe ⟨true, i⟩ → s.OnStack pe' ⟨true, i⟩ → pe = pe' := by
      intro pe pe' hOn hOn'
      rw [onStack_iff] at hOn hOn'
      exact hKept.dispatches.shared_unique i pe pe' hOn hOn'
    have hRunning : (s.sharedEntry i).state.running = true ↔ ∃ pe, s.OnStack pe ⟨true, i⟩ := by
      simp only [onStack_iff]
      exact hKept.dispatches.shared_running i
    rw [hRunning]
    constructor
    · rintro ⟨pe, hOn⟩
      have hPe : pe < p.coreCount := by
        apply hKept.dispatches.present pe
        exact List.ne_nil_of_mem (onStack_iff.mp hOn)
      exact ⟨pe, ⟨hPe, hOn⟩, fun pe' hOn' => hOnly pe' pe hOn'.2 hOn⟩
    · rintro ⟨pe, ⟨-, hOn⟩, -⟩
      exact ⟨pe, hOn⟩
  shared_on_stack := fun i _ pe hOn => by
    rw [onStack_iff] at hOn
    exact (hKept.dispatches.shared_running i).mpr ⟨pe, hOn⟩

/-
  Bringing up a CPU with a registered or running private
  event leaves a count too high or a stack entry behind.
-/
theorem sdeiCpuOnInit_bookkeeping_iff (hKept : s.Kept p) (hPe : pe < p.coreCount) :
    (s.sdeiCpuOnInit p pe).Bookkeeping p ↔ s.PrivateIdle p pe := by
  constructor
  · intro hBooks i hi
    have hZero :
        ((s.sdeiCpuOnInit p pe).privateEntry pe i).state = reg_ := by
      simp [sdeiCpuOnInit, sdeiPeMask, setCpu, hi, Entry.zero]
    constructor
    · by_contra hRegistered
      rw [Bool.not_eq_false] at hRegistered
      have hBefore := hKept.counts.private_count i
      have hAfter := hBooks.private_count i hi
      have hIn : pe ∈ s.books.registeredPes p i :=
        Finset.mem_filter.mpr ⟨Finset.mem_range.mpr hPe, hRegistered⟩
      have hOthers :
          (Finset.range p.coreCount).filter (fun pe' =>
            ((s.sdeiCpuOnInit p pe).privateEntry pe' i).state.registered = true) =
            (s.books.registeredPes p i).erase pe := by
        ext pe'
        by_cases hSelf : pe' = pe
        · subst hSelf
          simp [hZero, reg_]
        · rw [Finset.mem_filter, Finset.mem_erase, Books.registeredPes, Finset.mem_filter]
          simp [sdeiCpuOnInit, sdeiPeMask, setCpu, hSelf, books]
      have hSome := Finset.card_pos.mpr ⟨pe, hIn⟩
      have hSame : (s.map ⟨false, i⟩).regCount = ((s.books.registeredPes p i).erase pe).card := by
        rw [← hOthers]
        exact hAfter
      rw [Finset.card_erase_of_mem hIn] at hSame
      have hCount : (s.map ⟨false, i⟩).regCount = (s.books.registeredPes p i).card := hBefore
      omega
    · by_contra hRunning
      rw [Bool.not_eq_false] at hRunning
      have hOn : s.OnStack pe ⟨false, i⟩ :=
        onStack_iff.mpr ((hKept.dispatches.private_running pe i).mp hRunning)
      have hStill : (s.sdeiCpuOnInit p pe).OnStack pe ⟨false, i⟩ := by
        simpa [OnStack, sdeiCpuOnInit, sdeiPeMask, setCpu] using hOn
      have hNow := (hBooks.private_running pe hPe i hi).mpr hStill
      rw [hZero] at hNow
      cases hNow
  · intro hIdle
    exact (sdeiCpuOnInit_keeps hKept hIdle).bookkeeping

end State

----
-- Main Results
----

/-
  In every run in which CPUs only come up with no private
  event registered or running on them, the bookkeeping is
  right; and a CPU that comes up keeps it right only then.
-/
theorem sdei_registration_bookkeeping (p : Platform) (contexts : Nat → Context) (s : State)
    (hReach : (sdeiSystem p contexts).ReachableBy (State.CpuOnIdle p) s) :
    s.Bookkeeping p ∧
      ∀ pe < p.coreCount, (s.sdeiCpuOnInit p pe).Bookkeeping p ↔ s.PrivateIdle p pe := by
  have hKept := State.kept_of_reachable hReach
  refine ⟨hKept.bookkeeping, ?_⟩
  intro pe hPe
  exact State.sdeiCpuOnInit_bookkeeping_iff hKept hPe

/- Two PEs with event 0 and one private timer event. -/
def twoPes : Platform where
  coreCount := 2
  primaryPe := 0
  privateMaps :=
    [{ evNum := 0, intr := 8, dynamic := false
       bound := false, signalable := true, isPrivate := true
       critical := false, regCount := 0 },
     { evNum := 1, intr := 26, dynamic := false
       bound := false, signalable := false, isPrivate := true
       critical := false, regCount := 0 }]
  sharedMaps := []
  mpidr := fun pe => pe
  validAffinity := fun mpidr => mpidr < 2
  isSgi := fun intr => intr < 16
  isPpi := fun intr => 16 ≤ intr && intr < 32
  isSpi := fun intr => 32 ≤ intr
  intrId := fun intrRaw => intrRaw
  validateEntryPoint := fun _ _ => true
  clientEl := 2
  criticalPri := 0x60
  normalPri := 0x70
  cores_lt := by decide
  shared_ok := by decide
  private_ok := by decide
  shared_sorted := by decide
  private_sorted := by decide
  zero_found := by decide
  dynIrq_isSgi := by decide
  critical_lt_normal := by decide

def zeroContext : Context where
  x := fun _ => 0
  elrEl3 := 0
  spsrEl3 := 0

/- Interrupts are inactive and owned by Non-secure. -/
def quietAnswers : Answers where
  interruptActive := fun _ _ => false
  interruptType := fun _ _ => .ns
  nsPreemptionAllowed := false

/- PE 1 runs its timer event while PE 0 has none. -/
theorem sdei_registration_bookkeeping_running :
    ∃ s : State, (sdeiSystem twoPes (fun _ => zeroContext)).ReachableBy (State.CpuOnIdle twoPes) s ∧
      (s.privateEntry 1 1).state = REG_ ∧ s.Bookkeeping twoPes := by
  rcases TransitionSystem.exists_reachableBy (State.step twoPes) (State.CpuOnIdle twoPes)
      (twoPes.sdeiInit (fun _ => zeroContext))
      [⟨1, .cpuOnFinish, quietAnswers⟩, ⟨1, .peUnmask, quietAnswers⟩,
        ⟨1, .eventRegister 1 0x1000 7 0 0, quietAnswers⟩, ⟨1, .eventEnable 1, quietAnswers⟩,
        ⟨1, .interrupt 26 .nonSecure, quietAnswers⟩]
      (fun s => (s.privateEntry 1 1).state = REG_)
      (by decide) with
    ⟨s, hReach, hState⟩
  exact ⟨s, hReach, hState,
    (sdei_registration_bookkeeping twoPes (fun _ => zeroContext) s hReach).1⟩

/-
  PE 1 registers for its timer event, goes off and comes up
  again: it is no longer registered but still counted.
-/
theorem sdei_cpu_on_loses_registration :
    ∃ s : State, (sdeiSystem twoPes (fun _ => zeroContext)).Reachable s ∧
      (s.map ⟨false, 1⟩).regCount = 1 ∧ (∀ pe < 2, (s.privateEntry pe 1).state = reg_) ∧
      ¬ s.Bookkeeping twoPes := by
  rcases TransitionSystem.exists_reachableBy (State.step twoPes) (fun _ _ => True)
      (twoPes.sdeiInit (fun _ => zeroContext))
      [⟨1, .cpuOnFinish, quietAnswers⟩, ⟨1, .eventRegister 1 0x1000 7 0 0, quietAnswers⟩,
        ⟨1, .cpuOnFinish, quietAnswers⟩]
      (fun s => (s.map ⟨false, 1⟩).regCount = 1 ∧ (s.privateEntry 0 1).state = reg_ ∧
        (s.privateEntry 1 1).state = reg_)
      (by decide) with
    ⟨s, hReach, hCount, hFirst, hSecond⟩
  have hStates : ∀ pe < 2, (s.privateEntry pe 1).state = reg_ := by
    intro pe hPe
    interval_cases pe
    · exact hFirst
    · exact hSecond
  refine ⟨s, hReach, hCount, hStates, ?_⟩
  intro hBooks
  have hWrong := hBooks.private_count 1 (by decide)
  have hNobody :
      (Finset.range twoPes.coreCount).filter (fun pe =>
        (s.privateEntry pe 1).state.registered = true) = ∅ := by
    apply Finset.filter_eq_empty_iff.mpr
    intro pe hPe
    rw [hStates pe (Finset.mem_range.mp hPe)]
    decide
  rw [hNobody, hCount] at hWrong
  cases hWrong

end Tfa.Sdei
