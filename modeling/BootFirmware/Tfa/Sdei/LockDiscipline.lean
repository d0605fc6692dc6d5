import BootFirmware.Tfa.Sdei.Locking

/-
  The lock discipline of the SDEI entry points.

  Every path of an entry point releases only locks that it
  holds, and holds the lock of a shared map where it writes
  its state word, unless it completes a shared event: then
  the transition comes before the lock, and a transition that
  fails is followed by an unlock.

  Key definitions include:
    * `Own` and `Interference`
    * `CompletesShared` and `QueriesShared`

  The main results are:
    * `keeps_program`
    * `sdei_lock_discipline`
    * `sdei_complete_unlocked`
-/

----
-- What The Others Do
----

namespace Tfa.Sdei

open LockProgram List

/- All of a map but what binding and registering change. -/
def EvMap.fixed (m : EvMap) : EvMap :=
  { m with intr := 0, bound := false, regCount := 0 }

/-
  What a PE may do to the state: kinds of maps are fixed, and
  what belongs to another PE is left alone.
-/
structure Own (pe : Nat) (s t : State) : Prop where
  fixed : ∀ ref, (t.map ref).fixed = (s.map ref).fixed
  cpu : ∀ pe', pe' ≠ pe → t.cpu pe' = s.cpu pe'
  privateEntry : ∀ pe', pe' ≠ pe → t.privateEntry pe' = s.privateEntry pe'

/- What the others may do while a PE runs an entry point. -/
structure Interference (pe : Nat) (s t : State) : Prop where
  fixed : ∀ ref, (t.map ref).fixed = (s.map ref).fixed
  cpu : t.cpu pe = s.cpu pe
  privateEntry : t.privateEntry pe = s.privateEntry pe

variable {pe pe' : Nat} {s t u : State} {ref : MapRef}

theorem Interference.refl : Interference pe s s :=
  ⟨fun _ => rfl, rfl, rfl⟩

theorem Own.trans (hFirst : Own pe s t) (hSecond : Own pe t u) :
    Own pe s u where
  fixed ref := (hSecond.fixed ref).trans (hFirst.fixed ref)
  cpu pe' hOther := (hSecond.cpu pe' hOther).trans (hFirst.cpu pe' hOther)
  privateEntry pe' hOther :=
    (hSecond.privateEntry pe' hOther).trans (hFirst.privateEntry pe' hOther)

----
-- What A PE Does
----

theorem own_call (c : IcCall) :
    Own pe s (s.call pe' c) :=
  ⟨fun _ => rfl, fun _ _ => rfl, fun _ _ => rfl⟩

theorem own_setCpu (c : CpuState) :
    Own pe s (s.setCpu pe c) where
  fixed _ := rfl
  cpu _ hOther := Function.update_of_ne hOther _ _
  privateEntry _ _ := rfl

theorem own_setEntry (se : Entry) :
    Own pe s (s.setEntry pe ref se) := by
  unfold State.setEntry
  split
  · exact ⟨fun _ => rfl, fun _ _ => rfl, fun _ _ => rfl⟩
  · exact ⟨fun _ => rfl, fun _ _ => rfl, fun _ hOther => Function.update_of_ne hOther _ _⟩

theorem own_setMap {m : EvMap} (hFixed : m.fixed = (s.map ref).fixed) :
    Own pe s (s.setMap ref m) where
  fixed ref' := by
    by_cases hHere : ref' = ref
    · subst hHere
      rw [setMap_map_self, hFixed]
    · rw [setMap_map_of_ne s m hHere]
  cpu _ _ := rfl
  privateEntry _ _ := rfl

variable {p : Platform}

theorem own_claimInterrupt {evNum : Int} {flags mpidr : Nat} :
    Own pe s (s.claimInterrupt p pe ref evNum flags mpidr) := by
  dsimp only [State.claimInterrupt]
  split <;> split <;>
    exact ⟨fun _ => rfl, fun _ _ => rfl, fun _ _ => rfl⟩

theorem own_releaseInterrupt
    {ans : Answers} {evNum : Int} (hReleased : s.releaseInterrupt pe ref ans evNum = some t) :
    Own pe s t := by
  dsimp only [State.releaseInterrupt] at hReleased
  split at hReleased <;> split at hReleased <;>
    cases hReleased <;>
    exact ⟨fun _ => rfl, fun _ _ => rfl, fun _ _ => rfl⟩

theorem own_setupNsDispatch {secState : SecState} {intrRaw : Nat}
    (hSetup : s.setupNsDispatch p pe ref secState intrRaw = some t) :
    Own pe s t := by
  rcases Option.map_eq_some_iff.mp hSetup with ⟨saved, hSaved, rfl⟩
  unfold State.saveEventCtx at hSaved
  dsimp only at hSaved
  split at hSaved
  · cases hSaved
    exact (own_setCpu _).trans (own_setCpu _)
  · cases hSaved

theorem own_restoreEventCtx {d : DispatchContext} {resume : Option Nat} :
    Own pe s (s.restoreEventCtx p pe d resume) := by
  unfold State.restoreEventCtx
  split <;> exact own_setCpu _

theorem own_sdeiCpuOnInit : Own pe s (s.sdeiCpuOnInit p pe) := by
  have hEntries :
      Own pe s
        { s with
          privateEntry :=
            Function.update s.privateEntry pe (fun i =>
              if i < p.numMaps false then .zero
              else s.privateEntry pe i) } :=
    ⟨fun _ => rfl, fun _ _ => rfl, fun _ hOther => Function.update_of_ne hOther _ _⟩
  exact hEntries.trans (own_setCpu _)

----
-- Steps That Keep The Discipline
----

/- Which maps are private. -/
def Kinds (kind : MapRef → Bool) (s : State) : Prop :=
  ∀ ref, (s.map ref).isPrivate = kind ref

theorem Kinds.of_fixed {kind : MapRef → Bool}
    (hKinds : Kinds kind s) (hFixed : ∀ ref, (t.map ref).fixed = (s.map ref).fixed) :
    Kinds kind t := by
  intro ref
  rw [← hKinds ref]
  have hSame := congrArg EvMap.isPrivate (hFixed ref)
  exact hSame

/-
  A program on a PE that keeps the discipline with the locks
  `held` and ends in `post`.
-/
abbrev Keeps
    {R : Type}
    (strict : Prop) (kind : MapRef → Bool) (pe : Nat) (held : List MapRef) (prog : Prog R)
    (post : List MapRef → R → Prop) : Prop :=
  prog.Safe strict (Kinds kind) (Own pe) post held

/- The lock that a map needs, if any. -/
def locks (kind : MapRef → Bool) (ref : MapRef) : List MapRef :=
  if kind ref then [] else [ref]

namespace Locked

variable {p : Platform} {ans : Answers} {strict : Prop} {kind : MapRef → Bool} {held : List MapRef}
  {R : Type}

theorem keeps_readMap
    {post : List MapRef → EvMap → Prop} (hPost : ∀ m, m.isPrivate = kind ref → post held m) :
    Keeps strict kind pe held (readMap ref) post :=
  safe_read.mpr fun _ hKinds => hPost _ (hKinds ref)

theorem keeps_read {look : State → R} {post : List MapRef → R → Prop} (hPost : ∀ r, post held r) :
    Keeps strict kind pe held (.read look) post :=
  safe_read.mpr fun _ _ => hPost _

theorem keeps_icCall {c : IcCall} {post : List MapRef → Unit → Prop} (hPost : post held ()) :
    Keeps strict kind pe held (icCall pe c) post :=
  safe_modify (fun _ => own_call c) hPost

theorem keeps_lock
    {post : List MapRef → Unit → Prop} (hFree : ref ∉ held) (hPost : post (ref :: held) ()) :
    Keeps strict kind pe held (sdeiMapLock ref) post :=
  ⟨hFree, hPost⟩

theorem keeps_unlock {post : List MapRef → Unit → Prop} (hPost : post [] ()) :
    Keeps strict kind pe [ref] (sdeiMapUnlock ref) post := by
  refine ⟨mem_singleton_self ref, ?_⟩
  rw [erase_cons_head]
  exact hPost

theorem keeps_lockIfShared {post : List MapRef → Unit → Prop} (hPost : post (locks kind ref) ()) :
    Keeps strict kind pe [] (lockIfShared ref) post := by
  refine safe_bind.mpr (safe_read.mpr fun t hKinds => ?_)
  rw [hKinds ref]
  unfold locks at hPost
  cases hKind : kind ref with
  | true =>
    rw [hKind] at hPost
    exact hPost
  | false =>
    rw [hKind] at hPost
    exact keeps_lock not_mem_nil hPost

theorem keeps_unlockIfShared {post : List MapRef → Unit → Prop} (hPost : post [] ()) :
    Keeps strict kind pe (locks kind ref) (unlockIfShared ref)
      post := by
  refine safe_bind.mpr (safe_read.mpr fun t hKinds => ?_)
  rw [hKinds ref]
  unfold locks
  cases hKind : kind ref with
  | true => exact hPost
  | false => exact keeps_unlock hPost

/- A transition, with the lock of a shared map held. -/
theorem keeps_canSdeiStateTrans {act : Action} {post : List MapRef → Bool → Prop}
    (hLock : kind ref = false → ref ∈ held) (hPost : ∀ r, post held r) :
    Keeps strict kind pe held (canSdeiStateTrans pe ref act)
      post := by
  intro t hKinds
  refine ⟨?_, ?_, hPost _⟩
  · intro m hGuard _
    dsimp only at hGuard
    rw [hKinds ref] at hGuard
    cases hKind : kind ref with
    | true =>
      rw [hKind] at hGuard
      cases hGuard
    | false =>
      rw [hKind] at hGuard
      cases hGuard
      exact hLock hKind
  · intro t' hChange
    rcases Option.map_eq_some_iff.mp hChange with ⟨next, -, rfl⟩
    exact own_setEntry _

theorem locks_held (hKind : kind ref = false) :
    ref ∈ locks kind ref := by
  unfold locks
  rw [hKind]
  exact mem_singleton_self ref

variable {test : EvMap → Bool} {refs : List MapRef}

theorem keeps_findInMaps {post : List MapRef → Option MapRef → Prop} (hPost : ∀ r, post held r) :
    Keeps strict kind pe held (findInMaps test refs) post := by
  induction refs with
  | nil => exact hPost none
  | cons ref rest ih =>
    refine safe_bind.mpr (keeps_readMap fun m _ => ?_)
    split
    · exact hPost _
    · exact ih

/- What follows a search is about each map it can find. -/
theorem keeps_found {next : Option MapRef → Prog R} {post : List MapRef → R → Prop}
    (hNone : Keeps strict kind pe held (next none) post)
    (hSome : ∀ ref, Keeps strict kind pe held (next (some ref)) post) :
    Keeps strict kind pe held (findInMaps test refs >>= next)
      post :=
  safe_bind.mpr (keeps_findInMaps fun found =>
    match found with
    | none => hNone
    | some ref => hSome ref)

theorem keeps_assertRegCount {post : List MapRef → Unit → Prop} (hPost : post held ()) :
    Keeps strict kind pe held (assertRegCount ref) post :=
  safe_bind.mpr (keeps_read fun _ => safe_assert fun _ => hPost)

----
-- Entry Points That Keep The Discipline
----

section Sections

variable {post : List MapRef → Int → Prop}

variable {evNum : Int} {flags mpidr : Nat}

theorem keeps_claimIfBound {post : List MapRef → Bool → Prop} (hPost : ∀ r, post held r) :
    Keeps strict kind pe held (claimIfBound p pe ans ref evNum flags mpidr) post := by
  refine safe_bind.mpr (keeps_readMap fun m _ => ?_)
  split
  · exact hPost true
  refine safe_bind.mpr (keeps_read fun active => ?_)
  split
  · exact hPost false
  refine safe_bind.mpr (keeps_read fun type => ?_)
  split
  · exact hPost false
  · exact safe_bind.mpr (safe_modify (fun _ => own_claimInterrupt) (hPost true))

theorem keeps_registerLocked
    {post : List MapRef → Bool → Prop} (hLock : ref ∈ held) (hPost : ∀ r, post held r) :
    Keeps strict kind pe held (registerLocked p pe ans ref evNum flags mpidr)
      post := by
  refine safe_bind.mpr (keeps_canSdeiStateTrans (fun _ => hLock) fun done => ?_)
  split
  · exact hPost false
  refine safe_bind.mpr (keeps_readMap fun m _ => ?_)
  split
  · exact hPost false
  · exact safe_bind.mpr (keeps_assertRegCount (keeps_claimIfBound hPost))

theorem keeps_sdeiEventRegister {ep arg flags mpidr : Nat} (hPost : ∀ r, post [] r) :
    Keeps strict kind pe [] (sdeiEventRegister p pe ans evNum ep arg flags mpidr)
      post := by
  unfold sdeiEventRegister
  split
  · exact hPost _
  split
  · exact hPost _
  refine keeps_found (hPost _) fun ref => ?_
  refine safe_bind.mpr (keeps_readMap fun m _ => ?_)
  refine safe_bind.mpr (keeps_lock not_mem_nil ?_)
  refine safe_bind.mpr (keeps_read fun backup => ?_)
  refine safe_bind.mpr (keeps_registerLocked (mem_singleton_self ref) fun done => ?_)
  split
  · refine safe_bind.mpr (safe_modify (fun _ => own_setEntry _) ?_)
    refine safe_bind.mpr (safe_modify (fun _ => own_setMap rfl) ?_)
    exact safe_bind.mpr (keeps_unlock (hPost _))
  · refine safe_bind.mpr (safe_modify (fun _ => own_setEntry _) ?_)
    exact safe_bind.mpr (keeps_unlock (hPost _))

theorem keeps_unregisterLocked (hLock : ref ∈ held) (hPost : ∀ r, post held r) :
    Keeps strict kind pe held (unregisterLocked pe ans ref evNum) post := by
  have hClear :
      Keeps strict kind pe held
        (do
          LockProgram.modify (fun s => s.setEntry pe ref (s.getEventEntry pe ref).clearEventEntries)
          let se ← readEntry pe ref
          return if se.state.running then sdeiEpend else 0)
        post := by
    refine safe_bind.mpr (safe_modify (fun _ => own_setEntry _) ?_)
    exact safe_bind.mpr (keeps_read fun _ => hPost _)
  refine safe_bind.mpr (keeps_canSdeiStateTrans (fun _ => hLock) fun done => ?_)
  split
  · exact safe_bind.mpr (keeps_read fun _ => hPost _)
  refine safe_bind.mpr (safe_modify (fun _ => own_setMap rfl) ?_)
  refine safe_bind.mpr (keeps_assertRegCount ?_)
  refine safe_bind.mpr (keeps_readMap fun m _ => ?_)
  split
  · exact safe_bind.mpr (safe_tryModify (fun _ _ => own_releaseInterrupt) hClear)
  · exact hClear

theorem keeps_sdeiEventUnregister (hPost : ∀ r, post [] r) :
    Keeps strict kind pe [] (sdeiEventUnregister p pe ans evNum) post := by
  refine keeps_found (hPost _) fun ref => ?_
  refine safe_bind.mpr (keeps_lock not_mem_nil ?_)
  refine safe_bind.mpr (keeps_unregisterLocked (mem_singleton_self ref) fun done => ?_)
  exact safe_bind.mpr (keeps_unlock (hPost _))

variable {changed : Bool → Bool → Bool} {call : Nat → IcCall}

theorem keeps_setEnabledLocked {act : Action} (hPost : ∀ r, post (locks kind ref) r) :
    Keeps strict kind pe (locks kind ref) (setEnabledLocked pe ref act changed call) post := by
  refine safe_bind.mpr (keeps_read fun before => ?_)
  refine safe_bind.mpr (keeps_canSdeiStateTrans locks_held fun done => ?_)
  split
  · exact hPost _
  refine safe_bind.mpr (keeps_read fun after => ?_)
  refine safe_bind.mpr (keeps_readMap fun m _ => ?_)
  split
  · exact safe_bind.mpr (keeps_icCall (hPost _))
  · exact hPost _

theorem keeps_sdeiEventSetEnabled {act : Action} (hPost : ∀ r, post [] r) :
    Keeps strict kind pe [] (sdeiEventSetEnabled p pe act changed call evNum)
      post := by
  refine keeps_found (hPost _) fun ref => ?_
  refine safe_bind.mpr (keeps_lockIfShared ?_)
  refine safe_bind.mpr (keeps_setEnabledLocked fun result => ?_)
  exact safe_bind.mpr (keeps_unlockIfShared (hPost _))

theorem keeps_setRoutingLocked (hLock : ref ∈ held) (hPost : ∀ r, post held r) :
    Keeps strict kind pe held (setRoutingLocked pe ref flags mpidr) post := by
  refine safe_bind.mpr (keeps_readMap fun m _ => ?_)
  split
  · exact hPost _
  refine safe_bind.mpr (keeps_canSdeiStateTrans (fun _ => hLock) fun done => ?_)
  split
  · exact hPost _
  refine safe_bind.mpr (safe_modify (fun _ => own_setEntry _) ?_)
  refine safe_bind.mpr (keeps_readMap fun m _ => ?_)
  exact safe_bind.mpr (keeps_icCall (hPost _))

theorem keeps_sdeiEventRoutingSet (hPost : ∀ r, post [] r) :
    Keeps strict kind pe [] (sdeiEventRoutingSet p pe evNum flags mpidr) post := by
  unfold sdeiEventRoutingSet
  split
  · exact hPost _
  refine keeps_found (hPost _) fun ref => ?_
  refine safe_bind.mpr (keeps_readMap fun m _ => ?_)
  split
  · exact hPost _
  refine safe_bind.mpr (keeps_lock not_mem_nil ?_)
  refine safe_bind.mpr (keeps_setRoutingLocked (mem_singleton_self ref) fun result => ?_)
  exact safe_bind.mpr (keeps_unlock (hPost _))

theorem keeps_sdeiEventStatus (hPost : ∀ r, post [] r) :
    Keeps strict kind pe [] (sdeiEventStatus p pe evNum)
      post := by
  refine keeps_found (hPost _) fun ref => ?_
  refine safe_bind.mpr (keeps_lockIfShared ?_)
  refine safe_bind.mpr (keeps_read fun se => ?_)
  exact safe_bind.mpr (keeps_unlockIfShared (hPost _))

theorem keeps_sdeiEventGetInfo {info : State.Info} (hPost : ∀ r, post [] r) :
    Keeps strict kind pe [] (sdeiEventGetInfo p pe evNum info) post := by
  refine keeps_found (hPost _) fun ref => ?_
  refine safe_bind.mpr (keeps_lockIfShared ?_)
  refine safe_bind.mpr (keeps_read fun se => ?_)
  refine safe_bind.mpr (keeps_unlockIfShared ?_)
  exact safe_bind.mpr (keeps_readMap fun _ _ => hPost _)

theorem keeps_sdeiSignal {targetPe : Nat} (hPost : ∀ r, post [] r) :
    Keeps strict kind pe [] (sdeiSignal p pe evNum targetPe)
      post := by
  unfold sdeiSignal
  split
  · exact hPost _
  refine keeps_found (hPost _) fun ref => ?_
  refine safe_bind.mpr (keeps_readMap fun m _ => ?_)
  split
  · exact hPost _
  split
  · exact hPost _
  · exact safe_bind.mpr (keeps_icCall (hPost _))

theorem keeps_bindSlot
    {intrNum : Nat} {post : List MapRef → Option Int → Prop} (hPost : ∀ r, post [] r) :
    Keeps strict kind pe [] (bindSlot p ans intrNum)
      post := by
  refine keeps_found (hPost _) fun ref => ?_
  refine safe_bind.mpr (keeps_readMap fun m _ => ?_)
  refine safe_bind.mpr (safe_assert fun _ => ?_)
  refine safe_bind.mpr (keeps_read fun type => ?_)
  split
  · exact hPost _
  refine safe_bind.mpr (keeps_lock not_mem_nil ?_)
  refine safe_bind.mpr (safe_bind.mpr (keeps_readMap fun m _ => ?_))
  split
  · exact safe_bind.mpr (keeps_unlock (hPost _))
  · refine safe_bind.mpr (safe_modify (fun _ => own_setMap rfl) ?_)
    exact safe_bind.mpr (keeps_unlock (hPost _))

theorem keeps_bindRound
    {intrNum : Nat} {post : List MapRef → Option Int → Prop} (hPost : ∀ r, post [] r) :
    Keeps strict kind pe [] (bindRound p ans intrNum)
      post := by
  refine safe_bind.mpr (safe_bind.mpr (keeps_findInMaps fun found => ?_))
  cases found with
  | none => exact keeps_bindSlot hPost
  | some ref =>
    refine safe_bind.mpr (keeps_readMap fun m _ => ?_)
    cases m.dynamic with
    | false => exact hPost _
    | true =>
      cases m.bound with
      | false => exact keeps_bindSlot hPost
      | true => exact hPost _

theorem keeps_bindLoop {intrNum rounds : Nat} (hPost : ∀ r, post [] r) :
    Keeps strict kind pe [] (bindLoop p ans intrNum rounds)
      post := by
  induction rounds with
  | zero => trivial
  | succ rounds ih =>
    refine safe_bind.mpr (keeps_bindRound fun result => ?_)
    cases result with
    | none => exact ih
    | some ret => exact hPost _

theorem keeps_releaseLocked (hLock : ref ∈ held) (hPost : ∀ r, post held r) :
    Keeps strict kind pe held (releaseLocked pe ans ref)
      post := by
  refine safe_bind.mpr (keeps_readMap fun m _ => ?_)
  split
  · exact hPost _
  refine safe_bind.mpr (keeps_canSdeiStateTrans (fun _ => hLock) fun done => ?_)
  split
  · exact hPost _
  refine safe_bind.mpr (keeps_readMap fun m _ => ?_)
  split
  · exact hPost _
  refine safe_bind.mpr (keeps_read fun active => ?_)
  split
  · exact hPost _
  · exact safe_bind.mpr (safe_modify (fun _ => own_setMap rfl) (hPost _))

section

variable (hPost : ∀ r, post [] r)
include hPost

theorem keeps_sdeiInterruptRelease :
    Keeps strict kind pe [] (sdeiInterruptRelease p pe ans evNum) post := by
  refine keeps_found (hPost _) fun ref => ?_
  refine safe_bind.mpr (keeps_readMap fun m _ => ?_)
  split
  · exact hPost _
  refine safe_bind.mpr (keeps_lock not_mem_nil ?_)
  refine safe_bind.mpr (keeps_releaseLocked (mem_singleton_self ref) fun result => ?_)
  exact safe_bind.mpr (keeps_unlock (hPost _))

theorem keeps_unregisterAll {shared : Bool} {indices : List Nat} {finalRet : Int} :
    Keeps strict kind pe [] (unregisterAll p pe ans shared indices finalRet)
      post := by
  induction indices generalizing finalRet with
  | nil => exact hPost _
  | cons i rest ih =>
    refine safe_bind.mpr (keeps_readMap fun m _ => ?_)
    exact safe_bind.mpr (keeps_sdeiEventUnregister fun _ => ih)

theorem keeps_releaseAll {refs : List MapRef} {finalRet : Int} :
    Keeps strict kind pe [] (releaseAll p pe ans refs finalRet)
      post := by
  induction refs generalizing finalRet with
  | nil => exact hPost _
  | cons ref rest ih =>
    refine safe_bind.mpr (keeps_readMap fun m _ => ?_)
    split
    · exact safe_bind.mpr (keeps_sdeiInterruptRelease fun _ => ih)
    · exact ih

theorem keeps_sdeiSharedReset :
    Keeps strict kind pe [] (sdeiSharedReset p pe ans)
      post := by
  refine safe_bind.mpr (keeps_unregisterAll fun finalRet => ?_)
  split
  · exact hPost _
  · exact keeps_releaseAll hPost

theorem keeps_sdeiPeMask : Keeps strict kind pe [] (sdeiPeMask pe) post := by
  refine safe_bind.mpr (keeps_read fun c => ?_)
  exact safe_bind.mpr (safe_modify (fun _ => own_setCpu _) (hPost _))

end

theorem keeps_enableMap
    {test : EvMap → Entry → Bool} {post : List MapRef → Unit → Prop} (hPost : post held ()) :
    Keeps strict kind pe held (enableMap pe test ref)
      post := by
  refine safe_bind.mpr (keeps_readMap fun m _ => ?_)
  refine safe_bind.mpr (keeps_read fun se => ?_)
  split
  · exact keeps_icCall hPost
  · exact hPost

theorem keeps_enablePending {post : List MapRef → Unit → Prop} (hPost : post [] ()) :
    Keeps strict kind pe [] (enablePending p pe) post := by
  have hShared : ∀ test indices, Keeps strict kind pe [] (enableShared pe test indices) post := by
    intro test indices
    induction indices with
    | nil => exact hPost
    | cons i rest ih =>
      refine safe_bind.mpr (keeps_lock not_mem_nil ?_)
      refine safe_bind.mpr (keeps_enableMap ?_)
      exact safe_bind.mpr (keeps_unlock ih)
  refine safe_bind.mpr ?_
  generalize List.range (p.numMaps false) = indices
  induction indices with
  | nil => exact hShared _ _
  | cons i rest ih => exact safe_bind.mpr (keeps_enableMap ih)

theorem keeps_sdeiPeUnmask (hPost : ∀ r, post [] r) :
    Keeps strict kind pe [] (sdeiPeUnmask p pe) post := by
  have hMask :
      Keeps strict kind pe []
        (do
          LockProgram.modify (fun s =>
            s.setCpu pe
              { s.cpu pe with
                pendingEnables := false
                peMasked := false })
          return 0)
        post :=
    safe_bind.mpr (safe_modify (fun _ => own_setCpu _) (hPost _))
  refine safe_bind.mpr (keeps_read fun c => ?_)
  split
  · exact safe_bind.mpr (keeps_enablePending hMask)
  · exact hMask

variable {intrRaw : Nat}

theorem keeps_handleMaskedTrigger {post : List MapRef → Unit → Prop} (hPost : post held ()) :
    Keeps strict kind pe held (handleMaskedTrigger p pe ref intrRaw) post := by
  refine safe_bind.mpr (keeps_readMap fun m _ => ?_)
  refine safe_bind.mpr (keeps_read fun se => ?_)
  split
  · exact hPost
  split
  · refine safe_bind.mpr (safe_assert fun _ => ?_)
    refine safe_bind.mpr (keeps_icCall ?_)
    refine safe_bind.mpr (keeps_icCall ?_)
    refine safe_bind.mpr (keeps_icCall ?_)
    exact safe_modify (fun _ => own_setCpu _) hPost
  · refine safe_bind.mpr (safe_assert fun _ => ?_)
    refine safe_bind.mpr (keeps_icCall ?_)
    refine safe_bind.mpr (keeps_icCall ?_)
    exact keeps_icCall hPost

theorem keeps_dispatchLocked
    {post : List MapRef → Bool → Prop} (hPost : ∀ r, post (locks kind ref) r) :
    Keeps strict kind pe (locks kind ref) (dispatchLocked p pe ref intrRaw) post := by
  refine safe_bind.mpr (keeps_readMap fun m _ => ?_)
  refine safe_bind.mpr (keeps_read fun se => ?_)
  refine safe_bind.mpr (safe_assert fun _ => ?_)
  refine safe_bind.mpr (keeps_canSdeiStateTrans locks_held fun done => ?_)
  split
  · refine safe_bind.mpr (keeps_read fun may => ?_)
    exact safe_bind.mpr (safe_assert fun _ => hPost _)
  · refine safe_bind.mpr (keeps_read fun se => ?_)
    split
    · refine safe_bind.mpr (keeps_icCall ?_)
      exact safe_bind.mpr (keeps_icCall (hPost _))
    · exact safe_bind.mpr (keeps_icCall (hPost _))

theorem keeps_setupNsDispatch {secState : SecState} (hPost : ∀ r, post held r) :
    Keeps strict kind pe held (setupNsDispatch p pe ref secState intrRaw) post :=
  safe_bind.mpr (safe_tryModify (fun _ _ => own_setupNsDispatch) (hPost _))

section

variable (hPost : ∀ r, post [] r)
include hPost

variable {secState : SecState}

theorem keeps_handleEvent {intrRaw : Nat} :
    Keeps strict kind pe [] (handleEvent p pe ref intrRaw secState) post := by
  refine safe_bind.mpr (keeps_readMap fun m _ => ?_)
  refine safe_bind.mpr (safe_assert fun _ => ?_)
  refine safe_bind.mpr (keeps_read fun c => ?_)
  split
  · refine safe_bind.mpr (keeps_lockIfShared ?_)
    refine safe_bind.mpr (keeps_handleMaskedTrigger ?_)
    exact safe_bind.mpr (keeps_unlockIfShared (hPost _))
  refine safe_bind.mpr (keeps_lockIfShared ?_)
  refine safe_bind.mpr (keeps_dispatchLocked fun done => ?_)
  refine safe_bind.mpr (keeps_unlockIfShared ?_)
  split
  · exact hPost _
  split
  · refine safe_bind.mpr (safe_modify (fun _ => own_setCpu _) ?_)
    exact keeps_setupNsDispatch hPost
  · exact keeps_setupNsDispatch hPost

theorem keeps_sdeiIntrHandler {intrRaw : Nat} :
    Keeps strict kind pe [] (sdeiIntrHandler p pe intrRaw secState) post := by
  refine safe_bind.mpr (keeps_findInMaps fun found => ?_)
  cases found with
  | none => trivial
  | some ref => exact keeps_handleEvent hPost

theorem keeps_sdeiDispatchEvent :
    Keeps strict kind pe [] (sdeiDispatchEvent p pe evNum secState) post := by
  refine safe_bind.mpr (keeps_read fun c => ?_)
  split
  · exact hPost _
  split
  · exact hPost _
  refine keeps_found (hPost _) fun ref => ?_
  refine safe_bind.mpr (keeps_readMap fun m hKind => ?_)
  split
  · exact hPost _
  split
  · exact hPost _
  rename_i hPrivate
  refine safe_bind.mpr (keeps_read fun may => ?_)
  split
  · exact hPost _
  refine safe_bind.mpr
    (keeps_canSdeiStateTrans (fun hShared => absurd (hKind.trans hShared) hPrivate) fun done => ?_)
  split
  · exact hPost _
  refine safe_bind.mpr (keeps_icCall ?_)
  refine safe_bind.mpr (safe_modify (fun _ => own_setCpu _) ?_)
  exact keeps_setupNsDispatch hPost

end

variable {d : DispatchContext} {resume : Option Nat}

theorem keeps_completeLocked {post : List MapRef → Unit → Prop} (hPost : post held ()) :
    Keeps strict kind pe held (completeLocked p pe ans d resume) post := by
  have hEnd :
      Keeps strict kind pe held
        (do
          let m ← readMap d.map
          if m.evNum = sdeiEvent0 ∨ m.bound = true then
            icCall pe (.endOfInterrupt d.intrRaw)
          else
            icCall pe (.deactivatePriority (p.sdeiEventPriority m)))
        post := by
    refine safe_bind.mpr (keeps_readMap fun m _ => ?_)
    split
    · exact keeps_icCall hPost
    · exact keeps_icCall hPost
  refine safe_bind.mpr (safe_modify (fun _ => own_restoreEventCtx) ?_)
  split
  · exact safe_bind.mpr (safe_modify (fun _ => own_setCpu _) hEnd)
  · exact hEnd

/- Completing a private event needs no lock. -/
theorem keeps_completeDispatch
    {rest : List DispatchContext} (hPrivate : kind d.map = true) (hPost : ∀ r, post [] r) :
    Keeps strict kind pe [] (completeDispatch p pe ans d rest resume) post := by
  have hNoLock : locks kind d.map = [] := if_pos hPrivate
  refine safe_bind.mpr
    (keeps_canSdeiStateTrans (fun hShared => absurd hPrivate (by rw [hShared]; nofun))
      fun done => ?_)
  split
  · refine safe_bind.mpr (safe_modify (fun _ => own_setCpu _) ?_)
    refine safe_bind.mpr (keeps_lockIfShared ?_)
    refine safe_bind.mpr (keeps_completeLocked ?_)
    exact safe_bind.mpr (keeps_unlockIfShared (hPost _))
  · rw [← hNoLock]
    refine safe_bind.mpr (keeps_unlockIfShared ?_)
    exact hPost _

end Sections

end Locked

----
-- Where The Discipline Breaks
----

/- The entry point completes a shared event. -/
def CompletesShared (p : Platform) (s : State) (pe : Nat)
    (entry : LockEntry) : Prop :=
  ∃ resume d rest, entry = .handler (.eventComplete resume) ∧ (s.cpu pe).dispatchStack = d :: rest ∧
    resume.any (fun pc => !p.validateEntryPoint pc p.clientEl) = false ∧
    (s.map d.map).isPrivate = false

/- The entry point asks for the context of a shared event. -/
def QueriesShared (s : State) (pe : Nat)
    (entry : LockEntry) : Prop :=
  ∃ param d rest, entry = .handler (.eventContext param) ∧ param < sdeiSavedGpregs ∧
    (s.cpu pe).dispatchStack = d :: rest ∧ (s.map d.map).isPrivate = false

section Paths

variable {p : Platform} {ans : Answers} {rounds : Nat} {R : Type} {strict : Prop}
  {trace : List (Event MapRef)}
  {returned : Bool}

theorem disciplined_of_keeps {prog : Prog R}
    (hKeeps : Keeps strict (fun ref => (s.map ref).isPrivate) pe [] prog (fun held _ => held = []))
    (hPath : Path (Interference pe) prog s trace returned) :
    Disciplined trace returned :=
  Safe.disciplined hKeeps (fun _ _ hKinds hOther => hKinds.of_fixed hOther.fixed)
    (fun _ _ hKinds hOwn => hKinds.of_fixed hOwn.fixed)
    (fun _ => rfl) hPath

theorem strictlyDisciplined_of_keeps {prog : Prog R}
    (hKeeps : Keeps True (fun ref => (s.map ref).isPrivate) pe [] prog (fun held _ => held = []))
    (hPath : Path (Interference pe) prog s trace returned) :
    StrictlyDisciplined trace returned :=
  Safe.strictlyDisciplined hKeeps (fun _ _ hKinds hOther => hKinds.of_fixed hOther.fixed)
    (fun _ _ hKinds hOwn => hKinds.of_fixed hOwn.fixed)
    (fun _ => rfl) hPath

variable {entry : LockEntry} {kind : MapRef → Bool}

/-
  All entry points but completion and context queries keep
  the discipline, even where guarded data is only looked at.
-/
theorem keeps_program (hComplete : ∀ resume, entry ≠ .handler (.eventComplete resume))
    (hContext : ∀ param, entry ≠ .handler (.eventContext param)) :
    Keeps strict kind pe [] (Locked.program p pe ans rounds entry) (fun held _ => held = []) := by
  cases entry with
  | version => exact rfl
  | features feature => exact rfl
  | unknown => exact rfl
  | handler entry =>
    cases entry with
    | eventRegister => exact Locked.keeps_sdeiEventRegister fun _ => rfl
    | eventEnable => exact Locked.keeps_sdeiEventSetEnabled fun _ => rfl
    | eventDisable => exact Locked.keeps_sdeiEventSetEnabled fun _ => rfl
    | eventContext param => exact absurd rfl (hContext param)
    | eventComplete resume => exact absurd rfl (hComplete resume)
    | eventUnregister => exact Locked.keeps_sdeiEventUnregister fun _ => rfl
    | eventStatus => exact Locked.keeps_sdeiEventStatus fun _ => rfl
    | eventGetInfo => exact Locked.keeps_sdeiEventGetInfo fun _ => rfl
    | eventRoutingSet => exact Locked.keeps_sdeiEventRoutingSet fun _ => rfl
    | peMask => exact Locked.keeps_sdeiPeMask fun _ => rfl
    | peUnmask => exact Locked.keeps_sdeiPeUnmask fun _ => rfl
    | interruptBind intr =>
      change Keeps _ _ _ _ (Locked.sdeiInterruptBind p ans intr rounds) _
      unfold Locked.sdeiInterruptBind
      split
      · rfl
      · exact Locked.keeps_bindLoop fun _ => rfl
    | interruptRelease => exact Locked.keeps_sdeiInterruptRelease fun _ => rfl
    | eventSignal => exact Locked.keeps_sdeiSignal fun _ => rfl
    | privateReset => exact Locked.keeps_unregisterAll fun _ => rfl
    | sharedReset => exact Locked.keeps_sdeiSharedReset fun _ => rfl
    | interrupt => exact Locked.keeps_sdeiIntrHandler fun _ => rfl
    | dispatchEvent => exact Locked.keeps_sdeiDispatchEvent fun _ => rfl
    | cpuOnFinish => exact safe_bind.mpr (safe_modify (fun _ => own_sdeiCpuOnInit) rfl)

theorem Interference.isPrivate (hOther : Interference pe s t) (ref : MapRef) :
    (t.map ref).isPrivate = (s.map ref).isPrivate := by
  have hSame := congrArg EvMap.isPrivate (hOther.fixed ref)
  exact hSame

/- Completion, unless the top of the stack is shared. -/
theorem sdeiEventComplete_path
    {resume : Option Nat} (hPrivate : ¬ CompletesShared p s pe (.handler (.eventComplete resume)))
    (hPath : Path (Interference pe) (Locked.sdeiEventComplete p pe ans resume) s trace returned) :
    StrictlyDisciplined trace returned := by
  rcases Path.of_read_bind hPath with ⟨rfl, rfl⟩ | ⟨t, hOther, hRest⟩
  · exact disciplined_nil
  refine strictlyDisciplined_of_keeps ?_ hRest
  rw [hOther.cpu]
  cases hStack : (s.cpu pe).dispatchStack with
  | nil => exact rfl
  | cons d rest =>
    dsimp only
    split
    · exact rfl
    · rename_i hPoint
      have hKind : (t.map d.map).isPrivate = true := by
        rw [hOther.isPrivate]
        by_contra hShared
        exact hPrivate ⟨resume, d, rest, rfl, hStack, Bool.eq_false_of_not_eq_true hPoint,
          Bool.eq_false_of_not_eq_true hShared⟩
      exact Locked.keeps_completeDispatch hKind (fun _ => rfl)

theorem target_context (st : EvState) :
    (sdeiStateTable st .context).target = none := by
  rcases st with ⟨running, enabled, registered⟩
  cases running <;> cases enabled <;> cases registered <;> rfl

theorem sdeiStateTable_complete (st : EvState) (resume : Option Nat) :
    sdeiStateTable st
        (if resume.isSome then .completeResume
          else .complete) ≠ .nop := by
  rcases st with ⟨running, enabled, registered⟩
  cases resume <;> cases running <;> cases enabled <;>
    cases registered <;> nofun

/- A context query writes nothing. -/
theorem keeps_sdeiEventContext {param : Nat} :
    Keeps False kind pe [] (Locked.sdeiEventContext pe param) (fun held _ => held = []) := by
  unfold Locked.sdeiEventContext
  split
  · exact rfl
  refine safe_bind.mpr (Locked.keeps_read fun c => ?_)
  cases c.dispatchStack with
  | nil => exact rfl
  | cons d rest =>
    refine safe_bind.mpr fun t _ => ⟨?_, ?_, ?_⟩
    · rintro m - (hStrict | hWrite)
      · exact hStrict.elim
      · dsimp only at hWrite
        rw [target_context] at hWrite
        cases hWrite
    · intro t' hWrite
      dsimp only at hWrite
      rw [target_context] at hWrite
      cases hWrite
    · change Keeps _ _ _ _ (if _ then _ else _) _
      split
      · exact rfl
      · exact rfl

/- A context query, unless the top of the stack is shared. -/
theorem sdeiEventContext_path
    {param : Nat} (hPrivate : ¬ QueriesShared s pe (.handler (.eventContext param)))
    (hPath : Path (Interference pe) (Locked.sdeiEventContext pe param) s trace returned) :
    StrictlyDisciplined trace returned := by
  unfold Locked.sdeiEventContext at hPath
  split at hPath
  · refine strictlyDisciplined_of_keeps ?_ hPath
    exact rfl
  rename_i hParam
  rcases Path.of_read_bind hPath with ⟨rfl, rfl⟩ | ⟨t, hOther, hRest⟩
  · exact disciplined_nil
  refine strictlyDisciplined_of_keeps ?_ hRest
  rw [hOther.cpu]
  cases hStack : (s.cpu pe).dispatchStack with
  | nil => exact rfl
  | cons d rest =>
    have hKind : (t.map d.map).isPrivate = true := by
      rw [hOther.isPrivate]
      by_contra hShared
      exact hPrivate ⟨param, d, rest, rfl, Nat.lt_of_not_le hParam, hStack,
        Bool.eq_false_of_not_eq_true hShared⟩
    refine safe_bind.mpr
      (Locked.keeps_canSdeiStateTrans (fun hShared => absurd hKind (by rw [hShared]; nofun))
        fun done => ?_)
    split
    · exact rfl
    · exact rfl

section

variable (hShared : (s.map ref).isPrivate = false)
include hShared

variable {next : Bool → Prog R}

/- Undisturbed, a transition that changes the state. -/
theorem update_path {act : Action} {st : EvState}
    (hTable : (sdeiStateTable (s.getEventEntry pe ref).state act).target = some st) :
    Path (Interference pe) (Locked.canSdeiStateTrans pe ref act >>= next) s
      [.update ref] false := by
  have hPath :
      Path (Interference pe) (Locked.canSdeiStateTrans pe ref act >>= next) s
        (accessEvents (if (s.map ref).isPrivate then none else some ref)
          ((sdeiStateTable (s.getEventEntry pe ref).state
            act).target.map (s.setEvState pe ref)).isSome ++ [])
        false :=
    Path.access_bind Interference.refl .stop
  rw [hShared, hTable] at hPath
  exact hPath

/- Undisturbed, a transition that changes nothing. -/
theorem look_path
    {act : Action} (hTable : (sdeiStateTable (s.getEventEntry pe ref).state act).target = none)
    (hNext :
      Path (Interference pe) (next (canSdeiStateTrans (s.getEventEntry pe ref).state act).isSome)
        s trace returned) :
    Path (Interference pe) (Locked.canSdeiStateTrans pe ref act >>= next) s
      (.look ref :: trace) returned := by
  have hPath :
      Path (Interference pe) (Locked.canSdeiStateTrans pe ref act >>= next) s
        (accessEvents (if (s.map ref).isPrivate then none else some ref)
          ((sdeiStateTable (s.getEventEntry pe ref).state
            act).target.map (s.setEvState pe ref)).isSome ++
          trace) returned := by
    refine Path.access_bind Interference.refl ?_
    rw [hTable]
    exact hNext
  rw [hShared, hTable] at hPath
  exact hPath

theorem unlockIfShared_path {next : Unit → Prog R} :
    Path (Interference pe) (Locked.unlockIfShared ref >>= next) s [.unlock ref]
      false := by
  let prog : Prog Unit :=
    .access (fun _ => none) (fun _ => none) (fun s =>
      if !(s.map ref).isPrivate then Locked.sdeiMapUnlock ref
      else pure ())
  have hPath :
      Path (Interference pe) (prog >>= next) s
        (accessEvents none false ++ [.unlock ref]) false := by
    refine Path.access_bind Interference.refl ?_
    rw [hShared]
    exact .unlock Interference.refl .stop
  exact hPath

end

/-
  Completing a shared event, undisturbed: the transition
  either succeeds, and writes without the lock, or fails, and
  the lock is released without having been taken.
-/
theorem completesShared_path (hShared : CompletesShared p s pe entry) :
    ∃ trace, Path (Interference pe) (Locked.program p pe ans rounds entry) s trace false ∧
      ¬ Disciplined trace false := by
  rcases hShared with ⟨resume, d, rest, rfl, hStack, hPoint, hKind⟩
  have hStart : ∀ trace,
      Path (Interference pe) (Locked.completeDispatch p pe ans d rest resume) s trace false →
      Path (Interference pe)
        (Locked.program p pe ans rounds (.handler (.eventComplete resume))) s trace
        false := by
    intro trace hPath
    refine Path.read_bind Interference.refl ?_
    rw [hStack]
    rw [hPoint]
    exact hPath
  cases hTable : sdeiStateTable (s.getEventEntry pe d.map).state
    (if resume.isSome then .completeResume else .complete) with
  | nop => exact absurd hTable (sdeiStateTable_complete _ _)
  | goto st =>
    have hWrite := congrArg Transition.target hTable
    refine ⟨[.update d.map], hStart _ (update_path hKind hWrite), ?_⟩
    intro hDisciplined
    exact absurd (hDisciplined.update_held [] [] d.map rfl) (Nat.lt_irrefl 0)
  | invalid =>
    have hLook := congrArg Transition.target hTable
    refine ⟨[.look d.map, .unlock d.map], hStart _ (look_path hKind hLook ?_), ?_⟩
    · unfold canSdeiStateTrans
      rw [hTable]
      exact unlockIfShared_path hKind
    · intro hDisciplined
      exact absurd (hDisciplined.unlock_held [.look d.map] [] d.map rfl) (Nat.lt_irrefl 0)

theorem queriesShared_path (hShared : QueriesShared s pe entry) :
    ∃ trace, Path (Interference pe) (Locked.program p pe ans rounds entry) s trace false ∧
      ¬ StrictlyDisciplined trace false := by
  rcases hShared with ⟨param, d, rest, rfl, hParam, hStack, hKind⟩
  refine ⟨[.look d.map], ?_, ?_⟩
  · change Path (Interference pe) (Locked.sdeiEventContext pe param) s _ _
    unfold Locked.sdeiEventContext
    rw [if_neg (Nat.not_le_of_lt hParam)]
    refine Path.read_bind Interference.refl ?_
    rw [hStack]
    exact look_path hKind (target_context _) .stop
  · intro hDisciplined
    exact absurd (hDisciplined.look_held [] [] d.map rfl) (Nat.lt_irrefl 0)

end Paths

/-
  The lock discipline, on every path of every entry point
  from every state: locks are released only while held and
  each exactly once, and the state word of a shared event is
  written only under its lock, unless the call completes a
  shared event.  Where the word is only looked at, as in a
  context query, the lock is not held either.
-/
theorem sdei_lock_discipline
    (p : Platform) (s : State) (pe : Nat) (ans : Answers) (entry : LockEntry) :
    ((∀ rounds trace returned,
        Path (Interference pe) (Locked.program p pe ans rounds entry) s trace returned →
        Disciplined trace returned) ↔
      ¬ CompletesShared p s pe entry) ∧
    ((∀ rounds trace returned,
        Path (Interference pe) (Locked.program p pe ans rounds entry) s trace returned →
        StrictlyDisciplined trace returned) ↔
      ¬ CompletesShared p s pe entry ∧ ¬ QueriesShared s pe entry) := by
  have hOther : (∀ resume, entry ≠ .handler (.eventComplete resume)) →
      (∀ param, entry ≠ .handler (.eventContext param)) → ∀ rounds trace returned,
        Path (Interference pe) (Locked.program p pe ans rounds entry) s trace returned →
        StrictlyDisciplined trace returned := by
    intro hComplete hContext rounds trace returned hPath
    exact strictlyDisciplined_of_keeps (keeps_program hComplete hContext) hPath
  refine ⟨⟨?_, ?_⟩, ⟨?_, ?_⟩⟩
  · intro hAll hShared
    rcases completesShared_path hShared with ⟨trace, hPath, hBroken⟩
    exact hBroken (hAll 0 trace false hPath)
  · intro hPrivate rounds trace returned hPath
    by_cases hComplete : ∃ resume, entry = .handler (.eventComplete resume)
    · rcases hComplete with ⟨resume, rfl⟩
      exact (sdeiEventComplete_path hPrivate hPath).toDisciplined
    by_cases hContext : ∃ param, entry = .handler (.eventContext param)
    · rcases hContext with ⟨param, rfl⟩
      exact disciplined_of_keeps keeps_sdeiEventContext hPath
    exact (hOther (not_exists.mp hComplete) (not_exists.mp hContext) rounds trace returned
      hPath).toDisciplined
  · intro hAll
    constructor
    · intro hShared
      rcases completesShared_path hShared with ⟨trace, hPath, hBroken⟩
      exact hBroken (hAll 0 trace false hPath).toDisciplined
    · intro hShared
      rcases queriesShared_path hShared with ⟨trace, hPath, hBroken⟩
      exact hBroken (hAll 0 trace false hPath)
  · rintro ⟨hPrivate, hQuery⟩ rounds trace returned hPath
    by_cases hComplete : ∃ resume, entry = .handler (.eventComplete resume)
    · rcases hComplete with ⟨resume, rfl⟩
      exact sdeiEventComplete_path hPrivate hPath
    by_cases hContext : ∃ param, entry = .handler (.eventContext param)
    · rcases hContext with ⟨param, rfl⟩
      exact sdeiEventContext_path hQuery hPath
    exact hOther (not_exists.mp hComplete) (not_exists.mp hContext) rounds trace returned hPath

----
-- A Shared Event
----

/- Two PEs with one shared event, number 2. -/
def oneShared : Platform :=
  { twoPes with
    sharedMaps :=
      [{ evNum := 2, intr := 40, dynamic := false
         bound := false, signalable := false
         isPrivate := false, critical := false
         regCount := 0 }]
    shared_ok := by decide
    shared_sorted := by decide }

/-
  PE 0 handles the shared event and completes it: the state
  word is written without the lock.
-/
theorem sdei_complete_unlocked :
    ∃ s : State, (sdeiSystem oneShared (fun _ => zeroContext)).ReachableBy (fun _ _ => True) s ∧
      ∃ trace, Path (Interference 0)
          (Locked.program oneShared 0 quietAnswers 1
            (.handler (.eventComplete none))) s trace false ∧
        ¬ Disciplined trace false := by
  rcases TransitionSystem.exists_reachableBy (State.step oneShared) (fun _ _ => True)
      (oneShared.sdeiInit (fun _ => zeroContext))
      [⟨0, .peUnmask, quietAnswers⟩, ⟨0, .eventRegister 2 0x1000 7 0 0, quietAnswers⟩,
        ⟨0, .eventEnable 2, quietAnswers⟩, ⟨0, .interrupt 40 .nonSecure, quietAnswers⟩]
      (fun s =>
        (s.cpu 0).dispatchStack.map (·.map) = [⟨true, 0⟩] ∧ (s.map ⟨true, 0⟩).isPrivate = false)
      (by decide) with
    ⟨s, hReach, hStack, hKind⟩
  refine ⟨s, hReach, completesShared_path ?_⟩
  rcases map_eq_singleton_iff.mp hStack with ⟨d, hTop, hMap⟩
  exact ⟨none, d, [], rfl, hTop, rfl, by rw [hMap, hKind]⟩

end Tfa.Sdei
