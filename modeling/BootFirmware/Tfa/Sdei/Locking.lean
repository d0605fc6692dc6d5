import BootFirmware.Lib.LockProgram
import BootFirmware.Tfa.Sdei.Binding

/-
  The SDEI entry points with the locks they take: programs
  over the shared state in which other PEs may step between
  any two accesses.

  Key definitions include:
    * `Locked.canSdeiStateTrans`
    * `Locked.sdeiEventRegister`
    * `Locked.sdeiInterruptBind`
    * `Locked.sdeiIntrHandler`
    * `Locked.sdeiEventComplete`
    * `LockEntry` and `Locked.program`
-/

----
-- Steps
----

namespace Tfa.Sdei

/- The state that a transition writes, if any. -/
def Transition.target : Transition → Option EvState
  | .goto next => some next
  | _ => none

/- Programs that take the locks of maps. -/
abbrev Prog (R : Type) : Type :=
  LockProgram State MapRef Fault R

namespace Locked

def readMap (ref : MapRef) : Prog EvMap :=
  .read (fun s => s.map ref)

def readEntry (pe : Nat) (ref : MapRef) : Prog Entry :=
  .read (fun s => s.getEventEntry pe ref)

/- The PE's own state. -/
def readCpu (pe : Nat) : Prog CpuState :=
  .read (fun s => s.cpu pe)

def icCall (pe : Nat) (c : IcCall) : Prog Unit :=
  .modify (fun s => s.call pe c)

def getInterruptActive (ans : Answers)
    (intr : Nat) : Prog Bool :=
  .read (fun s => ans.interruptActive s.log intr)

def getInterruptType (ans : Answers)
    (intr : Nat) : Prog IntrType :=
  .read (fun s => ans.interruptType s.log intr)

/- `sdei_map_lock` and `sdei_map_unlock`. -/
def sdeiMapLock (ref : MapRef) : Prog Unit :=
  .lock ref (.ret ())

def sdeiMapUnlock (ref : MapRef) : Prog Unit :=
  .unlock ref (.ret ())

def isEventShared (ref : MapRef) : Prog Bool :=
  .read (fun s => !(s.map ref).isPrivate)

/- `if (is_event_shared(map)) sdei_map_lock(map);` -/
def lockIfShared (ref : MapRef) : Prog Unit := do
  if ← isEventShared ref then
    sdeiMapLock ref

def unlockIfShared (ref : MapRef) : Prog Unit := do
  if ← isEventShared ref then
    sdeiMapUnlock ref

/-
  `can_sdei_state_trans`, an access to the state word of the
  entry.  The lock of a shared map guards it; a private
  entry belongs to its PE.
-/
def canSdeiStateTrans (pe : Nat) (ref : MapRef)
    (act : Action) : Prog Bool :=
  .access (fun s => if (s.map ref).isPrivate then none else some ref)
    (fun s => (sdeiStateTable (s.getEventEntry pe ref).state act).target.map (s.setEvState pe ref))
    (fun s => .ret (Sdei.canSdeiStateTrans (s.getEventEntry pe ref).state act).isSome)

/- `iterate_mapping` looking for a map. -/
def findInMaps (test : EvMap → Bool) :
    List MapRef → Prog (Option MapRef)
  | [] => pure none
  | ref :: rest => do
      if test (← readMap ref) then
        return some ref
      findInMaps test rest

/- `find_event_map_by_intr`. -/
def findEventMapByIntr (p : Platform) (intr : Nat)
    (shared : Bool) : Prog (Option MapRef) :=
  findInMaps (fun m => m.intr == intr) ((List.range (p.numMaps shared)).map (⟨shared, ·⟩))

/- `find_event_map`. -/
def findEventMap (p : Platform)
    (evNum : Int) : Prog (Option MapRef) :=
  findInMaps (fun m => m.evNum == evNum)
    ((List.range (p.numMaps false)).map (⟨false, ·⟩) ++
      (List.range (p.numMaps true)).map (⟨true, ·⟩))

/- The assertion that registering or removing makes. -/
def assertRegCount (ref : MapRef) : Prog Unit := do
  .assert (← .read (fun s => s.regCountOk ref)) .regCount

----
-- Registration
----

/-
  Claiming the interrupt of a bound map; `false` where the
  registration falls back.
-/
def claimIfBound (p : Platform) (pe : Nat) (ans : Answers) (ref : MapRef) (evNum : Int)
    (flags mpidr : Nat) : Prog Bool := do
  let m ← readMap ref
  if m.bound = false then
    return true
  if ← getInterruptActive ans m.intr then
    return false
  if (← getInterruptType ans m.intr) ≠ .ns then
    return false
  .modify (fun s => s.claimInterrupt p pe ref evNum flags mpidr)
  return true

/-
  `sdei_event_register` from its state transition on;
  `false` where it falls back.
-/
def registerLocked (p : Platform) (pe : Nat) (ans : Answers) (ref : MapRef) (evNum : Int)
    (flags mpidr : Nat) : Prog Bool := do
  if !(← canSdeiStateTrans pe ref .register) then
    return false
  let m ← readMap ref
  if m.dynamic && !m.bound then
    return false
  assertRegCount ref
  claimIfBound p pe ans ref evNum flags mpidr

/- `sdei_event_register`. -/
def sdeiEventRegister (p : Platform) (pe : Nat) (ans : Answers) (evNum : Int)
    (ep arg flags mpidr : Nat) : Prog Int := do
  if ep = 0 ∨ p.validateEntryPoint ep p.clientEl = false then
    return sdeiEinval
  if State.validateFlags p flags mpidr = false then
    return sdeiEinval
  match ← findEventMap p evNum with
  | none => return sdeiEinval
  | some ref =>
    let flags :=
      if (← readMap ref).isPrivate then regfRmPe else flags
    sdeiMapLock ref
    let backup := (← readEntry pe ref).state
    if ← registerLocked p pe ans ref evNum flags mpidr then
      .modify (fun s => s.setSdeiEntry pe ref ep arg flags mpidr)
      .modify (fun s => s.addRegCount ref 1)
      sdeiMapUnlock ref
      return 0
    else
      .modify (fun s => s.setEvState pe ref backup)
      sdeiMapUnlock ref
      return sdeiEdeny

/- `sdei_event_unregister` under the lock. -/
def unregisterLocked (pe : Nat) (ans : Answers) (ref : MapRef)
    (evNum : Int) : Prog Int := do
  if !(← canSdeiStateTrans pe ref .unregister) then
    let se ← readEntry pe ref
    return if se.state.running then sdeiEpend else sdeiEdeny
  .modify (fun s => s.addRegCount ref (-1))
  assertRegCount ref
  if (← readMap ref).bound then
    .tryModify (fun s => s.releaseInterrupt pe ref ans evNum) .halt
  .modify (fun s => s.setEntry pe ref (s.getEventEntry pe ref).clearEventEntries)
  let se ← readEntry pe ref
  return if se.state.running then sdeiEpend else 0

/- `sdei_event_unregister`. -/
def sdeiEventUnregister (p : Platform) (pe : Nat) (ans : Answers)
    (evNum : Int) : Prog Int := do
  match ← findEventMap p evNum with
  | none => return sdeiEinval
  | some ref =>
    sdeiMapLock ref
    let ret ← unregisterLocked pe ans ref evNum
    sdeiMapUnlock ref
    return ret

----
-- Enabling And Routing
----

/- The section of `sdei_event_enable` and its counterpart. -/
def setEnabledLocked (pe : Nat) (ref : MapRef) (act : Action) (changed : Bool → Bool → Bool)
    (call : Nat → IcCall) : Prog Int := do
  let before := (← readEntry pe ref).state.enabled
  if !(← canSdeiStateTrans pe ref act) then
    return sdeiEdeny
  let after := (← readEntry pe ref).state.enabled
  let m ← readMap ref
  if m.bound && changed before after then
    icCall pe (call m.intr)
  return 0

/- `sdei_event_enable` and `sdei_event_disable`. -/
def sdeiEventSetEnabled
    (p : Platform) (pe : Nat) (act : Action) (changed : Bool → Bool → Bool) (call : Nat → IcCall)
    (evNum : Int) : Prog Int := do
  match ← findEventMap p evNum with
  | none => return sdeiEinval
  | some ref =>
    lockIfShared ref
    let ret ← setEnabledLocked pe ref act changed call
    unlockIfShared ref
    return ret

def sdeiEventEnable (p : Platform) (pe : Nat)
    (evNum : Int) : Prog Int :=
  sdeiEventSetEnabled p pe .enable (fun before after => !before && after) .enable evNum

def sdeiEventDisable (p : Platform) (pe : Nat)
    (evNum : Int) : Prog Int :=
  sdeiEventSetEnabled p pe .disable (fun before after => before && !after) .disable evNum

/- `sdei_event_routing_set` under the lock. -/
def setRoutingLocked (pe : Nat) (ref : MapRef)
    (flags mpidr : Nat) : Prog Int := do
  let m ← readMap ref
  if !m.bound || m.isPrivate then
    return sdeiEinval
  if !(← canSdeiStateTrans pe ref .routing) then
    return sdeiEdeny
  .modify (fun s => s.setEntry pe ref { s.getEventEntry pe ref with regFlags := flags })
  let m ← readMap ref
  icCall pe (.setSpiRouting m.intr (State.routingOf flags) mpidr)
  return 0

/- `sdei_event_routing_set`. -/
def sdeiEventRoutingSet (p : Platform) (pe : Nat) (evNum : Int)
    (flags mpidr : Nat) : Prog Int := do
  if State.validateFlags p flags mpidr = false then
    return sdeiEinval
  match ← findEventMap p evNum with
  | none => return sdeiEinval
  | some ref =>
    if (← readMap ref).isPrivate then
      return sdeiEinval
    sdeiMapLock ref
    let ret ← setRoutingLocked pe ref flags mpidr
    sdeiMapUnlock ref
    return ret

----
-- Queries And Signals
----

/- `sdei_event_status`. -/
def sdeiEventStatus (p : Platform) (pe : Nat)
    (evNum : Int) : Prog Int := do
  match ← findEventMap p evNum with
  | none => return sdeiEinval
  | some ref =>
    lockIfShared ref
    let se ← readEntry pe ref
    unlockIfShared ref
    return se.state.toNat

/- What `sdei_event_get_info` makes of what it sampled. -/
def infoValue (m : EvMap)
    (se : Entry) : State.Info → Int
  | .evType => (!m.isPrivate).toNat
  | .evNotSignaled => (!m.signalable).toNat
  | .evPriority => m.critical.toNat
  | .evRoutingMode =>
    if m.isPrivate then sdeiEinval
    else if se.state.registered = false then sdeiEdeny
    else (se.regFlags == regfRmPe).toNat
  | .evRoutingAff =>
    if m.isPrivate then sdeiEinval
    else if se.state.registered = false then sdeiEdeny
    else if se.regFlags ≠ regfRmPe then sdeiEinval
    else se.affinity
  | .other => sdeiEinval

/- `sdei_event_get_info`. -/
def sdeiEventGetInfo (p : Platform) (pe : Nat) (evNum : Int)
    (info : State.Info) : Prog Int := do
  match ← findEventMap p evNum with
  | none => return sdeiEinval
  | some ref =>
    lockIfShared ref
    let se ← readEntry pe ref
    unlockIfShared ref
    let m ← readMap ref
    return infoValue m se info

/- `sdei_signal`. -/
def sdeiSignal (p : Platform) (pe : Nat) (evNum : Int)
    (targetPe : Nat) : Prog Int := do
  if evNum ≠ sdeiEvent0 then
    return sdeiEinval
  match ← findEventMap p sdeiEvent0 with
  | none => return sdeiEinval
  | some ref =>
    let m ← readMap ref
    if m.signalable = false then
      return sdeiEinval
    if p.validAffinity targetPe = false then
      return sdeiEinval
    icCall pe (.raiseEl3Sgi m.intr targetPe)
    return 0

----
-- Binding
----

/-
  The first scan of a round of `sdei_interrupt_bind`, with
  the value that it returns, if any.
-/
def bindScan (p : Platform)
    (intrNum : Nat) : Prog (Option Int) := do
  match ← findEventMapByIntr p intrNum (p.isSpi intrNum) with
  | none => return none
  | some ref =>
    let m ← readMap ref
    if m.dynamic then
      return if m.bound then some m.evNum else none
    else
      return some sdeiEinval

/- The section of `sdei_interrupt_bind`. -/
def bindLocked (intrNum : Nat)
    (ref : MapRef) : Prog (Option Int) := do
  let m ← readMap ref
  if m.bound then
    return none
  .modify (fun s => s.setMap ref { s.map ref with intr := intrNum, bound := true })
  return some m.evNum

/-
  The rest of a round; nothing is returned where the slot
  has been taken in the meantime.
-/
def bindSlot (p : Platform) (ans : Answers)
    (intrNum : Nat) : Prog (Option Int) := do
  match ← findEventMapByIntr p sdeiDynIrq (p.isSpi intrNum) with
  | none => return some sdeiEnomem
  | some ref =>
    .assert (← readMap ref).dynamic .halt
    if (← getInterruptType ans intrNum) ≠ .ns then
      return some sdeiEdeny
    sdeiMapLock ref
    let taken ← bindLocked intrNum ref
    sdeiMapUnlock ref
    return taken

def bindRound (p : Platform) (ans : Answers)
    (intrNum : Nat) : Prog (Option Int) := do
  match ← bindScan p intrNum with
  | some ret => return some ret
  | none => bindSlot p ans intrNum

/-
  The loop of `sdei_interrupt_bind`, for as many rounds.  It
  spins where they are used up.
-/
def bindLoop (p : Platform) (ans : Answers)
    (intrNum : Nat) : Nat → Prog Int
  | 0 => .fail .spin
  | rounds + 1 => do
      match ← bindRound p ans intrNum with
      | some ret => return ret
      | none => bindLoop p ans intrNum rounds

/- `sdei_interrupt_bind`. -/
def sdeiInterruptBind (p : Platform) (ans : Answers)
    (intrNum rounds : Nat) : Prog Int := do
  if p.isSgi intrNum then
    return sdeiEinval
  bindLoop p ans intrNum rounds

/- `sdei_interrupt_release` under the lock. -/
def releaseLocked (pe : Nat) (ans : Answers)
    (ref : MapRef) : Prog Int := do
  if (← readMap ref).regCount ≠ 0 then
    return sdeiEdeny
  if !(← canSdeiStateTrans pe ref .release) then
    return sdeiEdeny
  let m ← readMap ref
  if m.bound = false then
    return sdeiEinval
  if ← getInterruptActive ans m.intr then
    return sdeiEdeny
  .modify (fun s => s.setMap ref { s.map ref with intr := sdeiDynIrq, bound := false })
  return 0

/- `sdei_interrupt_release`. -/
def sdeiInterruptRelease (p : Platform) (pe : Nat) (ans : Answers)
    (evNum : Int) : Prog Int := do
  match ← findEventMap p evNum with
  | none => return sdeiEinval
  | some ref =>
    if (← readMap ref).dynamic = false then
      return sdeiEinval
    sdeiMapLock ref
    let ret ← releaseLocked pe ans ref
    sdeiMapUnlock ref
    return ret

----
-- Reset
----

def unregisterAll (p : Platform) (pe : Nat) (ans : Answers)
    (shared : Bool) : List Nat → Int → Prog Int
  | [], finalRet => return finalRet
  | i :: rest, finalRet => do
      let m ← readMap ⟨shared, i⟩
      let ret ← sdeiEventUnregister p pe ans m.evNum
      unregisterAll p pe ans shared rest
        (if ret = sdeiEpend ∧ finalRet = 0 then sdeiEdeny
          else finalRet)

def releaseAll (p : Platform) (pe : Nat)
    (ans : Answers) : List MapRef → Int → Prog Int
  | [], finalRet => return finalRet
  | ref :: rest, finalRet => do
      let m ← readMap ref
      if m.dynamic && m.bound then
        let ret ← sdeiInterruptRelease p pe ans m.evNum
        releaseAll p pe ans rest (if ret ≠ 0 ∧ finalRet = 0 then ret else finalRet)
      else
        releaseAll p pe ans rest finalRet

/- `sdei_private_reset`. -/
def sdeiPrivateReset (p : Platform) (pe : Nat)
    (ans : Answers) : Prog Int :=
  unregisterAll p pe ans false (List.range (p.numMaps false)) 0

/- `sdei_shared_reset`. -/
def sdeiSharedReset (p : Platform) (pe : Nat)
    (ans : Answers) : Prog Int := do
  let finalRet ←
    unregisterAll p pe ans true (List.range (p.numMaps true)) 0
  if finalRet ≠ 0 then
    return finalRet
  releaseAll p pe ans
    ((List.range (p.numMaps false)).map (⟨false, ·⟩) ++
      (List.range (p.numMaps true)).map (⟨true, ·⟩)) 0

----
-- Masking
----

/- `sdei_pe_mask`. -/
def sdeiPeMask (pe : Nat) : Prog Int := do
  let c ← readCpu pe
  .modify (fun s => s.setCpu pe { s.cpu pe with peMasked := true })
  return if c.peMasked then 0 else 1

/- Enabling the interrupt of a map that passes a test. -/
def enableMap (pe : Nat) (test : EvMap → Entry → Bool)
    (ref : MapRef) : Prog Unit := do
  let m ← readMap ref
  let se ← readEntry pe ref
  if test m se then
    icCall pe (.enable m.intr)

def enablePrivate (pe : Nat)
    (test : EvMap → Entry → Bool) : List Nat → Prog Unit
  | [] => pure ()
  | i :: rest => do
      enableMap pe test ⟨false, i⟩
      enablePrivate pe test rest

/- Each shared map is looked at under its lock. -/
def enableShared (pe : Nat)
    (test : EvMap → Entry → Bool) : List Nat → Prog Unit
  | [] => pure ()
  | i :: rest => do
      sdeiMapLock ⟨true, i⟩
      enableMap pe test ⟨true, i⟩
      sdeiMapUnlock ⟨true, i⟩
      enableShared pe test rest

/- The loops of `sdei_pe_unmask`. -/
def enablePending (p : Platform) (pe : Nat) : Prog Unit := do
  enablePrivate pe (fun m se => m.bound && se.state.enabled) (List.range (p.numMaps false))
  enableShared pe
    (fun m se => m.bound && se.state.enabled && se.regFlags == regfRmPe &&
      se.affinity == mpidrAffinityMask (p.mpidr pe))
    (List.range (p.numMaps true))

/- `sdei_pe_unmask`. -/
def sdeiPeUnmask (p : Platform) (pe : Nat) : Prog Int := do
  if (← readCpu pe).pendingEnables then
    enablePending p pe
  .modify (fun s =>
    s.setCpu pe
      { s.cpu pe with
        pendingEnables := false
        peMasked := false })
  return 0

----
-- Dispatch
----

/- `handle_masked_trigger`. -/
def handleMaskedTrigger (p : Platform) (pe : Nat) (ref : MapRef)
    (intrRaw : Nat) : Prog Unit := do
  let myMpidr := mpidrAffinityMask (p.mpidr pe)
  let m ← readMap ref
  let se ← readEntry pe ref
  if m.evNum = sdeiEvent0 then
    return ()
  if m.isPrivate || se.regFlags == regfRmPe then
    .assert (m.isPrivate || se.affinity == myMpidr) .halt
    icCall pe (.disable m.intr)
    icCall pe (.setPending m.intr)
    icCall pe (.endOfInterrupt intrRaw)
    .modify (fun s => s.setCpu pe { s.cpu pe with pendingEnables := true })
  else
    .assert (p.isSpi m.intr) .halt
    icCall pe (.setPending m.intr)
    icCall pe (.handleMaskedTrigger myMpidr m.intr)
    icCall pe (.endOfInterrupt intrRaw)

/-
  `sdei_intr_handler` under the lock, on an unmasked PE;
  `false` where the event can't be dispatched.
-/
def dispatchLocked (p : Platform) (pe : Nat) (ref : MapRef)
    (intrRaw : Nat) : Prog Bool := do
  let m ← readMap ref
  let se ← readEntry pe ref
  .assert
    (m.isPrivate || se.regFlags != regfRmPe || se.affinity == mpidrAffinityMask (p.mpidr pe)) .halt
  if ← canSdeiStateTrans pe ref .dispatch then
    .assert (← .read (fun s => s.mayDispatch pe m)) .halt
    return true
  else
    if (← readEntry pe ref).state.registered then
      icCall pe (.setPending m.intr)
    icCall pe (.endOfInterrupt intrRaw)
    return false

/- Switching to the client's handler. -/
def setupNsDispatch (p : Platform) (pe : Nat) (ref : MapRef) (secState : SecState)
    (intrRaw : Nat) : Prog Int := do
  .tryModify (fun s => s.setupNsDispatch p pe ref secState intrRaw) .halt
  return 0

/- `sdei_intr_handler` once it has found the map. -/
def handleEvent (p : Platform) (pe : Nat) (ref : MapRef) (intrRaw : Nat)
    (secState : SecState) : Prog Int := do
  let m ← readMap ref
  .assert (m.evNum == sdeiEvent0 || m.bound) .halt
  if (← readCpu pe).peMasked then
    lockIfShared ref
    handleMaskedTrigger p pe ref intrRaw
    unlockIfShared ref
    return 0
  lockIfShared ref
  let dispatched ← dispatchLocked p pe ref intrRaw
  unlockIfShared ref
  if !dispatched then
    return 0
  if secState = .secure then
    .modify (fun s => s.setNextEret pe .nonSecure)
  setupNsDispatch p pe ref secState intrRaw

/- `sdei_intr_handler`. -/
def sdeiIntrHandler (p : Platform) (pe : Nat) (intrRaw : Nat)
    (secState : SecState) : Prog Int := do
  let intr := p.intrId intrRaw
  match ← findEventMapByIntr p intr (p.isSpi intr) with
  | none => .fail .halt
  | some ref => handleEvent p pe ref intrRaw secState

/- `sdei_dispatch_event`, which takes no lock. -/
def sdeiDispatchEvent (p : Platform) (pe : Nat) (evNum : Int)
    (secState : SecState) : Prog Int := do
  if (← readCpu pe).peMasked then
    return -1
  if evNum = sdeiEvent0 then
    return -1
  match ← findEventMap p evNum with
  | none => return -1
  | some ref =>
    let m ← readMap ref
    if m.dynamic || m.bound then
      return -1
    if m.isPrivate = false then
      return -1
    if !(← .read (fun s => s.mayDispatch pe m)) then
      return -1
    if !(← canSdeiStateTrans pe ref .dispatch) then
      return -1
    icCall pe (.activatePriority (p.sdeiEventPriority m))
    .modify (fun s => s.setNextEret pe .nonSecure)
    setupNsDispatch p pe ref secState 0

----
-- Completion
----

/- `sdei_event_complete` under the lock, which it takes late. -/
def completeLocked (p : Platform) (pe : Nat) (ans : Answers) (d : DispatchContext)
    (resume : Option Nat) : Prog Unit := do
  .modify (fun s => s.restoreEventCtx p pe d resume)
  if d.secState = .secure ∧ ans.nsPreemptionAllowed = false
  then
    .modify (fun s => s.setNextEret pe .secure)
  let m ← readMap d.map
  if m.evNum = sdeiEvent0 ∨ m.bound = true then
    icCall pe (.endOfInterrupt d.intrRaw)
  else
    icCall pe (.deactivatePriority (p.sdeiEventPriority m))

/-
  `sdei_event_complete` for the top of the stack.  The state
  transition comes before the lock, and a failed transition
  releases a lock that was not taken.
-/
def completeDispatch
    (p : Platform) (pe : Nat) (ans : Answers) (d : DispatchContext) (rest : List DispatchContext)
    (resume : Option Nat) : Prog Int := do
  if ← canSdeiStateTrans pe d.map (if resume.isSome then .completeResume else .complete)
  then
    .modify (fun s => s.setCpu pe { s.cpu pe with dispatchStack := rest })
    lockIfShared d.map
    completeLocked p pe ans d resume
    unlockIfShared d.map
    return 0
  else
    unlockIfShared d.map
    return sdeiEdeny

/- `sdei_event_complete`. -/
def sdeiEventComplete (p : Platform) (pe : Nat) (ans : Answers)
    (resume : Option Nat) : Prog Int := do
  match (← readCpu pe).dispatchStack with
  | [] => return sdeiEdeny
  | d :: rest =>
    if resume.any (fun pc => !p.validateEntryPoint pc p.clientEl) then
      return sdeiEdeny
    completeDispatch p pe ans d rest resume

/- `sdei_event_context`, which takes no lock. -/
def sdeiEventContext (pe : Nat)
    (param : Nat) : Prog Int := do
  if sdeiSavedGpregs ≤ param then
    return sdeiEinval
  match (← readCpu pe).dispatchStack with
  | [] => return sdeiEdeny
  | d :: _ =>
    if !(← canSdeiStateTrans pe d.map .context) then
      return sdeiEdeny
    return d.saved.x param

end Locked

----
-- Entry Points
----

/-
  What a PE may be asked to run: a handler, or an SMC that
  looks at no event.
-/
inductive LockEntry where
  | handler (entry : Entrypoint)
  | version
  | features (feature : Nat)
  | unknown

namespace Locked

/- `MAKE_SDEI_VERSION(1, 0, 0)`. -/
def sdeiVersion : Int := (1 <<< 48 : Nat)

/- `sdei_features`: only the bind slots are known. -/
def sdeiFeatures (p : Platform) (feature : Nat) : Int :=
  if feature = 0 then
    ((p.privateMaps.filter (·.dynamic)).length % 2 ^ 16 |||
      ((p.sharedMaps.filter (·.dynamic)).length % 2 ^ 16) <<< 16 : Nat)
  else
    sdeiEinval

/- `SMC_UNK`. -/
def smcUnk : Int := -1

/-
  The program of an entry point.  A bind makes at most the
  given number of rounds.
-/
def handler (p : Platform) (pe : Nat) (ans : Answers)
    (rounds : Nat) : Entrypoint → Prog Int
  | .eventRegister evNum ep arg flags mpidr =>
    sdeiEventRegister p pe ans evNum ep arg flags mpidr
  | .eventEnable evNum => sdeiEventEnable p pe evNum
  | .eventDisable evNum => sdeiEventDisable p pe evNum
  | .eventContext param => sdeiEventContext pe param
  | .eventComplete resume => sdeiEventComplete p pe ans resume
  | .eventUnregister evNum => sdeiEventUnregister p pe ans evNum
  | .eventStatus evNum => sdeiEventStatus p pe evNum
  | .eventGetInfo evNum info => sdeiEventGetInfo p pe evNum info
  | .eventRoutingSet evNum flags mpidr => sdeiEventRoutingSet p pe evNum flags mpidr
  | .peMask => sdeiPeMask pe
  | .peUnmask => sdeiPeUnmask p pe
  | .interruptBind intr => sdeiInterruptBind p ans intr rounds
  | .interruptRelease evNum => sdeiInterruptRelease p pe ans evNum
  | .eventSignal evNum target => sdeiSignal p pe evNum target
  | .privateReset => sdeiPrivateReset p pe ans
  | .sharedReset => sdeiSharedReset p pe ans
  | .interrupt intrRaw secState => sdeiIntrHandler p pe intrRaw secState
  | .dispatchEvent evNum secState => sdeiDispatchEvent p pe evNum secState
  | .cpuOnFinish => do
      .modify (fun s => s.sdeiCpuOnInit p pe)
      return 0

def program (p : Platform) (pe : Nat) (ans : Answers)
    (rounds : Nat) : LockEntry → Prog Int
  | .handler entry => handler p pe ans rounds entry
  | .version => return sdeiVersion
  | .features feature => return sdeiFeatures p feature
  | .unknown => return smcUnk

end Locked

end Tfa.Sdei
