import BootFirmware.Lib.TransitionSystem
import BootFirmware.Tfa.Sdei.State

/-
  The SDEI entry points: the handlers of the SMCs, the
  interrupt handler, explicit dispatch and the hook that
  runs when a CPU comes up.

  Each runs as one step on one PE and gives the new state
  with its return value, or the assertion that fails.

  Key definitions include:
    * `Fault` and `Outcome`
    * `State.sdeiEventRegister`
    * `State.sdeiEventUnregister`
    * `State.sdeiInterruptBind`
    * `State.sdeiIntrHandler`
    * `State.sdeiEventComplete`
    * `State.sdeiCpuOnInit`
    * `Entrypoint` and `State.step`
    * `sdeiSystem`
-/

----
-- Outcomes
----

namespace Tfa.Sdei

/-
  Why a call does not return: an assertion on `reg_count`,
  another assertion or panic, or a loop that never ends.
-/
inductive Fault where
  | regCount
  | halt
  | spin
  deriving DecidableEq

abbrev Outcome : Type := Except Fault (State × Int)

def sdeiEinval : Int := -2
def sdeiEdeny : Int := -3
def sdeiEpend : Int := -5
def sdeiEnomem : Int := -10

def regfRmAny : Nat := 0
def regfRmPe : Nat := 1

def lowestIntrPriority : Nat := 0xff
def mpidrAffinityMask (mpidr : Nat) : Nat :=
  mpidr &&& 0xff00ffffff

def sdeiSavedGpregs : Nat := 18
def maxEventNesting : Nat := 2

/-
  What the platform answers during a call, given all calls
  made to it so far.
-/
structure Answers where
  interruptActive : List (Nat × IcCall) → Nat → Bool
  interruptType : List (Nat × IcCall) → Nat → IntrType
  nsPreemptionAllowed : Bool

namespace State

----
-- Registration
----

/- `validate_flags`. -/
def validateFlags (p : Platform) (flags mpidr : Nat) : Bool :=
  (flags == regfRmPe && p.validAffinity mpidr) || flags == regfRmAny

/- `set_sdei_entry`. -/
def setSdeiEntry (s : State) (pe : Nat) (ref : MapRef)
    (ep arg flags affinity : Nat) : State :=
  s.setEntry pe ref
    { ep := ep
      arg := arg
      affinity := mpidrAffinityMask affinity
      regFlags := flags
      state := (s.getEventEntry pe ref).state }

/- The routing mode that registration flags ask for. -/
def routingOf (flags : Nat) : RoutingMode :=
  if flags = regfRmAny then .any else .pe

/- `map->reg_count` changed by a registration or removal. -/
def addRegCount (s : State) (ref : MapRef)
    (change : Int) : State :=
  s.setMap ref
    { s.map ref with
      regCount := (s.map ref).regCount + change }

/- The assertion that registering or removing makes. -/
def regCountOk (s : State) (ref : MapRef) : Bool :=
  if (s.map ref).isPrivate then
    decide (0 ≤ (s.map ref).regCount)
  else
    decide ((s.map ref).regCount = 0)

/- Programming the interrupt of a bound map for SDEI. -/
def claimInterrupt (p : Platform) (s : State) (pe : Nat) (ref : MapRef) (evNum : Int)
    (flags mpidr : Nat) : State :=
  let m := s.map ref
  let s := s.call pe (.disable m.intr)
  let s :=
    if evNum ≠ sdeiEvent0 then
      s.call pe (.clearPending m.intr)
    else
      s
  let s := s.call pe (.setType m.intr .el3)
  let s := s.call pe (.setPriority m.intr (p.sdeiEventPriority m))
  if m.isPrivate then
    s
  else
    s.call pe (.setSpiRouting m.intr (routingOf flags) mpidr)

/-
  `sdei_event_register`.  The state transition is done first
  and undone when the registration is denied.
-/
def sdeiEventRegister (p : Platform) (s : State) (pe : Nat) (ans : Answers) (evNum : Int)
    (ep arg flags mpidr : Nat) : Outcome :=
  if ep = 0 ∨ p.validateEntryPoint ep p.clientEl = false then
    .ok (s, sdeiEinval)
  else if validateFlags p flags mpidr = false then
    .ok (s, sdeiEinval)
  else
    match s.findEventMap p evNum with
    | none => .ok (s, sdeiEinval)
    | some ref =>
      let m := s.map ref
      let flags := if m.isPrivate then regfRmPe else flags
      match canSdeiStateTrans (s.getEventEntry pe ref).state .register with
      | none => .ok (s, sdeiEdeny)
      | some next =>
        if m.dynamic && !m.bound then
          .ok (s, sdeiEdeny)
        else if s.regCountOk ref = false then
          .error .regCount
        else if m.bound &&
            (ans.interruptActive s.log m.intr || ans.interruptType s.log m.intr != .ns) then
          .ok (s, sdeiEdeny)
        else
          let s' :=
            if m.bound then
              s.claimInterrupt p pe ref evNum flags mpidr
            else
              s
          let s' := s'.setEvState pe ref next
          let s' := s'.setSdeiEntry pe ref ep arg flags mpidr
          .ok (s'.addRegCount ref 1, 0)

/-
  Giving the interrupt of a bound map back.  `none` when the
  interrupt does not belong to EL3, as is asserted.
-/
def releaseInterrupt (s : State) (pe : Nat) (ref : MapRef) (ans : Answers)
    (evNum : Int) : Option State :=
  let m := s.map ref
  let s := s.call pe (.disable m.intr)
  let s :=
    if evNum ≠ sdeiEvent0 then
      s.call pe (.clearPending m.intr)
    else
      s
  if ans.interruptType s.log m.intr = .el3 then
    let s := s.call pe (.setType m.intr .ns)
    some (s.call pe (.setPriority m.intr lowestIntrPriority))
  else
    none

/- `sdei_event_unregister`. -/
def sdeiEventUnregister (p : Platform) (s : State) (pe : Nat) (ans : Answers)
    (evNum : Int) : Outcome :=
  match s.findEventMap p evNum with
  | none => .ok (s, sdeiEinval)
  | some ref =>
    match canSdeiStateTrans (s.getEventEntry pe ref).state .unregister with
    | none =>
      .ok (s,
        if (s.getEventEntry pe ref).state.running then
          sdeiEpend
        else
          sdeiEdeny)
    | some next =>
      let s := (s.setEvState pe ref next).addRegCount ref (-1)
      if s.regCountOk ref = false then
        .error .regCount
      else
        let released :=
          if (s.map ref).bound then
            s.releaseInterrupt pe ref ans evNum
          else
            some s
        match released with
        | none => .error .halt
        | some s =>
          let s := s.setEntry pe ref (s.getEventEntry pe ref).clearEventEntries
          .ok (s, if next.running then sdeiEpend else 0)

----
-- Enabling And Routing
----

/-
  `sdei_event_enable` and `sdei_event_disable`: the state
  transition, and one call when the enabled bit changes.
-/
def sdeiEventSetEnabled (p : Platform) (s : State) (pe : Nat) (act : Action)
    (changed : Bool → Bool → Bool) (call : Nat → IcCall)
    (evNum : Int) : Outcome :=
  match s.findEventMap p evNum with
  | none => .ok (s, sdeiEinval)
  | some ref =>
    let before := (s.getEventEntry pe ref).state
    match canSdeiStateTrans before act with
    | none => .ok (s, sdeiEdeny)
    | some next =>
      let s := s.setEvState pe ref next
      let s :=
        if (s.map ref).bound && changed before.enabled next.enabled then
          s.call pe (call (s.map ref).intr)
        else
          s
      .ok (s, 0)

def sdeiEventEnable (p : Platform) (s : State) (pe : Nat)
    (evNum : Int) : Outcome :=
  s.sdeiEventSetEnabled p pe .enable (fun before after => !before && after) .enable evNum

def sdeiEventDisable (p : Platform) (s : State) (pe : Nat)
    (evNum : Int) : Outcome :=
  s.sdeiEventSetEnabled p pe .disable (fun before after => before && !after) .disable evNum

/-
  `sdei_event_routing_set`.  The flags of the entry change,
  its affinity does not.
-/
def sdeiEventRoutingSet (p : Platform) (s : State) (pe : Nat) (evNum : Int)
    (flags mpidr : Nat) : Outcome :=
  if validateFlags p flags mpidr = false then
    .ok (s, sdeiEinval)
  else
    match s.findEventMap p evNum with
    | none => .ok (s, sdeiEinval)
    | some ref =>
      if (s.map ref).isPrivate then
        .ok (s, sdeiEinval)
      else if (s.map ref).bound = false then
        .ok (s, sdeiEinval)
      else
        match canSdeiStateTrans (s.getEventEntry pe ref).state .routing with
        | none => .ok (s, sdeiEdeny)
        | some next =>
          let s := s.setEvState pe ref next
          let s := s.setEntry pe ref
            { s.getEventEntry pe ref with
              regFlags := flags }
          .ok (s.call pe (.setSpiRouting (s.map ref).intr (routingOf flags) mpidr), 0)

----
-- Binding
----

/-
  `sdei_interrupt_bind`.  Run without interference, a round
  that finds its slot already bound finds it again forever.
-/
def sdeiInterruptBind (p : Platform) (s : State) (ans : Answers)
    (intrNum : Nat) : Outcome :=
  if p.isSgi intrNum then
    .ok (s, sdeiEinval)
  else
    let sharedMapping := p.isSpi intrNum
    let slot : Unit → Outcome := fun _ =>
      match s.findEventMapByIntr p sdeiDynIrq sharedMapping with
      | none => .ok (s, sdeiEnomem)
      | some ref =>
        let m := s.map ref
        if m.dynamic = false then
          .error .halt
        else if ans.interruptType s.log intrNum ≠ .ns then
          .ok (s, sdeiEdeny)
        else if m.bound then
          .error .spin
        else
          .ok (s.setMap ref { m with intr := intrNum, bound := true }, m.evNum)
    match s.findEventMapByIntr p intrNum sharedMapping with
    | none => slot ()
    | some ref =>
      let m := s.map ref
      if m.dynamic then
        if m.bound then .ok (s, m.evNum) else slot ()
      else
        .ok (s, sdeiEinval)

/- `sdei_interrupt_release`. -/
def sdeiInterruptRelease (p : Platform) (s : State) (pe : Nat) (ans : Answers)
    (evNum : Int) : Outcome :=
  match s.findEventMap p evNum with
  | none => .ok (s, sdeiEinval)
  | some ref =>
    let m := s.map ref
    if m.dynamic = false then
      .ok (s, sdeiEinval)
    else if m.regCount ≠ 0 then
      .ok (s, sdeiEdeny)
    else
      match canSdeiStateTrans (s.getEventEntry pe ref).state .release with
      | none => .ok (s, sdeiEdeny)
      | some next =>
        let s := s.setEvState pe ref next
        if m.bound then
          if ans.interruptActive s.log m.intr then
            .ok (s, sdeiEdeny)
          else
            .ok (s.setMap ref { m with intr := sdeiDynIrq, bound := false }, 0)
        else
          .ok (s, sdeiEinval)

----
-- Reset
----

/-
  The loop that unregisters every map of a mapping, with
  the result so far.
-/
def unregisterAll (p : Platform) (pe : Nat) (ans : Answers) (shared : Bool) :
    List Nat → State → Int → Outcome
  | [], s, finalRet => .ok (s, finalRet)
  | i :: rest, s, finalRet =>
    match s.sdeiEventUnregister p pe ans (s.map ⟨shared, i⟩).evNum with
    | .error fault => .error fault
    | .ok (s, ret) =>
      unregisterAll p pe ans shared rest s
        (if ret = sdeiEpend ∧ finalRet = 0 then sdeiEdeny
          else finalRet)

/- The loop that releases every bound dynamic map. -/
def releaseAll (p : Platform) (pe : Nat) (ans : Answers) :
    List MapRef → State → Int → Outcome
  | [], s, finalRet => .ok (s, finalRet)
  | ref :: rest, s, finalRet =>
    if (s.map ref).dynamic && (s.map ref).bound then
      match s.sdeiInterruptRelease p pe ans (s.map ref).evNum with
      | .error fault => .error fault
      | .ok (s, ret) =>
        releaseAll p pe ans rest s
          (if ret ≠ 0 ∧ finalRet = 0 then ret
            else finalRet)
    else
      releaseAll p pe ans rest s finalRet

/- `sdei_private_reset`. -/
def sdeiPrivateReset (p : Platform) (s : State) (pe : Nat)
    (ans : Answers) : Outcome :=
  unregisterAll p pe ans false (List.range (p.numMaps false)) s 0

/- `sdei_shared_reset`. -/
def sdeiSharedReset (p : Platform) (s : State) (pe : Nat)
    (ans : Answers) : Outcome :=
  match unregisterAll p pe ans true (List.range (p.numMaps true)) s 0 with
  | .error fault => .error fault
  | .ok (s, finalRet) =>
    if finalRet ≠ 0 then
      .ok (s, finalRet)
    else
      releaseAll p pe ans
        ((List.range (p.numMaps false)).map (⟨false, ·⟩) ++
          (List.range (p.numMaps true)).map (⟨true, ·⟩))
        s 0

----
-- Masking
----

/- `sdei_pe_mask`. -/
def sdeiPeMask (s : State) (pe : Nat) : State × Int :=
  let c := s.cpu pe
  (s.setCpu pe { c with peMasked := true },
    if c.peMasked then 0 else 1)

/-
  The calls that `sdei_pe_unmask` makes for the maps of a
  mapping that pass a test.
-/
def enableAll (pe : Nat) (shared : Bool) (test : EvMap → Entry → Bool) :
    List Nat → State → State
  | [], s => s
  | i :: rest, s =>
    let m := s.map ⟨shared, i⟩
    let se := s.getEventEntry pe ⟨shared, i⟩
    enableAll pe shared test rest (if test m se then s.call pe (.enable m.intr) else s)

/- `sdei_pe_unmask`. -/
def sdeiPeUnmask (p : Platform) (s : State)
    (pe : Nat) : State :=
  let myMpidr := mpidrAffinityMask (p.mpidr pe)
  let s :=
    if (s.cpu pe).pendingEnables then
      let s := enableAll pe false (fun m se => m.bound && se.state.enabled)
        (List.range (p.numMaps false)) s
      enableAll pe true
        (fun m se => m.bound && se.state.enabled &&
          se.regFlags == regfRmPe && se.affinity == myMpidr)
        (List.range (p.numMaps true)) s
    else
      s
  s.setCpu pe
    { s.cpu pe with
      pendingEnables := false
      peMasked := false }

----
-- Dispatch
----

/- `save_event_ctx`; `none` when the stack is full. -/
def saveEventCtx (s : State) (pe : Nat) (ref : MapRef) (secState : SecState)
    (intrRaw : Nat) : Option State :=
  let c := s.cpu pe
  if c.dispatchStack.length < maxEventNesting then
    some (s.setCpu pe
      { c with
        dispatchStack :=
          { map := ref
            secState := secState
            intrRaw := intrRaw
            saved := c.nsContext } :: c.dispatchStack })
  else
    none

/- `setup_ns_dispatch`. -/
def setupNsDispatch (p : Platform) (s : State) (pe : Nat) (ref : MapRef) (secState : SecState)
    (intrRaw : Nat) : Option State :=
  (s.saveEventCtx pe ref secState intrRaw).map fun s =>
    let c := s.cpu pe
    let se := s.getEventEntry pe ref
    s.setCpu pe
      { c with
        nsContext :=
          { x := fun i =>
              if i = 0 then (s.map ref).evNum.toNat
              else if i = 1 then se.arg
              else if i = 2 then c.nsContext.elrEl3
              else if i = 3 then c.nsContext.spsrEl3
              else c.nsContext.x i
            elrEl3 := se.ep
            spsrEl3 := p.clientSpsr } }

/- `cm_set_next_eret_context`. -/
def setNextEret (s : State) (pe : Nat)
    (sec : SecState) : State :=
  s.setCpu pe { s.cpu pe with nextEret := sec }

/- `handle_masked_trigger`. -/
def handleMaskedTrigger (p : Platform) (s : State) (pe : Nat) (ref : MapRef)
    (intrRaw : Nat) : Outcome :=
  let m := s.map ref
  let se := s.getEventEntry pe ref
  let myMpidr := mpidrAffinityMask (p.mpidr pe)
  if m.evNum = sdeiEvent0 then
    .ok (s, 0)
  else if m.isPrivate = false ∧ se.regFlags = regfRmPe ∧ se.affinity ≠ myMpidr then
    .error .halt
  else if m.isPrivate ∨ se.regFlags = regfRmPe then
    let s := s.call pe (.disable m.intr)
    let s := s.call pe (.setPending m.intr)
    let s := s.call pe (.endOfInterrupt intrRaw)
    .ok (s.setCpu pe { s.cpu pe with pendingEnables := true }, 0)
  else if p.isSpi m.intr = false then
    .error .halt
  else
    let s := s.call pe (.setPending m.intr)
    let s := s.call pe (.handleMaskedTrigger myMpidr m.intr)
    .ok (s.call pe (.endOfInterrupt intrRaw), 0)

/-
  Whether an event may be dispatched over what is running on
  the PE: only a critical event, and only over a normal one.
-/
def mayDispatch (s : State) (pe : Nat)
    (m : EvMap) : Bool :=
  match (s.cpu pe).dispatchStack with
  | [] => true
  | top :: _ => m.critical && !(s.map top.map).critical

/-
  `sdei_intr_handler` for an acknowledged interrupt that
  preempted the given security state.
-/
def sdeiIntrHandler (p : Platform) (s : State) (pe : Nat) (intrRaw : Nat)
    (secState : SecState) : Outcome :=
  let intr := p.intrId intrRaw
  match s.findEventMapByIntr p intr (p.isSpi intr) with
  | none => .error .halt
  | some ref =>
    let m := s.map ref
    let se := s.getEventEntry pe ref
    if m.evNum ≠ sdeiEvent0 ∧ m.bound = false then
      .error .halt
    else if (s.cpu pe).peMasked then
      s.handleMaskedTrigger p pe ref intrRaw
    else if m.isPrivate = false ∧ se.regFlags = regfRmPe ∧
        se.affinity ≠ mpidrAffinityMask (p.mpidr pe) then
      .error .halt
    else
      match canSdeiStateTrans se.state .dispatch with
      | none =>
        let s :=
          if se.state.registered then
            s.call pe (.setPending m.intr)
          else
            s
        .ok (s.call pe (.endOfInterrupt intrRaw), 0)
      | some next =>
        let s := s.setEvState pe ref next
        if s.mayDispatch pe m = false then
          .error .halt
        else
          let s :=
            if secState = .secure then
              s.setNextEret pe .nonSecure
            else
              s
          match s.setupNsDispatch p pe ref secState intrRaw with
          | none => .error .halt
          | some s => .ok (s, 0)

/- `sdei_dispatch_event`. -/
def sdeiDispatchEvent (p : Platform) (s : State) (pe : Nat) (evNum : Int)
    (secState : SecState) : Outcome :=
  if (s.cpu pe).peMasked then
    .ok (s, -1)
  else if evNum = sdeiEvent0 then
    .ok (s, -1)
  else
    match s.findEventMap p evNum with
    | none => .ok (s, -1)
    | some ref =>
      let m := s.map ref
      if m.dynamic || m.bound then
        .ok (s, -1)
      else if m.isPrivate = false then
        .ok (s, -1)
      else if s.mayDispatch pe m = false then
        .ok (s, -1)
      else
        match canSdeiStateTrans (s.getEventEntry pe ref).state .dispatch with
        | none => .ok (s, -1)
        | some next =>
          let s := s.setEvState pe ref next
          let s := s.call pe (.activatePriority (p.sdeiEventPriority m))
          let s := s.setNextEret pe .nonSecure
          match s.setupNsDispatch p pe ref secState 0 with
          | none => .error .halt
          | some s => .ok (s, 0)

----
-- Completion
----

/- Giving the registers of a dispatch back. -/
def restoreEventCtx (p : Platform) (s : State) (pe : Nat) (d : DispatchContext)
    (resume : Option Nat) : State :=
  match resume with
  | none => s.setCpu pe { s.cpu pe with nsContext := d.saved }
  | some pc =>
    s.setCpu pe
      { s.cpu pe with
        nsContext :=
          { d.saved with
            elrEl3 := pc
            spsrEl3 := p.clientSpsr }
        clientElr := d.saved.elrEl3
        clientSpsr := d.saved.spsrEl3 }

/-
  `sdei_event_complete`; `resume` holds the resumption point
  of a complete-and-resume call.
-/
def sdeiEventComplete (p : Platform) (s : State) (pe : Nat) (ans : Answers)
    (resume : Option Nat) : Outcome :=
  match (s.cpu pe).dispatchStack with
  | [] => .ok (s, sdeiEdeny)
  | d :: rest =>
    if resume.any (fun pc => !p.validateEntryPoint pc p.clientEl) then
      .ok (s, sdeiEdeny)
    else
      let m := s.map d.map
      let act :=
        if resume.isSome then Action.completeResume
        else .complete
      match canSdeiStateTrans (s.getEventEntry pe d.map).state act with
      | none => .ok (s, sdeiEdeny)
      | some next =>
        let s := s.setEvState pe d.map next
        let s := s.setCpu pe { s.cpu pe with dispatchStack := rest }
        let s := s.restoreEventCtx p pe d resume
        let s :=
          if d.secState = .secure ∧ ans.nsPreemptionAllowed = false then
            s.setNextEret pe .secure
          else
            s
        let s :=
          if m.evNum = sdeiEvent0 ∨ m.bound = true then
            s.call pe (.endOfInterrupt d.intrRaw)
          else
            s.call pe (.deactivatePriority (p.sdeiEventPriority m))
        .ok (s, 0)

/- `sdei_event_context`. -/
def sdeiEventContext (s : State) (pe : Nat)
    (param : Nat) : Outcome :=
  if sdeiSavedGpregs ≤ param then
    .ok (s, sdeiEinval)
  else
    match (s.cpu pe).dispatchStack with
    | [] => .ok (s, sdeiEdeny)
    | d :: _ =>
      match canSdeiStateTrans (s.getEventEntry pe d.map).state .context with
      | none => .ok (s, sdeiEdeny)
      | some next => .ok (s.setEvState pe d.map next, d.saved.x param)

----
-- Queries And Signals
----

/- `sdei_event_status`. -/
def sdeiEventStatus (p : Platform) (s : State) (pe : Nat)
    (evNum : Int) : Int :=
  match s.findEventMap p evNum with
  | none => sdeiEinval
  | some ref => (s.getEventEntry pe ref).state.toNat

/- `SDEI_INFO_*`. -/
inductive Info where
  | evType
  | evNotSignaled
  | evPriority
  | evRoutingMode
  | evRoutingAff
  | other
  deriving DecidableEq

/- `sdei_event_get_info`. -/
def sdeiEventGetInfo (p : Platform) (s : State) (pe : Nat) (evNum : Int)
    (info : State.Info) : Int :=
  match s.findEventMap p evNum with
  | none => sdeiEinval
  | some ref =>
    let m := s.map ref
    let se := s.getEventEntry pe ref
    match info with
    | .evType => (!m.isPrivate).toNat
    | .evNotSignaled => (!m.signalable).toNat
    | .evPriority => m.critical.toNat
    | .evRoutingMode =>
      if m.isPrivate then sdeiEinval
      else if se.state.registered = false then sdeiEdeny
      else (se.regFlags == regfRmPe).toNat
    | .evRoutingAff =>
      if m.isPrivate then sdeiEinval
      else if se.state.registered = false then sdeiEdeny
      else if se.regFlags ≠ regfRmPe then sdeiEinval
      else se.affinity
    | .other => sdeiEinval

/- `sdei_signal`. -/
def sdeiSignal (p : Platform) (s : State) (pe : Nat) (evNum : Int)
    (targetPe : Nat) : Outcome :=
  if evNum ≠ sdeiEvent0 then
    .ok (s, sdeiEinval)
  else
    match s.findEventMap p sdeiEvent0 with
    | none => .ok (s, sdeiEinval)
    | some ref =>
      if (s.map ref).signalable = false then
        .ok (s, sdeiEinval)
      else if p.validAffinity targetPe = false then
        .ok (s, sdeiEinval)
      else
        .ok (s.call pe (.raiseEl3Sgi (s.map ref).intr targetPe), 0)

/-
  `sdei_cpu_on_init`: the private entries of the PE are
  zeroed and its events masked.  Registration counts and the
  dispatch stack stay as they are.
-/
def sdeiCpuOnInit (p : Platform) (s : State)
    (pe : Nat) : State :=
  ({ s with
    privateEntry :=
      Function.update s.privateEntry pe (fun i =>
        if i < p.numMaps false then .zero
        else s.privateEntry pe i) }.sdeiPeMask pe).1

end State

----
-- The System
----

/- What can happen on a PE. -/
inductive Entrypoint where
  | eventRegister (evNum : Int) (ep arg flags mpidr : Nat)
  | eventEnable (evNum : Int)
  | eventDisable (evNum : Int)
  | eventContext (param : Nat)
  | eventComplete (resume : Option Nat)
  | eventUnregister (evNum : Int)
  | eventStatus (evNum : Int)
  | eventGetInfo (evNum : Int) (info : State.Info)
  | eventRoutingSet (evNum : Int) (flags mpidr : Nat)
  | peMask
  | peUnmask
  | interruptBind (intr : Nat)
  | interruptRelease (evNum : Int)
  | eventSignal (evNum : Int) (target : Nat)
  | privateReset
  | sharedReset
  | interrupt (intrRaw : Nat) (secState : SecState)
  | dispatchEvent (evNum : Int) (secState : SecState)
  | cpuOnFinish
  deriving DecidableEq

/- One call on one PE. -/
structure Label where
  pe : Nat
  entry : Entrypoint
  ans : Answers

namespace State

/- Run an entry point. -/
def run (p : Platform) (s : State)
    (l : Label) : Outcome :=
  match l.entry with
  | .eventRegister evNum ep arg flags mpidr =>
    s.sdeiEventRegister p l.pe l.ans evNum ep arg flags mpidr
  | .eventEnable evNum => s.sdeiEventEnable p l.pe evNum
  | .eventDisable evNum => s.sdeiEventDisable p l.pe evNum
  | .eventContext param => s.sdeiEventContext l.pe param
  | .eventComplete resume => s.sdeiEventComplete p l.pe l.ans resume
  | .eventUnregister evNum => s.sdeiEventUnregister p l.pe l.ans evNum
  | .eventStatus evNum => .ok (s, s.sdeiEventStatus p l.pe evNum)
  | .eventGetInfo evNum info => .ok (s, s.sdeiEventGetInfo p l.pe evNum info)
  | .eventRoutingSet evNum flags mpidr => s.sdeiEventRoutingSet p l.pe evNum flags mpidr
  | .peMask => .ok (s.sdeiPeMask l.pe)
  | .peUnmask => .ok (s.sdeiPeUnmask p l.pe, 0)
  | .interruptBind intr => s.sdeiInterruptBind p l.ans intr
  | .interruptRelease evNum => s.sdeiInterruptRelease p l.pe l.ans evNum
  | .eventSignal evNum target => s.sdeiSignal p l.pe evNum target
  | .privateReset => s.sdeiPrivateReset p l.pe l.ans
  | .sharedReset => s.sdeiSharedReset p l.pe l.ans
  | .interrupt intrRaw secState => s.sdeiIntrHandler p l.pe intrRaw secState
  | .dispatchEvent evNum secState => s.sdeiDispatchEvent p l.pe evNum secState
  | .cpuOnFinish => .ok (s.sdeiCpuOnInit p l.pe, 0)

/- A step is a call that returns, on a PE that exists. -/
def step (p : Platform) (s : State)
    (l : Label) : Option State :=
  if l.pe < p.coreCount then
    match s.run p l with
    | .ok (s, _) => some s
    | .error _ => none
  else
    none

end State

/- All PEs from `sdei_init` on. -/
def sdeiSystem (p : Platform) (contexts : Nat → Context) :
    TransitionSystem State Label :=
  .ofStep (p.sdeiInit contexts) (State.step p)

end Tfa.Sdei
