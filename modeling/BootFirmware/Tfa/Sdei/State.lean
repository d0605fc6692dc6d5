import Mathlib.Algebra.Group.Nat.Defs
import Mathlib.Data.List.Basic
import Mathlib.Logic.Function.Basic

/-
  The data of the SDEI dispatcher: the platform's event
  maps, the event entries, the state of each PE, and the
  handler state machine.

  Calls to the interrupt controller and to the exception
  handling framework are recorded in a log; what these
  answer is an input of every call.

  Key definitions include:
    * `EvState`, `sdeiStateTable` and `canSdeiStateTrans`
    * `EvMap`, `Entry`, `CpuState` and `State`
    * `Platform` and `Platform.sdeiInit`
    * `State.getEventEntry`
    * `State.findEventMap`
-/

----
-- Handler State Machine
----

namespace Tfa.Sdei

/- The three bits of a handler's composite state. -/
structure EvState where
  running : Bool
  enabled : Bool
  registered : Bool
  deriving DecidableEq

def reg_ : EvState := ⟨false, false, false⟩
def reG_ : EvState := ⟨false, false, true⟩
def rEG_ : EvState := ⟨false, true, true⟩
def Reg_ : EvState := ⟨true, false, false⟩
def ReG_ : EvState := ⟨true, false, true⟩
def REG_ : EvState := ⟨true, true, true⟩

/- The value of `se->state`. -/
def EvState.toNat (st : EvState) : Nat :=
  st.running.toNat * 4 + st.enabled.toNat * 2 + st.registered.toNat

/- `sdei_action_t`. -/
inductive Action where
  | register
  | release
  | enable
  | disable
  | unregister
  | routing
  | context
  | complete
  | completeResume
  | dispatch
  deriving DecidableEq

/- An entry of the table: `X___`, `NOP_` or a new state. -/
inductive Transition where
  | invalid
  | nop
  | goto (next : EvState)
  deriving DecidableEq

/- `sdei_state_table`, one row for each composite state. -/
def sdeiStateTable : EvState → Action → Transition
  | ⟨false, false, false⟩, act =>
    match act with
    | .register => .goto reG_
    | .release => .nop
    | _ => .invalid
  | ⟨true, false, false⟩, act =>
    match act with
    | .context => .nop
    | .complete => .goto reg_
    | .completeResume => .goto reg_
    | _ => .invalid
  | ⟨false, false, true⟩, act =>
    match act with
    | .enable => .goto rEG_
    | .disable => .nop
    | .unregister => .goto reg_
    | .routing => .nop
    | _ => .invalid
  | ⟨true, false, true⟩, act =>
    match act with
    | .enable => .goto REG_
    | .disable => .nop
    | .unregister => .goto Reg_
    | .context => .nop
    | .complete => .goto reG_
    | .completeResume => .goto reG_
    | _ => .invalid
  | ⟨false, true, true⟩, act =>
    match act with
    | .enable => .nop
    | .disable => .goto reG_
    | .unregister => .goto reg_
    | .dispatch => .goto REG_
    | _ => .invalid
  | ⟨true, true, true⟩, act =>
    match act with
    | .enable => .nop
    | .disable => .goto ReG_
    | .unregister => .goto Reg_
    | .context => .nop
    | .complete => .goto rEG_
    | .completeResume => .goto rEG_
    | _ => .invalid
  | ⟨_, true, false⟩, _ => .invalid

/-
  `can_sdei_state_trans`: `none` when the transition is
  forbidden, else the state it leaves.
-/
def canSdeiStateTrans (st : EvState)
    (act : Action) : Option EvState :=
  match sdeiStateTable st act with
  | .invalid => none
  | .nop => some st
  | .goto next => some next

----
-- Maps And Entries
----

/- `sdei_ev_map_t`, with `map_flags` spelled out. -/
structure EvMap where
  evNum : Int
  intr : Nat
  dynamic : Bool
  bound : Bool
  signalable : Bool
  isPrivate : Bool
  critical : Bool
  regCount : Int
  deriving DecidableEq

/- `sdei_entry_t`. -/
structure Entry where
  ep : Nat
  arg : Nat
  affinity : Nat
  regFlags : Nat
  state : EvState
  deriving DecidableEq

/- A zeroed entry. -/
def Entry.zero : Entry where
  ep := 0
  arg := 0
  affinity := 0
  regFlags := 0
  state := reg_

/- `clear_event_entries`: everything but the state. -/
def Entry.clearEventEntries (se : Entry) : Entry :=
  { Entry.zero with state := se.state }

/- A map is named by its mapping and its place there. -/
structure MapRef where
  shared : Bool
  idx : Nat
  deriving DecidableEq

inductive SecState where
  | secure
  | nonSecure
  deriving DecidableEq

/- The general purpose and exception registers saved. -/
structure Context where
  x : Nat → Nat
  elrEl3 : Nat
  spsrEl3 : Nat

/- `sdei_dispatch_context_t`. -/
structure DispatchContext where
  map : MapRef
  secState : SecState
  intrRaw : Nat
  saved : Context

/-
  `sdei_cpu_state_t`, with the stack's top first, and the
  registers of the PE that a dispatch changes.
-/
structure CpuState where
  dispatchStack : List DispatchContext
  peMasked : Bool
  pendingEnables : Bool
  nsContext : Context
  nextEret : SecState
  clientElr : Nat
  clientSpsr : Nat

/- `INTR_TYPE_*`. -/
inductive IntrType where
  | sEl1
  | el3
  | ns
  deriving DecidableEq

/- `INTR_ROUTING_MODE_*`. -/
inductive RoutingMode where
  | pe
  | any
  deriving DecidableEq

/- A call to the interrupt controller or to the EHF. -/
inductive IcCall where
  | enable (intr : Nat)
  | disable (intr : Nat)
  | setPending (intr : Nat)
  | clearPending (intr : Nat)
  | setType (intr : Nat) (type : IntrType)
  | setPriority (intr priority : Nat)
  | setSpiRouting (intr : Nat) (mode : RoutingMode) (mpidr : Nat)
  | raiseEl3Sgi (intr target : Nat)
  | endOfInterrupt (intrRaw : Nat)
  | handleMaskedTrigger (mpidr intr : Nat)
  | activatePriority (priority : Nat)
  | deactivatePriority (priority : Nat)
  deriving DecidableEq

/- All state shared by the PEs, and the state of each. -/
structure State where
  map : MapRef → EvMap
  privateEntry : Nat → Nat → Entry
  sharedEntry : Nat → Entry
  cpu : Nat → CpuState
  log : List (Nat × IcCall)

----
-- The Platform
----

def sdeiEvent0 : Int := 0
def sdeiDynIrq : Nat := 0

/-
  What a platform port provides, with the sanity checks of
  `sdei_class_init` on the maps.  Interrupt 0, the
  placeholder of free slots, is an SGI.
-/
structure Platform where
  coreCount : Nat
  primaryPe : Nat
  privateMaps : List EvMap
  sharedMaps : List EvMap
  mpidr : Nat → Nat
  validAffinity : Nat → Bool
  isSgi : Nat → Bool
  isPpi : Nat → Bool
  isSpi : Nat → Bool
  intrId : Nat → Nat
  validateEntryPoint : Nat → Nat → Bool
  clientEl : Nat
  criticalPri : Nat
  normalPri : Nat
  cores_lt : coreCount < 2 ^ 31
  shared_ok :
    ∀ m ∈ sharedMaps, m.isPrivate = false ∧ m.signalable = false ∧ 0 < m.evNum ∧
        if m.dynamic then
          m.intr = sdeiDynIrq ∧ m.critical = false
        else
          isSpi m.intr = true
  private_ok :
    ∀ m ∈ privateMaps,
      m.isPrivate = true ∧ 0 ≤ m.evNum ∧ (m.signalable = true ↔ m.evNum = sdeiEvent0) ∧
        if m.evNum = sdeiEvent0 then
          isSgi m.intr = true ∧ m.dynamic = false ∧ m.bound = false ∧ m.critical = false
        else if m.dynamic then
          m.intr = sdeiDynIrq ∧ m.critical = false
        else
          isPpi m.intr = true
  shared_sorted : (sharedMaps.map (·.evNum)).Pairwise (· < ·)
  private_sorted : (privateMaps.map (·.evNum)).Pairwise (· < ·)
  zero_found : ∃ m ∈ privateMaps, m.evNum = sdeiEvent0
  dynIrq_isSgi : isSgi sdeiDynIrq = true
  critical_lt_normal : criticalPri < normalPri

/- A map that no mapping has. -/
def EvMap.none : EvMap where
  evNum := -1
  intr := 0
  dynamic := false
  bound := false
  signalable := false
  isPrivate := false
  critical := false
  regCount := 0

/-
  What the two rounds of `sdei_class_init` leave of a map:
  static maps but event 0 are bound, and nothing is
  registered.
-/
def EvMap.classInit (m : EvMap) : EvMap :=
  { m with
    bound := m.bound || (!m.dynamic && decide (m.evNum ≠ sdeiEvent0))
    regCount := 0 }

namespace Platform

def maps (p : Platform) (shared : Bool) : List EvMap :=
  if shared then p.sharedMaps else p.privateMaps

def numMaps (p : Platform) (shared : Bool) : Nat :=
  (p.maps shared).length

/-
  The state after `sdei_init` on the primary PE, which
  masks its events.  `contexts` gives the registers of each
  PE at that time.
-/
def sdeiInit (p : Platform)
    (contexts : Nat → Context) : State where
  map := fun ref => ((p.maps ref.shared).getD ref.idx .none).classInit
  privateEntry := fun _ _ => .zero
  sharedEntry := fun _ => .zero
  cpu := fun pe =>
    { dispatchStack := []
      peMasked := decide (pe = p.primaryPe)
      pendingEnables := false
      nsContext := contexts pe
      nextEret := .nonSecure
      clientElr := 0
      clientSpsr := 0 }
  log := []

/- `sdei_event_priority`. -/
def sdeiEventPriority (p : Platform) (m : EvMap) : Nat :=
  if m.critical then p.criticalPri else p.normalPri

/- `SPSR_64(client_el, MODE_SP_ELX, DISABLE_ALL_...)`. -/
def clientSpsr (p : Platform) : Nat :=
  p.clientEl * 4 + 1 + 15 * 64

end Platform

----
-- Accessing The State
----

namespace State

/- `get_event_entry` on a PE. -/
def getEventEntry (s : State) (pe : Nat)
    (ref : MapRef) : Entry :=
  if ref.shared then s.sharedEntry ref.idx
  else s.privateEntry pe ref.idx

def setEntry (s : State) (pe : Nat) (ref : MapRef)
    (se : Entry) : State :=
  if ref.shared then
    { s with
      sharedEntry := Function.update s.sharedEntry ref.idx se }
  else
    { s with
      privateEntry :=
        Function.update s.privateEntry pe (Function.update (s.privateEntry pe) ref.idx se) }

def setEvState (s : State) (pe : Nat) (ref : MapRef)
    (st : EvState) : State :=
  s.setEntry pe ref { s.getEventEntry pe ref with state := st }

def setMap (s : State) (ref : MapRef)
    (m : EvMap) : State :=
  { s with map := Function.update s.map ref m }

def setCpu (s : State) (pe : Nat)
    (c : CpuState) : State :=
  { s with cpu := Function.update s.cpu pe c }

def call (s : State) (pe : Nat) (c : IcCall) : State :=
  { s with log := s.log ++ [(pe, c)] }

/- `iterate_mapping` looking for a map. -/
def findInMapping (p : Platform) (s : State) (shared : Bool)
    (test : EvMap → Bool) : Option MapRef :=
  ((List.range (p.numMaps shared)).find?
    (fun i => test (s.map ⟨shared, i⟩))).map (fun i => ⟨shared, i⟩)

/- `find_event_map_by_intr`. -/
def findEventMapByIntr (p : Platform) (s : State) (intr : Nat)
    (shared : Bool) : Option MapRef :=
  s.findInMapping p shared (fun m => m.intr == intr)

/- `find_event_map`: private mappings come first. -/
def findEventMap (p : Platform) (s : State)
    (evNum : Int) : Option MapRef :=
  match s.findInMapping p false (fun m => m.evNum == evNum) with
  | some ref => some ref
  | none => s.findInMapping p true (fun m => m.evNum == evNum)

----
-- What An Update Leaves Alone
----

section Updates

variable (s : State) (pe : Nat) (ref : MapRef)

@[simp]
theorem call_map (c : IcCall) : (s.call pe c).map = s.map :=
  rfl

@[simp]
theorem call_cpu (c : IcCall) : (s.call pe c).cpu = s.cpu :=
  rfl

@[simp]
theorem call_getEventEntry (pe' : Nat) (c : IcCall) :
    (s.call pe' c).getEventEntry pe ref = s.getEventEntry pe ref :=
  rfl

@[simp]
theorem setMap_cpu (m : EvMap) : (s.setMap ref m).cpu = s.cpu :=
  rfl

@[simp]
theorem setMap_log (m : EvMap) : (s.setMap ref m).log = s.log :=
  rfl

@[simp]
theorem setCpu_map (c : CpuState) :
    (s.setCpu pe c).map = s.map :=
  rfl

@[simp]
theorem setCpu_log (c : CpuState) :
    (s.setCpu pe c).log = s.log :=
  rfl

@[simp]
theorem setCpu_getEventEntry (pe' : Nat) (c : CpuState) :
    (s.setCpu pe' c).getEventEntry pe ref = s.getEventEntry pe ref :=
  rfl

@[simp]
theorem getEventEntry_setMap (ref' : MapRef) (m : EvMap) :
    (s.setMap ref' m).getEventEntry pe ref = s.getEventEntry pe ref :=
  rfl

@[simp]
theorem getEventEntry_setEntry (se : Entry) :
    (s.setEntry pe ref se).getEventEntry pe ref = se := by
  unfold setEntry getEventEntry
  split <;> simp

@[simp]
theorem getEventEntry_setEvState (st : EvState) :
    (s.setEvState pe ref st).getEventEntry pe ref = { s.getEventEntry pe ref with state := st } :=
  getEventEntry_setEntry ..

@[simp]
theorem setEntry_map (se : Entry) :
    (s.setEntry pe ref se).map = s.map := by
  unfold setEntry
  split <;> rfl

@[simp]
theorem setEntry_cpu (se : Entry) :
    (s.setEntry pe ref se).cpu = s.cpu := by
  unfold setEntry
  split <;> rfl

@[simp]
theorem setEvState_map (st : EvState) :
    (s.setEvState pe ref st).map = s.map :=
  setEntry_map ..

@[simp]
theorem setEvState_cpu (st : EvState) :
    (s.setEvState pe ref st).cpu = s.cpu :=
  setEntry_cpu ..

end Updates

end State

end Tfa.Sdei
