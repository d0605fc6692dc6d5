import BootFirmware.Uboot.CTypes
import Mathlib.Data.List.Dedup
import Mathlib.Logic.Function.Basic

/-
  Opening and closing of EFI protocols.

  A protocol on a handle has a list of open infos, one for
  each pair of an agent and a controller.  An exclusive open
  first disconnects the drivers: their `stop` hooks close what
  they like of what their driver opened, while the loop walks
  the list.

  Key definitions include:
    * `OpenInfo` and `State`
    * `efiCloseProtocol`
    * `efiDisconnectController` and `disconnectDrivers`
    * `efiOpenProtocol`
-/

----
-- The Database
----

namespace Uboot.Efi.Protocols

abbrev Handle := Nat

abbrev Guid := Nat

def NULL : Handle := 0

/- The attributes of an open. -/
def BY_HANDLE_PROTOCOL : Nat := 0x01
def GET_PROTOCOL : Nat := 0x02
def TEST_PROTOCOL : Nat := 0x04
def BY_CHILD_CONTROLLER : Nat := 0x08
def BY_DRIVER : Nat := 0x10
def EXCLUSIVE : Nat := 0x20

def hasBit (attributes bit : Nat) : Bool :=
  attributes &&& bit != 0

/- The values of `efi_status_t` that are returned. -/
inductive Status where
  | success
  | invalidParameter
  | outOfResources
  | notFound
  | accessDenied
  | alreadyStarted
deriving DecidableEq, Repr

/-
  `struct efi_open_protocol_info_entry`.  Without an agent
  nothing is recorded.
-/
structure OpenInfo where
  agentHandle : Handle
  controllerHandle : Handle
  attributes : Nat
  openCount : Nat
  agent_ne_null : agentHandle ≠ NULL

/- The entry of this agent and this controller. -/
def OpenInfo.isFor (agent controller : Handle)
    (info : OpenInfo) : Bool :=
  info.agentHandle == agent && info.controllerHandle == controller

/- What has happened to an open of a protocol on a handle. -/
inductive Event where
  | opened (handle : Handle) (protocol : Guid) (agent controller : Handle) (attributes : Nat)
  | closed (byHook : Bool) (handle : Handle) (protocol : Guid) (agent controller : Handle)
deriving DecidableEq, Repr

/-
  The objects with their protocols; a handle is the address
  of its object.  The history is not read by the code: it
  lists the opens and closes that succeeded, the last one
  first.
-/
structure State where
  objects : List Handle
  objects_ne_null : NULL ∉ objects
  protocols : Handle → List Guid
  interface : Handle → Guid → Nat
  openInfos : Handle → Guid → List OpenInfo
  history : List Event

/- Another list of open infos, and what led to it. -/
def State.record (s : State) (handle : Handle) (protocol : Guid) (infos : List OpenInfo)
    (event : Event) : State :=
  { s with
    openInfos := Function.update s.openInfos handle
      (Function.update (s.openInfos handle) protocol infos)
    history := event :: s.history }

/- `efi_search_obj`. -/
def efiSearchObj (s : State) (handle : Handle) : Bool :=
  decide (handle ∈ s.objects)

/- `efi_search_protocol`. -/
def efiSearchProtocol (s : State)
    (handle : Handle) : Option Guid → Except Status Guid
  | none => .error .invalidParameter
  | some protocol =>
    if handle = NULL then
      .error .invalidParameter
    else if ¬ efiSearchObj s handle then
      .error .invalidParameter
    else if protocol ∈ s.protocols handle then
      .ok protocol
    else
      .error .notFound

----
-- Closing
----

/- `efi_close_protocol`. -/
def efiCloseProtocol (byHook : Bool) (s : State) (handle : Handle) (protocol : Option Guid)
    (agent controller : Handle) : Status × State :=
  if agent = NULL then
    (.invalidParameter, s)
  else
    match efiSearchProtocol s handle protocol with
    | .error r => (r, s)
    | .ok guid =>
      let infos := s.openInfos handle guid
      if infos.any (OpenInfo.isFor agent controller) then
        (.success, s.record handle guid (infos.eraseP (OpenInfo.isFor agent controller))
            (.closed byHook handle guid agent controller))
      else
        (.notFound, s)

/- A call of `efi_close_protocol` in a `stop` hook. -/
structure HookClose where
  handle : Handle
  protocol : Option Guid
  controller : Handle

/- What a `stop` hook closes, and whether it succeeds. -/
structure Stop where
  closes : List HookClose
  succeeds : Bool

/- A `stop` hook closes what its driver opened. -/
def runCloses (driver : Handle) : List HookClose → State → State
  | [], s => s
  | c :: closes, s =>
    runCloses driver closes (efiCloseProtocol true s c.handle c.protocol driver c.controller).2

----
-- Opening
----

/- The answer to a call, with the interface it stores. -/
structure Reply where
  status : Status
  interface : Option Nat
  state : State

/- The last entry of this agent and controller is reused. -/
def reopen (agent controller : Handle) (attributes : Nat) : List OpenInfo → Option (List OpenInfo)
  | [] => none
  | info :: rest =>
    match reopen agent controller attributes rest with
    | some rest' => some (info :: rest')
    | none =>
      if info.isFor agent controller then
        some
          ({ info with
            attributes := attributes
            openCount := u32 (info.openCount + 1) } :: rest)
      else
        none

/- `*protocol_interface`, unless the protocol is tested. -/
def stored (attributes value : Nat) : Option Nat :=
  if attributes ≠ TEST_PROTOCOL then some value else none

/-
  The end of `efi_protocol_open`: an entry is found or, where
  `calloc` has memory for it, created.
-/
def enterOpenInfo
    (s : State) (handle : Handle) (protocol : Guid) (agent controller : Handle) (attributes : Nat)
    (hAgent : agent ≠ NULL)
    (calloc : Bool) : Reply :=
  let infos := s.openInfos handle protocol
  let opened : Event := .opened handle protocol agent controller attributes
  let found := stored attributes (s.interface handle protocol)
  match reopen agent controller attributes infos with
  | some infos' => ⟨.success, found, s.record handle protocol infos' opened⟩
  | none =>
    if calloc then
      ⟨.success, found,
        s.record handle protocol (infos ++ [⟨agent, controller, attributes, 1, hAgent⟩]) opened⟩
    else
      ⟨.outOfResources, stored attributes NULL, s⟩

/-
  `efi_protocol_open`, where `prepare` disconnects the drivers.
  There is no answer if that reads an entry that was freed.
-/
def efiProtocolOpen (prepare : State → Option State) (s : State) (handle : Handle)
    (protocol : Guid) (agent controller : Handle) (attributes : Nat)
    (calloc : Bool) : Option Reply :=
  if hAgent : agent = NULL then
    some ⟨.success, stored attributes (s.interface handle protocol), s⟩
  else
    let infos := s.openInfos handle protocol
    if infos.any (fun info =>
        info.agentHandle == agent &&
          (hasBit attributes BY_DRIVER && info.attributes == attributes)) then
      some ⟨.alreadyStarted, stored attributes NULL, s⟩
    else if
        infos.any (fun info => hasBit info.attributes EXCLUSIVE) &&
          hasBit attributes (EXCLUSIVE ||| BY_DRIVER) then
      some ⟨.accessDenied, stored attributes NULL, s⟩
    else if hasBit attributes EXCLUSIVE then
      match prepare s with
      | none => none
      | some s' =>
        if (s'.openInfos handle protocol).any (fun info => hasBit info.attributes BY_DRIVER) then
          some ⟨.accessDenied, stored attributes NULL, s'⟩
        else
          some (enterOpenInfo s' handle protocol agent controller attributes hAgent calloc)
    else
      some (enterOpenInfo s handle protocol agent controller attributes hAgent calloc)

/- The `switch` on the attributes in `efi_open_protocol`. -/
def attributesOk (s : State) (handle agent controller : Handle)
    (attributes : Nat) : Bool :=
  if attributes = BY_HANDLE_PROTOCOL ∨ attributes = GET_PROTOCOL ∨ attributes = TEST_PROTOCOL then
    true
  else if attributes = BY_CHILD_CONTROLLER then
    controller ≠ handle && efiSearchObj s controller && efiSearchObj s agent
  else if attributes = BY_DRIVER ∨ attributes = BY_DRIVER ||| EXCLUSIVE then
    efiSearchObj s controller && efiSearchObj s agent
  else if attributes = EXCLUSIVE then
    efiSearchObj s agent
  else
    false

/- The checks of `efi_open_protocol`, up to the handler. -/
def checkOpen (s : State) (handle : Handle) (protocol : Option Guid)
    (hasInterface : Bool) (agent controller : Handle)
    (attributes : Nat) : Except Status Guid :=
  if handle = NULL ∨ protocol = none ∨ (hasInterface = false ∧ attributes ≠ TEST_PROTOCOL) then
    .error .invalidParameter
  else if ¬ attributesOk s handle agent controller attributes then
    .error .invalidParameter
  else
    efiSearchProtocol s handle protocol

/- `efi_open_protocol`. -/
def efiOpenProtocol (prepare : Handle → Guid → State → Option State) (s : State)
    (handle : Handle) (protocol : Option Guid) (hasInterface : Bool)
    (agent controller : Handle) (attributes : Nat)
    (calloc : Bool) : Option Reply :=
  match checkOpen s handle protocol hasInterface agent controller attributes with
  | .error r => some ⟨r, none, s⟩
  | .ok guid =>
    efiProtocolOpen (prepare handle guid) s handle guid agent controller attributes calloc

----
-- Disconnecting The Drivers
----

/- `efi_get_child_controllers`, without duplicates. -/
def efiGetChildControllers (s : State)
    (controller driver : Handle) : List Handle :=
  ((s.protocols controller).flatMap fun guid =>
      ((s.openInfos controller guid).filter fun info =>
          info.agentHandle == driver && hasBit info.attributes BY_CHILD_CONTROLLER).map
        OpenInfo.controllerHandle).reverse.dedup.reverse

/-
  What the surroundings do in one disconnect: whether there
  is memory for the children and for an open info, and the
  `stop` hook for the children it is given.
-/
structure Surroundings where
  callocChildren : Bool
  callocInfo : Bool
  stop : List Handle → Stop

/-
  `efi_disconnect_controller` for a driver and all children.
  Opening the binding protocol disconnects nothing.
-/
def efiDisconnectController (binding : Guid) (s : State) (controller driver : Handle)
    (around : Surroundings) : Option (Status × State) :=
  if ¬ efiSearchObj s controller then
    some (.invalidParameter, s)
  else
    let children :=
      if around.callocChildren then
        efiGetChildControllers s controller driver
      else
        []
    match efiOpenProtocol (fun _ _ => some) s driver (some binding) true driver NULL GET_PROTOCOL
        around.callocInfo with
    | none => none
    | some reply =>
      if reply.status ≠ .success then
        some (reply.status, reply.state)
      else
        let first :=
          if children ≠ [] then around.stop children
          else ⟨[], false⟩
        let last := around.stop []
        let s' := runCloses driver last.closes (runCloses driver first.closes reply.state)
        let s'' := (efiCloseProtocol false s' driver (some binding) driver NULL).2
        if first.succeeds || last.succeeds then
          some (.success, s'')
        else
          some (.notFound, s'')

/-
  The loop that tries to disconnect the controllers.  A
  disconnect leaves no new entry behind, so the loop comes to
  those of the entries at its start that are still linked.
  Where the entry it stands on is gone, the next one is read
  from freed memory.
-/
def disconnectDrivers (binding : Guid) (around : Handle → Handle → Surroundings) (handle : Handle)
    (protocol : Guid) : List OpenInfo → State → Option State
  | [], s => some s
  | info :: rest, s =>
    let here := OpenInfo.isFor info.agentHandle info.controllerHandle
    match (s.openInfos handle protocol).find? here with
    | none => disconnectDrivers binding around handle protocol rest s
    | some item =>
      if item.attributes = BY_DRIVER then
        match efiDisconnectController binding s item.controllerHandle item.agentHandle
            (around item.agentHandle item.controllerHandle)
            with
        | none => none
        | some (_, s') =>
          if (s'.openInfos handle protocol).any here then
            disconnectDrivers binding around handle protocol rest s'
          else
            none
      else
        disconnectDrivers binding around handle protocol rest s

----
-- Calls
----

/- A call, with what its surroundings do meanwhile. -/
inductive Call where
  | openProtocol (handle : Handle) (protocol : Option Guid) (hasInterface : Bool)
      (agent controller : Handle)
      (attributes : Nat)
      (calloc : Bool)
      (around : Handle → Handle → Surroundings)
  | closeProtocol (handle : Handle) (protocol : Option Guid) (agent controller : Handle)

/- The answer to a call, unless freed memory is read. -/
def Call.reply (binding : Guid)
    (s : State) : Call → Option Reply
  | .openProtocol handle protocol hasInterface agent controller attributes calloc around =>
      efiOpenProtocol
        (fun handle guid s =>
          disconnectDrivers binding around handle guid (s.openInfos handle guid) s)
        s handle protocol hasInterface agent controller
        attributes calloc
  | .closeProtocol handle protocol agent controller =>
    let r := efiCloseProtocol false s handle protocol agent controller
    some ⟨r.1, none, r.2⟩

end Uboot.Efi.Protocols
