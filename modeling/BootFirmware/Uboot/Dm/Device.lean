import BootFirmware.Lib.Memory
import BootFirmware.Lib.TransitionSystem

/-
  The devices of the driver model: they are bound to their
  drivers, probed, removed and unbound.

  Every hook of a driver or a uclass, and every allocation,
  is a call whose answer may depend on all the calls before
  it.  Hooks do not call back, and a hook that is not there
  answers zero.  The clock settings of a device count as one;
  its pin control settings are left out, as their result is
  ignored.

  Key definitions include:
    * `Driver`, `Udevice` and `State`
    * `deviceBind` and `deviceProbe`
    * `deviceRemove` and `deviceUnbind`
    * `dmInit` and `driverModel`
-/

----
-- Devices
----

namespace Uboot.Dm

abbrev DevId := Nat

abbrev UclassId := Nat

def EINVAL : Int := 22

def ENOMEM : Int := 12

def DM_FLAG_ACTIVE_DMA : BitVec 32 := 1#32 <<< 9

def DM_FLAG_OS_PREPARE : BitVec 32 := 1#32 <<< 10

def DM_REMOVE_NORMAL : BitVec 32 := 1#32

def DM_MAX_SEQ : Nat := 999

/- What a driver says of the devices that are bound to it. -/
structure Driver where
  id : UclassId
  flags : BitVec 32
  privAutoAllocSize : Nat
  platdataAutoAllocSize : Nat
  perChildAutoAllocSize : Nat
  perChildPlatdataAutoAllocSize : Nat
deriving DecidableEq, Repr

structure UclassDriver where
  perDeviceAutoAllocSize : Nat
  perDevicePlatdataAutoAllocSize : Nat
  perChildAutoAllocSize : Nat
  perChildPlatdataAutoAllocSize : Nat
deriving DecidableEq, Repr

/- The private data that may be allocated for a device. -/
inductive Priv where
  | priv
  | uclassPriv
  | parentPriv
deriving DecidableEq, Repr

/-
  A device.  `priv` says which of its private data have been
  allocated for it.
-/
structure Udevice where
  parent : Option DevId
  driver : Driver
  reqSeq : Int
  seq : Int
  activated : Bool
  bound : Bool
  priv : Priv → Bool

/- The calls that may fail. -/
inductive Hook where
  | uclassGet
  | calloc
  | allocPriv (part : Priv)
  | uclassChildPostBind
  | bind
  | childPostBind
  | postBind
  | unbind
  | preUnbind
  | preProbe
  | uclassChildPreProbe
  | childPreProbe
  | ofdataToPlatdata
  | clkSetDefaults
  | probe
  | postProbe
  | preRemove
  | remove
  | childPostRemove
deriving DecidableEq, Repr

structure Call where
  hook : Hook
  dev : DevId
deriving DecidableEq, Repr

abbrev Trace := List (Call × Int)

/-
  What the drivers are, and what their hooks answer after the
  calls before, the newest of which is first.
-/
structure World where
  uclassDriver : UclassId → UclassDriver
  answer : Trace → Call → Int

/-
  The devices.  `live` has those that are not freed, in the
  order in which they were bound, and so the children of each
  of them; `listed` has the nodes on the lists of all
  uclasses, and a device that is freed may still be on one.
  `asserted` is set when an assertion fails, and `faulted`
  when a device that is freed is read or written.
-/
structure State where
  dev : Memory Udevice
  live : List DevId
  listed : List DevId
  fresh : DevId
  trace : Trace
  asserted : Bool
  faulted : Bool

namespace State

def modify (s : State) (d : DevId) (f : Udevice → Udevice) :
    State :=
  { s with dev := Function.update s.dev d (f (s.dev d)) }

def children (s : State) (d : DevId) : List DevId :=
  s.live.filter fun c => (s.dev c).parent = some d

/- The nodes on the list of a uclass, in the order of it. -/
def onList (s : State) (id : UclassId) : List DevId :=
  s.listed.filter fun e => (s.dev e).driver.id = id

/- Nodes of a list are read or written. -/
def touch (s : State) (nodes : List DevId) : State :=
  { s with faulted := s.faulted || nodes.any fun e => decide (e ∉ s.live) }

/- The nodes before and behind one on its list. -/
def neighbours (s : State) (d : DevId) : List DevId :=
  let list := s.onList (s.dev d).driver.id
  (list.takeWhile (· ≠ d)).getLast?.toList ++ ((list.dropWhile (· ≠ d)).drop 1).head?.toList

/- The `list_del` of a node on the list of its uclass. -/
def listDel (d : DevId) (s : State) : State :=
  { s.touch (s.neighbours d) with listed := s.listed.erase d }

end State

/- The result of a function, and the state that it leaves. -/
abbrev Outcome := Int × State

/- Go on unless there was an error. -/
def Outcome.andThen (r : Outcome) (f : State → Outcome) :
    Outcome :=
  if r.1 = 0 then f r.2 else r

def callHook (w : World) (hook : Hook) (d : DevId) (s : State) :
    Outcome :=
  let r := w.answer s.trace ⟨hook, d⟩
  (r, { s with trace := (⟨hook, d⟩, r) :: s.trace })

/- Call a hook that only a device with a parent has. -/
def callParent (w : World) (hook : Hook) (d : DevId) (s : State) : Outcome :=
  if (s.dev d).parent.isSome then callHook w hook d s
  else (0, s)

/- Call a number of hooks, up to the first that fails. -/
def callAll (calls : List (State → Outcome)) (s : State) :
    Outcome :=
  calls.foldl Outcome.andThen (0, s)

----
-- Private Data
----

/- The size of the private data, which is zero for none. -/
def privSize (w : World) (s : State) (d : DevId) : Priv → Nat
  | .priv => (s.dev d).driver.privAutoAllocSize
  | .uclassPriv => (w.uclassDriver (s.dev d).driver.id).perDeviceAutoAllocSize
  | .parentPriv =>
    match (s.dev d).parent with
    | none => 0
    | some p =>
      let size := (s.dev p).driver.perChildAutoAllocSize
      if size = 0 then
        (w.uclassDriver (s.dev p).driver.id).perChildAutoAllocSize
      else size

/- Allocate private data if requested and not reentered. -/
def allocPriv (w : World) (part : Priv) (d : DevId) (s : State) : Outcome :=
  if privSize w s d part ≠ 0 ∧ (s.dev d).priv part = false then
    let r := callHook w (.allocPriv part) d s
    if r.1 = 0 then
      (0, r.2.modify d fun x => { x with priv := Function.update x.priv part true })
    else (-ENOMEM, r.2)
  else (0, s)

def deviceFree (w : World) (d : DevId) (s : State) : State :=
  s.modify d fun x =>
    { x with
      priv := fun part =>
        if privSize w s d part ≠ 0 then false
        else x.priv part }

----
-- device_remove
----

def flagsRemove (flags drvFlags : BitVec 32) : Bool :=
  flags &&& DM_REMOVE_NORMAL ≠ 0 ∨
    flags &&& (drvFlags &&& (DM_FLAG_ACTIVE_DMA ||| DM_FLAG_OS_PREPARE)) ≠ 0

/- `device_chld_remove` -/
def deviceChldRemove (remove : DevId → State → Outcome) : List DevId → State → Outcome
  | [], s => (0, s)
  | c :: rest, s => (remove c s).andThen (deviceChldRemove remove rest)

/- The device is not activated any more. -/
def deactivate (w : World) (d : DevId) (s : State) : State :=
  (deviceFree w d s).modify d fun x => { x with seq := -1, activated := false }

/-
  The device itself is removed, after its children.  An error
  ends with `post_probe`, and with what that returns.
-/
def removeSelf (w : World) (flags : BitVec 32) (d : DevId) (s : State) : Outcome :=
  let isRemoved := flagsRemove flags (s.dev d).driver.flags
  let r := if isRemoved then callHook w .remove d s else (0, s)
  if r.1 ≠ 0 then callHook w .postProbe d r.2
  else
    let r := callParent w .childPostRemove d r.2
    (r.1, if isRemoved then deactivate w d r.2 else r.2)

/- `device_remove`, for a tree that has so many levels. -/
def removeWithin (w : World) (flags : BitVec 32) : Nat → DevId → State → Outcome
  | 0, _, s => (-EINVAL, s)
  | levels + 1, d, s =>
    if (s.dev d).activated = false then (0, s)
    else
      (callHook w .preRemove d s).andThen fun s =>
        let r := deviceChldRemove (removeWithin w flags levels) (s.children d) s
        if r.1 ≠ 0 then callHook w .postProbe d r.2
        else removeSelf w flags d r.2

def deviceRemove (w : World) (d : DevId) (flags : BitVec 32) (s : State) : Outcome :=
  removeWithin w flags s.fresh d s

----
-- device_probe
----

/- `uclass_find_device_by_seq`, for numbers that are in use. -/
def uclassFindDeviceBySeq (s : State) (id : UclassId) (seq : Int) : Option DevId :=
  if seq = -1 then none
  else
    s.listed.find? fun e => (s.dev e).driver.id = id ∧ (s.dev e).seq = seq

/- The nodes that this comes to, up to the one it finds. -/
def walkBySeq (s : State) (id : UclassId) (seq : Int) : List DevId :=
  let list := s.onList id
  if seq = -1 then [] else list.take (list.findIdx (fun e => (s.dev e).seq = seq) + 1)

/- The first number from one on that is not in use. -/
def uclassFreeSeq (s : State) (id : UclassId) : Nat → Nat → Nat
  | 0, seq => seq
  | left + 1, seq =>
    if (uclassFindDeviceBySeq s id seq).isNone then seq
    else uclassFreeSeq s id left (seq + 1)

def walkFreeSeq (s : State) (id : UclassId) : Nat → Nat → List DevId
  | 0, _ => []
  | left + 1, seq =>
    walkBySeq s id seq ++
      if (uclassFindDeviceBySeq s id seq).isNone then []
      else walkFreeSeq s id left (seq + 1)

def uclassResolveSeq (s : State) (d : DevId) : Int :=
  let id := (s.dev d).driver.id
  let reqSeq := (s.dev d).reqSeq
  if (uclassFindDeviceBySeq s id reqSeq).isNone ∧ reqSeq ≠ -1
  then reqSeq
  else uclassFreeSeq s id DM_MAX_SEQ 0

def walkResolveSeq (s : State) (d : DevId) : List DevId :=
  let id := (s.dev d).driver.id
  let reqSeq := (s.dev d).reqSeq
  walkBySeq s id reqSeq ++
    if (uclassFindDeviceBySeq s id reqSeq).isNone ∧ reqSeq ≠ -1
    then []
    else walkFreeSeq s id DM_MAX_SEQ 0

/- The label `fail`. -/
def probeFail (w : World) (d : DevId) (ret : Int) (s : State) :
    Outcome :=
  (ret, deviceFree w d (s.modify d fun x => { x with activated := false, seq := -1 }))

/- Everything before the driver's own `probe`. -/
def probeHooks (w : World) (d : DevId) : State → Outcome :=
  callAll
    [callHook w .preProbe d, callParent w .uclassChildPreProbe d, callParent w .childPreProbe d,
      callHook w .ofdataToPlatdata d, callHook w .clkSetDefaults d]

/- The device has its number, and is activated. -/
def probeActivated (w : World) (d : DevId) (s : State) :
    Outcome :=
  let r := probeHooks w d s
  if r.1 ≠ 0 then probeFail w d r.1 r.2
  else
    let r := callHook w .probe d r.2
    if r.1 ≠ 0 then
      probeFail w d r.1 (r.2.modify d fun x => { x with activated := false })
    else
      let r := callHook w .postProbe d r.2
      if r.1 ≠ 0 then
        probeFail w d r.1 (deviceRemove w d DM_REMOVE_NORMAL r.2).2
      else r

/- Resolve the number, and go on with it. -/
def probeNumbered (w : World) (d : DevId) (s : State) :
    Outcome :=
  let s :=
    { s with
      asserted := s.asserted || (s.dev d).seq ≠ -1 }
  let seq := uclassResolveSeq s d
  let s := s.touch (walkResolveSeq s d)
  if seq < 0 then probeFail w d seq s
  else
    probeActivated w d
      (s.modify d fun x => { x with seq := seq, activated := true })

/- Ensure that the parent is probed, and go on below it. -/
def probeBelow (w : World) (probeParent : State → Outcome) (d : DevId) (s : State) : Outcome :=
  let r := allocPriv w .parentPriv d s
  if r.1 ≠ 0 then probeFail w d r.1 r.2
  else
    let r := probeParent r.2
    if r.1 ≠ 0 then probeFail w d r.1 r.2
    -- the parent may have probed it
    else if (r.2.dev d).activated then (0, r.2)
    else probeNumbered w d r.2

def probeAlloc (w : World) (d : DevId) : State → Outcome :=
  callAll [allocPriv w .priv d, allocPriv w .uclassPriv d]

/- `device_probe`, for a tree that has so many levels. -/
def probeWithin (w : World) : Nat → DevId → State → Outcome
  | 0, _, s => (-EINVAL, s)
  | levels + 1, d, s =>
    if (s.dev d).activated then (0, s)
    else
      let r := probeAlloc w d s
      if r.1 ≠ 0 then probeFail w d r.1 r.2
      else
        match (s.dev d).parent with
        | none => probeNumbered w d r.2
        | some p => probeBelow w (probeWithin w levels p) d r.2

def deviceProbe (w : World) (d : DevId) (s : State) : Outcome :=
  probeWithin w s.fresh d s

----
-- device_bind
----

/- Allocate something of a size, which is zero for nothing. -/
def allocate (w : World) (size : Nat) (d : DevId) (s : State) :
    Outcome :=
  if size ≠ 0 then
    let r := callHook w .calloc d s
    (if r.1 = 0 then 0 else -ENOMEM, r.2)
  else (0, s)

/- The size of the data that a parent has for each child. -/
def perChildPlatdata (w : World) (s : State) : Option DevId → Nat
  | none => 0
  | some p =>
    let size := (s.dev p).driver.perChildPlatdataAutoAllocSize
    if size = 0 then
      (w.uclassDriver (s.dev p).driver.id).perChildPlatdataAutoAllocSize
    else size

/- `uclass_unbind_device` -/
def uclassUnbindDevice (w : World) (d : DevId) (s : State) :
    Outcome :=
  (callHook w .preUnbind d s).andThen fun s => (0, s.listDel d)

/- Off the list of the parent, and freed. -/
def free (d : DevId) (s : State) : State :=
  { s with live := s.live.erase d }

/-
  The label `fail_bind`.  A device whose uclass does not let
  it go is freed nevertheless, and stays on the list.
-/
def bindFail (w : World) (d : DevId) (ret : Int) (s : State) :
    Outcome :=
  (ret, free d (uclassUnbindDevice w d s).2)

/- A device as it is before its hooks are called. -/
def newDevice (parent : Option DevId) (drv : Driver) (reqSeq : Int) : Udevice where
  parent := parent
  driver := drv
  reqSeq := reqSeq
  seq := -1
  activated := false
  bound := false
  priv := fun _ => false

/-
  On the list of its parent, and behind the last node of that
  of its uclass.
-/
def addDevice (x : Udevice) (s : State) : State :=
  { s.touch (s.onList x.driver.id).getLast?.toList with
    dev := Function.update s.dev s.fresh x
    live := s.live ++ [s.fresh]
    listed := s.listed ++ [s.fresh]
    fresh := s.fresh + 1 }

/-
  What is allocated for a device.  The sizes of the platform
  data count only in that there may be no room for them.
-/
def bindAlloc (w : World) (parent : Option DevId)
    (drv : Driver) (hasPlatdata : Bool) (s : State) : Outcome :=
  let d := s.fresh
  let uc := w.uclassDriver drv.id
  let pdata :=
    if hasPlatdata then 0 else drv.platdataAutoAllocSize
  callAll
    [callHook w .uclassGet d, allocate w 1 d, allocate w pdata d,
      allocate w uc.perDevicePlatdataAutoAllocSize d, allocate w (perChildPlatdata w s parent) d] s

/- The hooks of a device that is on the lists. -/
def bindAdded (w : World) (d : DevId) (s : State) : Outcome :=
  let r := callParent w .uclassChildPostBind d s
  if r.1 ≠ 0 then
    (r.1, free d (r.2.listDel d))
  else
    let r := callHook w .bind d r.2
    if r.1 ≠ 0 then bindFail w d r.1 r.2
    else
      let r := callAll [callParent w .childPostBind d, callHook w .postBind d] r.2
      if r.1 ≠ 0 then
        bindFail w d r.1 (callHook w .unbind d r.2).2
      else
        (0, r.2.modify d fun x => { x with bound := true })

def deviceBind (w : World) (parent : Option DevId)
    (drv : Driver) (reqSeq : Int) (hasPlatdata : Bool)
    (s : State) : Outcome :=
  let r := bindAlloc w parent drv hasPlatdata s
  if r.1 ≠ 0 then r
  else
    bindAdded w s.fresh (addDevice (newDevice parent drv reqSeq) r.2)

----
-- device_unbind
----

/- `device_chld_unbind`, which reports the first error. -/
def deviceChldUnbind (unbind : DevId → State → Outcome) : List DevId → State → Outcome
  | [], s => (0, s)
  | c :: rest, s =>
    let r := unbind c s
    let r' := deviceChldUnbind unbind rest r.2
    (if r.1 ≠ 0 then r.1 else r'.1, r'.2)

/- `device_unbind`, for a tree that has so many levels. -/
def unbindWithin (w : World) : Nat → DevId → State → Outcome
  | 0, _, s => (-EINVAL, s)
  | levels + 1, d, s =>
    if (s.dev d).activated then (-EINVAL, s)
    else if (s.dev d).bound = false then (-EINVAL, s)
    else
      (callHook w .unbind d s).andThen fun s =>
        (deviceChldUnbind (unbindWithin w levels)
          (s.children d) s).andThen fun s =>
            (uclassUnbindDevice w d s).andThen fun s => (0, free d s)

def deviceUnbind (w : World) (d : DevId) (s : State) : Outcome :=
  unbindWithin w s.fresh d s

----
-- The Driver Model
----

inductive Op where
  | bind (parent : Option DevId) (drv : Driver) (reqSeq : Int) (hasPlatdata : Bool)
  | probe (d : DevId)
  | remove (d : DevId) (flags : BitVec 32)
  | unbind (d : DevId)

/- The devices that the caller names are there. -/
def Op.Valid (s : State) : Op → Prop
  | .bind none _ _ _ => True
  | .bind (some p) _ _ _ => p ∈ s.live
  | .probe d | .remove d _ | .unbind d => d ∈ s.live

def perform (w : World) (s : State) : Op → Outcome
  | .bind parent drv reqSeq hasPlatdata => deviceBind w parent drv reqSeq hasPlatdata s
  | .probe d => deviceProbe w d s
  | .remove d flags => deviceRemove w d flags s
  | .unbind d => deviceUnbind w d s

/- There are no devices yet. -/
def empty (drv : Driver) : State where
  dev := fun _ => newDevice none drv (-1)
  live := []
  listed := []
  fresh := 0
  trace := []
  asserted := false
  faulted := false

/- The root device is bound, and is probed then. -/
def dmInit (w : World) (rootDriver : Driver) : Outcome :=
  (deviceBind w none rootDriver (-1) false (empty rootDriver)).andThen (deviceProbe w 0)

/- The runs after `dm_init`. -/
def driverModel (w : World) (rootDriver : Driver) : TransitionSystem State Op where
  init s :=
    (deviceBind w none rootDriver (-1) false (empty rootDriver)).1 = 0 ∧ s = (dmInit w rootDriver).2
  step s op t := op.Valid s ∧ t = (perform w s op).2

end Uboot.Dm
