import BootFirmware.Lib.TransitionSystem
import BootFirmware.Tfa.Psci.Topology

/-
  Power states of CPUs and domains: CPU_ON, CPU_OFF,
  CPU_SUSPEND and the wake-ups, with the statistics.

  An operation is one step where the source runs it under
  the locks of the domains it touches.  Local power states
  are numbers, 0 being RUN.  What the platform hooks answer
  is part of a step.

  Key definitions include:
    * `State` and `CpuStatus`
    * `psciValidateSuspendReq`
    * `State.psciDoStateCoordination`
    * `State.psciCpuSuspend`
    * `State.psciDoCpuOff`
    * `State.psciWarmbootEntrypoint`
    * `State.psciStatsUpdatePwrUp`
    * `Op` and `State.step`
-/

----
-- Local Power States
----

namespace Tfa.Psci

open Function

/- `PSCI_LOCAL_STATE_RUN`. -/
def psciLocalStateRun : Nat := 0

/- `STATE_TYPE_*`, in order of depth. -/
inductive LocalStateType where
  | run
  | retn
  | off
  deriving DecidableEq

/- The value of an enumeration constant. -/
def LocalStateType.toNat : LocalStateType → Nat
  | .run => 0
  | .retn => 1
  | .off => 2

/- `psci_power_state_t`: a local state for every level. -/
abbrev PowerStateInfo : Type := Nat → Nat

namespace Platform

variable (p : Platform)

/- `is_local_state_retn`. -/
def isLocalStateRetn (st : Nat) : Bool :=
  decide (psciLocalStateRun < st ∧ st ≤ p.maxRetState)

/- `is_local_state_off`. -/
def isLocalStateOff (st : Nat) : Bool :=
  decide (p.maxRetState < st ∧ st ≤ p.maxOffState)

/- `find_local_state_type`. -/
def findLocalStateType (st : Nat) : LocalStateType :=
  if st ≠ psciLocalStateRun then
    if p.maxRetState < st then .off else .retn
  else
    .run

/- `PSCI_INVALID_PWR_LVL`. -/
def psciInvalidPwrLvl : Nat := p.maxPwrLvl + 1

end Platform

/- The highest level, from a given one down, with `P`. -/
def findLvl (P : Nat → Bool) : Nat → Option Nat
  | 0 => if P 0 then some 0 else none
  | lvl + 1 =>
    if P (lvl + 1) then some (lvl + 1) else findLvl P lvl

/- `psci_find_max_off_lvl`. -/
def psciFindMaxOffLvl (p : Platform)
    (stateInfo : PowerStateInfo) : Nat :=
  (findLvl (fun lvl => p.isLocalStateOff (stateInfo lvl)) p.maxPwrLvl).getD p.psciInvalidPwrLvl

/- `psci_find_target_suspend_lvl`. -/
def psciFindTargetSuspendLvl (p : Platform)
    (stateInfo : PowerStateInfo) : Nat :=
  (findLvl (fun lvl => decide (stateInfo lvl ≠ psciLocalStateRun))
    p.maxPwrLvl).getD p.psciInvalidPwrLvl

/-
  The loop of `psci_validate_suspend_req`: towards the CPU
  no level is shallower than the one before.
-/
def typesDeepen (p : Platform) (stateInfo : PowerStateInfo) :
    LocalStateType → Nat → Bool
  | deepest, 0 => decide (deepest.toNat ≤ (p.findLocalStateType (stateInfo 0)).toNat)
  | deepest, lvl + 1 =>
    let type := p.findLocalStateType (stateInfo (lvl + 1))
    if type.toNat < deepest.toNat then false
    else typesDeepen p stateInfo type lvl

/- `psci_validate_suspend_req`. -/
def psciValidateSuspendReq (p : Platform) (stateInfo : PowerStateInfo)
    (isPowerDownState : Bool) : Bool :=
  let targetLvl := psciFindTargetSuspendLvl p stateInfo
  if targetLvl = p.psciInvalidPwrLvl then
    false
  else if typesDeepen p stateInfo .run targetLvl = false then
    false
  else
    let maxOffLvl := psciFindMaxOffLvl p stateInfo
    let maxRetnLvl :=
      if targetLvl ≠ maxOffLvl then targetLvl
      else p.psciInvalidPwrLvl
    if isPowerDownState = false ∧
        (maxOffLvl ≠ p.psciInvalidPwrLvl ∨ maxRetnLvl = p.psciInvalidPwrLvl) then
      false
    else
      true

/- The default `plat_get_target_pwr_state`. -/
def platGetTargetPwrState (p : Platform)
    (states : List Nat) : Nat :=
  states.foldl (fun target temp => if temp < target then temp else target) p.maxOffState

----
-- States
----

/- `AFF_STATE_*`. -/
inductive AffInfoState where
  | on
  | off
  | onPending
  deriving DecidableEq

/-
  What a CPU is doing: it runs, sleeps in the fast path with
  the state it asked for, waits in retention until a level,
  was powered down by a suspend request, is about to be off,
  or has no power.
-/
inductive CpuStatus where
  | running
  | fastStandby (cpuPdState : Nat)
  | retention (endPwrlvl : Nat)
  | suspended
  | goingOff
  | off
  deriving DecidableEq

/- `psci_stat_t`, of 64-bit registers. -/
structure PsciStat where
  residency : Nat
  count : Nat
  deriving DecidableEq

/-
  The data of PSCI.  `last_cpu_in_non_cpu_pd` holds `none`
  for -1.
-/
structure State where
  localState : Nat → Nat
  reqLocalPwrStates : Nat → Nat → Nat
  cpuLocalState : Nat → Nat
  affInfoState : Nat → AffInfoState
  targetPwrlvl : Nat → Nat
  lastCpuInNonCpuPd : Nat → Option Nat
  psciCpuStat : Nat → Nat → PsciStat
  psciNonCpuStat : Nat → Nat → PsciStat
  status : Nat → CpuStatus

/- Why an operation does not return. -/
inductive Fault where
  | notThere
  | panic
  | suspendReqAssertion
  | suspendFinishAssertion
  | statAssertion
  deriving DecidableEq

/- `plat_psci_stat_get_residency`, by level and last CPU. -/
abbrev Residency : Type := Nat → Nat → Nat

/- Set the request of a CPU for a level. -/
def setReqLocalPwrState (req : Nat → Nat → Nat)
    (pwrlvl cpuIdx st : Nat) : Nat → Nat → Nat :=
  update req pwrlvl (update (req pwrlvl) cpuIdx st)

/- The requests for a node by the CPUs below it. -/
def reqStatesOf (t : PowerDomainTree) (req : Nat → Nat → Nat)
    (lvl node : Nat) : List Nat :=
  (List.range (t.ncpus node)).map (fun i => req lvl (t.cpuStartIdx node + i))

namespace State

/- Change what a CPU is doing. -/
def become (s : State) (cpuIdx : Nat)
    (status : CpuStatus) : State :=
  { s with status := update s.status cpuIdx status }

def setAffInfoState (s : State) (cpuIdx : Nat)
    (aff : AffInfoState) : State :=
  { s with
    affInfoState := update s.affInfoState cpuIdx aff }

def setCpuLocalState (s : State)
    (cpuIdx st : Nat) : State :=
  { s with
    cpuLocalState := update s.cpuLocalState cpuIdx st }

def setSuspendPwrlvl (s : State)
    (cpuIdx lvl : Nat) : State :=
  { s with
    targetPwrlvl := update s.targetPwrlvl cpuIdx lvl }

----
-- Coordination
----

/- The loop of `psci_get_target_local_pwr_states`. -/
def getLoop (t : PowerDomainTree) (s : State) :
    Nat → Nat → Nat → PowerStateInfo → PowerStateInfo
  | 0, _, _, pdState => pdState
  | levels + 1, lvl, parentIdx, pdState =>
    s.getLoop t levels (lvl + 1) (t.parentOf parentIdx)
      (update pdState lvl (s.localState parentIdx))

/- `psci_get_target_local_pwr_states`. -/
def psciGetTargetLocalPwrStates (t : PowerDomainTree) (s : State)
    (cpuIdx endPwrlvl : Nat) : PowerStateInfo :=
  s.getLoop t endPwrlvl 1 (t.cpuParentOf cpuIdx)
    (update (fun _ => psciLocalStateRun) psciCpuPwrLvl (s.cpuLocalState cpuIdx))

end State

/- The loop of `psci_set_target_local_pwr_states`. -/
def setLoop (t : PowerDomainTree) (pdState : PowerStateInfo) :
    Nat → Nat → Nat → (Nat → Nat) → Nat → Nat
  | 0, _, _, localState => localState
  | levels + 1, lvl, parentIdx, localState =>
    setLoop t pdState levels (lvl + 1) (t.parentOf parentIdx)
      (update localState parentIdx (pdState lvl))

/-
  The second loop of `psci_do_state_coordination`: requests
  above a running domain are noted and the target is RUN.
-/
def restLoop (cpuIdx : Nat) :
    Nat → Nat → (Nat → Nat → Nat) → PowerStateInfo → (Nat → Nat → Nat) × PowerStateInfo
  | 0, _, req, stateInfo => (req, stateInfo)
  | levels + 1, lvl, req, stateInfo =>
    restLoop cpuIdx levels (lvl + 1) (setReqLocalPwrState req lvl cpuIdx (stateInfo lvl))
      (update stateInfo lvl psciLocalStateRun)

/-
  The first loop of `psci_do_state_coordination`, which ends
  at the first domain that stays in RUN.
-/
def coordinateLoop (p : Platform) (t : PowerDomainTree) (cpuIdx : Nat) :
    Nat → Nat → Nat → (Nat → Nat → Nat) → PowerStateInfo → (Nat → Nat → Nat) × PowerStateInfo
  | 0, _, _, req, stateInfo => (req, stateInfo)
  | levels + 1, lvl, parentIdx, req, stateInfo =>
    let req := setReqLocalPwrState req lvl cpuIdx (stateInfo lvl)
    let targetState := platGetTargetPwrState p (reqStatesOf t req lvl parentIdx)
    let stateInfo := update stateInfo lvl targetState
    if targetState = psciLocalStateRun then
      restLoop cpuIdx levels (lvl + 1) req stateInfo
    else
      coordinateLoop p t cpuIdx levels (lvl + 1) (t.parentOf parentIdx) req stateInfo

namespace State

/-
  `psci_do_state_coordination`, with the state information
  it returns.
-/
def psciDoStateCoordination
    (p : Platform) (t : PowerDomainTree) (s : State) (cpuIdx endPwrlvl : Nat)
    (stateInfo : PowerStateInfo) : State × PowerStateInfo :=
  let result :=
    coordinateLoop p t cpuIdx endPwrlvl 1 (t.cpuParentOf cpuIdx) s.reqLocalPwrStates stateInfo
  let s :=
    { s with
      reqLocalPwrStates := result.1
      localState := setLoop t result.2 endPwrlvl 1 (t.cpuParentOf cpuIdx) s.localState }
  (s.setCpuLocalState cpuIdx (result.2 psciCpuPwrLvl), result.2)

/- The loop of `psci_set_pwr_domains_to_run`. -/
def runLoop (t : PowerDomainTree) (cpuIdx : Nat) :
    Nat → Nat → Nat → State → State
  | 0, _, _, s => s
  | levels + 1, lvl, parentIdx, s =>
    runLoop t cpuIdx levels (lvl + 1) (t.parentOf parentIdx)
      { s with
        localState := update s.localState parentIdx psciLocalStateRun
        reqLocalPwrStates := setReqLocalPwrState s.reqLocalPwrStates lvl cpuIdx psciLocalStateRun }

/- `psci_set_pwr_domains_to_run`. -/
def psciSetPwrDomainsToRun (t : PowerDomainTree) (s : State)
    (cpuIdx endPwrlvl : Nat) : State :=
  let s := runLoop t cpuIdx endPwrlvl 1 (t.cpuParentOf cpuIdx) s
  (s.setAffInfoState cpuIdx .on).setCpuLocalState cpuIdx psciLocalStateRun

end State

----
-- Statistics
----

/- `get_stat_idx` without the platform hook. -/
def getStatIdx (p : Platform) (st : Nat) : Except Fault Nat :=
  if p.isLocalStateRetn st then
    .ok 0
  else if p.isLocalStateOff st then
    .ok 1
  else
    .error .statAssertion

/- Add a residency and count one more. -/
def PsciStat.add (x : PsciStat) (residency : Nat) : PsciStat :=
  { residency := (x.residency + residency) % 2 ^ 64
    count := (x.count + 1) % 2 ^ 64 }

/- The loop of `psci_stats_update_pwr_down`. -/
def pwrDownLoop (t : PowerDomainTree) (cpuIdx : Nat) (stateInfo : PowerStateInfo) :
    Nat → Nat → Nat → (Nat → Option Nat) → Nat → Option Nat
  | 0, _, _, lastCpu => lastCpu
  | levels + 1, lvl, parentIdx, lastCpu =>
    if stateInfo lvl = psciLocalStateRun then
      lastCpu
    else
      pwrDownLoop t cpuIdx stateInfo levels (lvl + 1) (t.parentOf parentIdx)
        (update lastCpu parentIdx (some cpuIdx))

namespace State

/- `psci_stats_update_pwr_down`. -/
def psciStatsUpdatePwrDown (t : PowerDomainTree) (s : State) (cpuIdx endPwrlvl : Nat)
    (stateInfo : PowerStateInfo) : State :=
  { s with
    lastCpuInNonCpuPd :=
      pwrDownLoop t cpuIdx stateInfo endPwrlvl 1 (t.cpuParentOf cpuIdx) s.lastCpuInNonCpuPd }

/- The loop of `psci_stats_update_pwr_up`. -/
def pwrUpLoop
    (p : Platform) (t : PowerDomainTree) (residency : Residency) (stateInfo : PowerStateInfo) :
    Nat → Nat → Nat → State → Except Fault State
  | 0, _, _, s => .ok s
  | levels + 1, lvl, parentIdx, s =>
    let localState := stateInfo lvl
    if localState = psciLocalStateRun then
      .ok s
    else
      match s.lastCpuInNonCpuPd parentIdx with
      | none => .error .statAssertion
      | some lastCpu =>
        match getStatIdx p localState with
        | .error fault => .error fault
        | .ok statIdx =>
          let stat := (s.psciNonCpuStat parentIdx statIdx).add (residency lvl lastCpu)
          pwrUpLoop p t residency stateInfo levels (lvl + 1) (t.parentOf parentIdx)
            { s with
              lastCpuInNonCpuPd := update s.lastCpuInNonCpuPd parentIdx none
              psciNonCpuStat :=
                update s.psciNonCpuStat parentIdx
                  (update (s.psciNonCpuStat parentIdx) statIdx stat) }

/- `psci_stats_update_pwr_up`. -/
def psciStatsUpdatePwrUp (p : Platform) (t : PowerDomainTree) (s : State) (residency : Residency)
    (cpuIdx endPwrlvl : Nat)
    (stateInfo : PowerStateInfo) : Except Fault State :=
  match getStatIdx p (stateInfo psciCpuPwrLvl) with
  | .error fault => .error fault
  | .ok statIdx =>
    let stat := (s.psciCpuStat cpuIdx statIdx).add (residency psciCpuPwrLvl cpuIdx)
    let s :=
      { s with
        psciCpuStat :=
          update s.psciCpuStat cpuIdx
            (update (s.psciCpuStat cpuIdx) statIdx stat) }
    let parentIdx := t.cpuParentOf cpuIdx
    if s.lastCpuInNonCpuPd parentIdx = none then
      .ok s
    else
      pwrUpLoop p t residency stateInfo endPwrlvl 1 parentIdx s

end State

/- The statistics are kept when they are built in. -/
structure Config where
  enablePsciStat : Bool

namespace State

/- `psci_stats_update_pwr_up` where it is built in. -/
def statsUp (p : Platform) (t : PowerDomainTree) (config : Config) (s : State)
    (residency : Residency) (cpuIdx endPwrlvl : Nat)
    (stateInfo : PowerStateInfo) : Except Fault State :=
  if config.enablePsciStat then
    s.psciStatsUpdatePwrUp p t residency cpuIdx endPwrlvl stateInfo
  else
    .ok s

/- `psci_stats_update_pwr_down` where it is built in. -/
def statsDown (t : PowerDomainTree) (config : Config) (s : State) (cpuIdx endPwrlvl : Nat)
    (stateInfo : PowerStateInfo) : State :=
  if config.enablePsciStat then
    s.psciStatsUpdatePwrDown t cpuIdx endPwrlvl stateInfo
  else
    s

end State

----
-- Operations
----

/- A CPU_SUSPEND request and what the platform answers. -/
structure SuspendReq where
  stateInfo : PowerStateInfo
  isPowerDownState : Bool
  hasCpuStandby : Bool
  entryPointOk : Bool
  interruptPending : Bool

/- The operations, by the CPU that makes them. -/
inductive Op where
  | cpuOn (cpuIdx targetIdx : Nat) (entryPointOk onOk : Bool)
  | cpuOff (cpuIdx : Nat) (denied : Bool)
  | cpuOffFinish (cpuIdx : Nat)
  | cpuSuspend (cpuIdx : Nat) (req : SuspendReq)
  | standbyExit (cpuIdx : Nat) (residency : Residency)
  | retentionExit (cpuIdx : Nat) (residency : Residency)
  | warmboot (cpuIdx : Nat) (residency : Residency)

namespace State

variable (p : Platform) (t : PowerDomainTree) (config : Config)

/-
  `psci_cpu_on` and `psci_cpu_on_start` for the CPU with the
  given index.  On an error of the platform the state of the
  target is restored.
-/
def psciCpuOn (s : State) (targetIdx : Nat)
    (entryPointOk onOk : Bool) : State :=
  if p.coreCount ≤ targetIdx then
    s
  else if entryPointOk = false then
    s
  else if s.affInfoState targetIdx ≠ .off then
    s
  else
    let s := s.setAffInfoState targetIdx .onPending
    if onOk then s else s.setAffInfoState targetIdx .off

/-
  `psci_do_cpu_off` until the locks are released.  The SPD
  may deny the request.
-/
def psciDoCpuOff (s : State) (cpuIdx : Nat)
    (denied : Bool) : State :=
  if denied then
    s
  else
    let stateInfo : PowerStateInfo := fun _ => p.maxOffState
    let coordinated := s.psciDoStateCoordination p t cpuIdx p.maxPwrLvl stateInfo
    (coordinated.1.statsDown t config cpuIdx p.maxPwrLvl coordinated.2).become cpuIdx .goingOff

/- The locked part of `psci_cpu_suspend_start`. -/
def psciCpuSuspendStart (s : State) (cpuIdx endPwrlvl : Nat)
    (req : SuspendReq) : State :=
  if req.interruptPending then
    s
  else
    let coordinated := s.psciDoStateCoordination p t cpuIdx endPwrlvl req.stateInfo
    let s := coordinated.1.statsDown t config cpuIdx endPwrlvl coordinated.2
    if req.isPowerDownState then
      (s.setSuspendPwrlvl cpuIdx endPwrlvl).become cpuIdx .suspended
    else
      s.become cpuIdx (.retention endPwrlvl)

/- `psci_cpu_suspend`, until the CPU sleeps or returns. -/
def psciCpuSuspend (s : State) (cpuIdx : Nat)
    (req : SuspendReq) : Except Fault State :=
  if psciValidateSuspendReq p req.stateInfo req.isPowerDownState = false then
    .error .suspendReqAssertion
  else
    let targetPwrlvl := psciFindTargetSuspendLvl p req.stateInfo
    if targetPwrlvl = p.psciInvalidPwrLvl then
      .error .panic
    else if req.isPowerDownState = false ∧ targetPwrlvl = 0 then
      if req.hasCpuStandby = false then
        .ok s
      else
        let cpuPdState := req.stateInfo psciCpuPwrLvl
        .ok ((s.setCpuLocalState cpuIdx cpuPdState).become cpuIdx (.fastStandby cpuPdState))
    else if req.isPowerDownState = true ∧ req.entryPointOk = false then
      .ok s
    else
      .ok (s.psciCpuSuspendStart p t config cpuIdx targetPwrlvl req)

/- The end of the fast path of `psci_cpu_suspend`. -/
def standbyExit (s : State) (cpuIdx cpuPdState : Nat)
    (residency : Residency) : Except Fault State :=
  let stateInfo : PowerStateInfo := update (fun _ => psciLocalStateRun) psciCpuPwrLvl cpuPdState
  let s := s.setCpuLocalState cpuIdx psciLocalStateRun
  match s.statsUp p t config residency cpuIdx psciCpuPwrLvl stateInfo with
  | .error fault => .error fault
  | .ok s => .ok (s.become cpuIdx .running)

/- `psci_suspend_to_standby_finisher`. -/
def psciSuspendToStandbyFinisher (s : State) (cpuIdx endPwrlvl : Nat)
    (residency : Residency) : Except Fault State :=
  let stateInfo := s.psciGetTargetLocalPwrStates t cpuIdx endPwrlvl
  match s.statsUp p t config residency cpuIdx endPwrlvl stateInfo with
  | .error fault => .error fault
  | .ok s => .ok ((s.psciSetPwrDomainsToRun t cpuIdx endPwrlvl).become cpuIdx .running)

/-
  `psci_cpu_suspend_finish`; `psci_cpu_on_finish` changes
  nothing here.
-/
def psciCpuSuspendFinish (s : State) (cpuIdx : Nat)
    (stateInfo : PowerStateInfo) : Except Fault State :=
  if s.affInfoState cpuIdx = .on ∧ p.isLocalStateOff (stateInfo psciCpuPwrLvl) = true then
    .ok (s.setSuspendPwrlvl cpuIdx p.psciInvalidPwrLvl)
  else
    .error .suspendFinishAssertion

/- `get_power_on_target_pwrlvl`. -/
def getPowerOnTargetPwrlvl (s : State)
    (cpuIdx : Nat) : Nat :=
  if s.targetPwrlvl cpuIdx = p.psciInvalidPwrLvl then
    p.maxPwrLvl
  else
    s.targetPwrlvl cpuIdx

/- `psci_warmboot_entrypoint`. -/
def psciWarmbootEntrypoint (s : State) (cpuIdx : Nat)
    (residency : Residency) : Except Fault State :=
  if s.affInfoState cpuIdx = .off then
    .error .panic
  else
    let endPwrlvl := s.getPowerOnTargetPwrlvl p cpuIdx
    let stateInfo := s.psciGetTargetLocalPwrStates t cpuIdx endPwrlvl
    let finished :=
      if s.affInfoState cpuIdx = .onPending then .ok s
      else s.psciCpuSuspendFinish p cpuIdx stateInfo
    match finished with
    | .error fault => .error fault
    | .ok s =>
      let s := s.psciSetPwrDomainsToRun t cpuIdx endPwrlvl
      match s.statsUp p t config residency cpuIdx endPwrlvl stateInfo with
      | .error fault => .error fault
      | .ok s => .ok (s.become cpuIdx .running)

/-
  One operation.  A CPU that runs calls PSCI, a sleeping one
  wakes up, and one without power boots.
-/
def step (s : State) : Op → Except Fault State
  | .cpuOn cpuIdx targetIdx entryPointOk onOk =>
    if cpuIdx < p.coreCount ∧ s.status cpuIdx = .running then
      .ok (s.psciCpuOn p targetIdx entryPointOk onOk)
    else
      .error .notThere
  | .cpuOff cpuIdx denied =>
    if cpuIdx < p.coreCount ∧ s.status cpuIdx = .running then
      .ok (s.psciDoCpuOff p t config cpuIdx denied)
    else
      .error .notThere
  | .cpuOffFinish cpuIdx =>
    if cpuIdx < p.coreCount ∧ s.status cpuIdx = .goingOff
        then
      .ok ((s.setAffInfoState cpuIdx .off).become cpuIdx .off)
    else
      .error .notThere
  | .cpuSuspend cpuIdx req =>
    if cpuIdx < p.coreCount ∧ s.status cpuIdx = .running then
      s.psciCpuSuspend p t config cpuIdx req
    else
      .error .notThere
  | .standbyExit cpuIdx residency =>
    match s.status cpuIdx with
    | .fastStandby cpuPdState =>
      if cpuIdx < p.coreCount then
        s.standbyExit p t config cpuIdx cpuPdState residency
      else
        .error .notThere
    | _ => .error .notThere
  | .retentionExit cpuIdx residency =>
    match s.status cpuIdx with
    | .retention endPwrlvl =>
      if cpuIdx < p.coreCount then
        s.psciSuspendToStandbyFinisher p t config cpuIdx endPwrlvl residency
      else
        .error .notThere
    | _ => .error .notThere
  | .warmboot cpuIdx residency =>
    if cpuIdx < p.coreCount ∧ (s.status cpuIdx = .suspended ∨ s.status cpuIdx = .off) then
      s.psciWarmbootEntrypoint p t config cpuIdx residency
    else
      .error .notThere

/-
  The state after `psci_setup` on the boot CPU: all domains
  are off but those above the CPU that runs it.
-/
def psciSetup (bootCpu : Nat) : State :=
  let s : State :=
    { localState := fun _ => p.maxOffState
      reqLocalPwrStates := fun _ _ => p.maxOffState
      cpuLocalState := fun _ => p.maxOffState
      affInfoState := fun _ => .off
      targetPwrlvl := fun _ => p.psciInvalidPwrLvl
      lastCpuInNonCpuPd := fun _ => none
      psciCpuStat := fun _ _ => ⟨0, 0⟩
      psciNonCpuStat := fun _ _ => ⟨0, 0⟩
      status := fun _ => .off }
  (s.psciSetPwrDomainsToRun t bootCpu p.maxPwrLvl).become bootCpu .running

end State

end Tfa.Psci
