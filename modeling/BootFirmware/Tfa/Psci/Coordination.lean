import BootFirmware.Tfa.Psci.Power
import Mathlib.Order.Bounds.Basic

/-
  Coordination of power states: the state of every domain is
  the shallowest of what the CPUs below it ask for.

  Coordination stops at the first domain that stays in RUN,
  and a wake-up touches the levels up to a level of its own.
  Both agree with the requests because of `CoordInv.mono`: a
  CPU that wants a domain in RUN wants all domains above it
  in RUN.

  Key definitions include:
    * `targetOf` and `requested`
    * `State.sleepLvl`
    * `CoordInv`

  The main results are:
    * `coordinateLoop_snd`
    * `CoordInv.step`
    * `psci_state_coordination`
-/

----
-- Target States
----

namespace Tfa.Psci

/- The comparison loop finds the least state. -/
theorem foldl_isLeast (init : Nat) (states : List Nat) :
    IsLeast {r | r = init ∨ r ∈ states}
      (states.foldl
        (fun target temp =>
          if temp < target then temp else target) init) := by
  induction states generalizing init with
  | nil =>
    refine ⟨Or.inl rfl, ?_⟩
    rintro r (hr | hr)
    · exact Nat.le_of_eq hr.symm
    · cases hr
  | cons st rest ih =>
    rw [List.foldl_cons]
    rcases ih (if st < init then st else init) with ⟨hMem, hLow⟩
    constructor
    · rcases hMem with hEq | hIn
      · by_cases hLess : st < init
        · rw [if_pos hLess] at hEq ⊢
          right
          rw [hEq]
          exact List.mem_cons_self
        · rw [if_neg hLess] at hEq ⊢
          exact Or.inl hEq
      · exact Or.inr (List.mem_cons_of_mem st hIn)
    · intro r hr
      have hSmall := hLow (Or.inl rfl : (if st < init then st else init) ∈ _)
      rcases hr with hEq | hIn
      · refine Nat.le_trans hSmall ?_
        split <;> omega
      · rcases List.mem_cons.mp hIn with hEq | hRest
        · refine Nat.le_trans hSmall ?_
          split <;> omega
        · exact hLow (Or.inr hRest)

variable {t : PowerDomainTree}

/- The requests for a node are those of its CPUs. -/
theorem mem_reqStatesOf {req : Nat → Nat → Nat} {lvl node r : Nat} :
    r ∈ reqStatesOf t req lvl node ↔
      ∃ c, t.cpuStartIdx node ≤ c ∧ c < t.cpuStartIdx node + t.ncpus node ∧ r = req lvl c := by
  unfold reqStatesOf
  simp only [List.mem_map, List.mem_range]
  constructor
  · rintro ⟨i, hi, rfl⟩
    exact ⟨t.cpuStartIdx node + i, by omega, by omega, rfl⟩
  · rintro ⟨c, hLow, hHigh, rfl⟩
    refine ⟨c - t.cpuStartIdx node, by omega, ?_⟩
    congr 1
    omega

/- The target state of a node for given requests. -/
def targetOf (p : Platform) (t : PowerDomainTree) (req : Nat → Nat → Nat)
    (node : Nat) : Nat :=
  platGetTargetPwrState p (reqStatesOf t req (t.levelOf node) node)

section Targets

variable {p : Platform} {t : PowerDomainTree}

theorem targetOf_isLeast (req : Nat → Nat → Nat) (node : Nat) :
    IsLeast
      ({p.maxOffState} ∪
        {r | ∃ c, t.cpuStartIdx node ≤ c ∧ c < t.cpuStartIdx node + t.ncpus node ∧
          r = req (t.levelOf node) c})
      (targetOf p t req node) := by
  have hLeast := foldl_isLeast p.maxOffState (reqStatesOf t req (t.levelOf node) node)
  have hSame :
      ({p.maxOffState} ∪
        {r | ∃ c, t.cpuStartIdx node ≤ c ∧ c < t.cpuStartIdx node + t.ncpus node ∧
          r = req (t.levelOf node) c}) =
      {r | r = p.maxOffState ∨ r ∈ reqStatesOf t req (t.levelOf node) node} := by
    ext r
    simp only [Set.mem_union, Set.mem_singleton_iff, Set.mem_ofPred_eq, mem_reqStatesOf]
  rw [hSame]
  exact hLeast

/- A domain stays in RUN exactly when some CPU asks so. -/
theorem targetOf_eq_run_iff {req : Nat → Nat → Nat} {node : Nat} :
    targetOf p t req node = psciLocalStateRun ↔
      ∃ c, t.cpuStartIdx node ≤ c ∧ c < t.cpuStartIdx node + t.ncpus node ∧
        req (t.levelOf node) c = psciLocalStateRun := by
  have hLeast := targetOf_isLeast (p := p) (t := t) req node
  have hOff := p.ret_lt_off
  constructor
  · intro hRun
    rcases hLeast.1 with hEq | ⟨c, hLow, hHigh, hEq⟩
    · rw [Set.mem_singleton_iff, hRun] at hEq
      unfold psciLocalStateRun at hEq
      omega
    · exact ⟨c, hLow, hHigh, hEq.symm.trans hRun⟩
  · rintro ⟨c, hLow, hHigh, hRun⟩
    have hLe := hLeast.2 (Or.inr ⟨c, hLow, hHigh, rfl⟩)
    rw [hRun] at hLe
    exact Nat.le_zero.mp hLe

theorem targetOf_congr {req req' : Nat → Nat → Nat} {node : Nat}
    (hSame :
      ∀ c, t.cpuStartIdx node ≤ c →
        c < t.cpuStartIdx node + t.ncpus node → req (t.levelOf node) c = req' (t.levelOf node) c) :
    targetOf p t req node = targetOf p t req' node := by
  unfold targetOf reqStatesOf
  congr 1
  apply List.map_congr_left
  intro i hi
  have hLess := List.mem_range.mp hi
  exact hSame _ (by omega) (by omega)

end Targets

----
-- Ancestors
----

namespace PowerDomainTree

variable {p : Platform} {t : PowerDomainTree}

theorem domainAt_of_le {c x lvl lvl' : Nat}
    (hPos : 1 ≤ lvl) (hLe : lvl ≤ lvl') (hSame : t.domainAt x lvl = t.domainAt c lvl) :
    t.domainAt x lvl' = t.domainAt c lvl' := by
  induction lvl', hLe using Nat.le_induction with
  | base => exact hSame
  | succ lvl' hLe ih =>
    rw [domainAt_succ t x lvl' (by omega), domainAt_succ t c lvl' (by omega), ih]

/- The ancestors of a CPU at different levels differ. -/
theorem domainAt_inj
    {c lvl lvl' : Nat} (hTree : t.WellFormed p) (hc : c < p.coreCount) (hPos : 1 ≤ lvl)
    (hMax : lvl ≤ p.maxPwrLvl) (hPos' : 1 ≤ lvl') (hMax' : lvl' ≤ p.maxPwrLvl)
    (hSame : t.domainAt c lvl = t.domainAt c lvl') :
    lvl = lvl' := by
  rw [← hTree.domain_level c hc lvl hPos hMax, ← hTree.domain_level c hc lvl' hPos' hMax', hSame]

/- The CPUs of an ancestor are those that share it. -/
theorem range_domainAt {c lvl x : Nat}
    (hTree : t.WellFormed p) (hc : c < p.coreCount) (hPos : 1 ≤ lvl) (hMax : lvl ≤ p.maxPwrLvl) :
    (t.cpuStartIdx (t.domainAt c lvl) ≤ x ∧
      x < t.cpuStartIdx (t.domainAt c lvl) + t.ncpus (t.domainAt c lvl)) ↔
      x < p.coreCount ∧ t.domainAt x lvl = t.domainAt c lvl := by
  have hRange := hTree.range (t.domainAt c lvl) (hTree.domain_lt c hc lvl hPos hMax) x
  rw [hTree.domain_level c hc lvl hPos hMax] at hRange
  exact hRange.symm

/- A node is an ancestor up to a level, or none of them. -/
theorem ancestor_or_not (t : PowerDomainTree) (c endPwrlvl node : Nat) :
    (∃ l, 1 ≤ l ∧ l ≤ endPwrlvl ∧ node = t.domainAt c l) ∨
      ∀ l, 1 ≤ l → l ≤ endPwrlvl → node ≠ t.domainAt c l := by
  by_cases hHere : ∃ l, 1 ≤ l ∧ l ≤ endPwrlvl ∧ node = t.domainAt c l
  · exact Or.inl hHere
  · exact Or.inr fun l hPos hLe hEq => hHere ⟨l, hPos, hLe, hEq⟩

end PowerDomainTree

----
-- Loops
----

/-
  The requests after a CPU has asked for the states
  `stateInfo` at `levels` levels from `lvl` on.
-/
def requested (req : Nat → Nat → Nat) (cpuIdx : Nat) (stateInfo : PowerStateInfo)
    (lvl levels : Nat) : Nat → Nat → Nat :=
  fun l x =>
    if x = cpuIdx ∧ lvl ≤ l ∧ l < lvl + levels then
      stateInfo l
    else
      req l x

theorem requested_zero
    (req : Nat → Nat → Nat) (cpuIdx : Nat) (stateInfo : PowerStateInfo) (lvl : Nat) :
    requested req cpuIdx stateInfo lvl 0 = req := by
  funext l x
  unfold requested
  rw [if_neg]
  omega

/- One level at a time. -/
theorem requested_succ
    (req : Nat → Nat → Nat) (cpuIdx : Nat) (stateInfo : PowerStateInfo) (lvl levels st : Nat) :
    requested (setReqLocalPwrState req lvl cpuIdx (stateInfo lvl))
        cpuIdx (Function.update stateInfo lvl st) (lvl + 1)
        levels =
      requested req cpuIdx stateInfo lvl (levels + 1) := by
  funext l x
  unfold requested setReqLocalPwrState
  by_cases hLvl : l = lvl
  · subst hLvl
    rw [if_neg (by omega), Function.update_self]
    by_cases hCpu : x = cpuIdx
    · subst hCpu
      rw [Function.update_self, if_pos (by omega)]
    · rw [Function.update_of_ne hCpu, if_neg (by omega)]
  · rw [Function.update_of_ne hLvl, Function.update_of_ne hLvl]
    by_cases hIn : x = cpuIdx ∧ lvl ≤ l ∧ l < lvl + (levels + 1)
    · rw [if_pos hIn, if_pos (by omega)]
    · rw [if_neg hIn, if_neg (by omega)]

/- A loop over the levels above, after a turn for `lvl`. -/
theorem levels_succ {α : Type} (f g : Nat → α) (lvl levels l : Nat) :
    (if lvl + 1 ≤ l ∧ l < lvl + 1 + levels then f l
      else Function.update g lvl (f lvl) l) =
      if lvl ≤ l ∧ l < lvl + (levels + 1) then f l
      else g l := by
  by_cases hLvl : l = lvl
  · subst hLvl
    rw [if_neg (by omega), Function.update_self, if_pos (by omega)]
  · rw [Function.update_of_ne hLvl]
    by_cases hIn : lvl ≤ l ∧ l < lvl + (levels + 1)
    · rw [if_pos hIn, if_pos (by omega)]
    · rw [if_neg hIn, if_neg (by omega)]

theorem restLoop_eq
    (cpuIdx : Nat) (levels lvl : Nat) (req : Nat → Nat → Nat) (stateInfo : PowerStateInfo) :
    (restLoop cpuIdx levels lvl req stateInfo).1 = requested req cpuIdx stateInfo lvl levels ∧
      ∀ l, (restLoop cpuIdx levels lvl req stateInfo).2 l =
        if lvl ≤ l ∧ l < lvl + levels then psciLocalStateRun
        else stateInfo l := by
  induction levels generalizing lvl req stateInfo with
  | zero =>
    refine ⟨(requested_zero req cpuIdx stateInfo lvl).symm, ?_⟩
    intro l
    rw [if_neg (by omega)]
    rfl
  | succ levels ih =>
    rcases ih (lvl + 1) (setReqLocalPwrState req lvl cpuIdx (stateInfo lvl))
      (Function.update stateInfo lvl psciLocalStateRun) with ⟨hReq, hInfo⟩
    refine ⟨?_, ?_⟩
    · rw [restLoop, hReq, requested_succ]
    · intro l
      rw [restLoop, hInfo]
      exact levels_succ (fun _ => psciLocalStateRun) stateInfo lvl levels l

section Coordinate

variable {p : Platform} {t : PowerDomainTree}

/- All requests are noted, however the loop ends. -/
theorem coordinateLoop_fst (cpuIdx : Nat) (levels lvl parentIdx : Nat) (req : Nat → Nat → Nat)
    (stateInfo : PowerStateInfo) :
    (coordinateLoop p t cpuIdx levels lvl parentIdx req
      stateInfo).1 = requested req cpuIdx stateInfo lvl levels := by
  induction levels generalizing lvl parentIdx req stateInfo with
  | zero => exact (requested_zero req cpuIdx stateInfo lvl).symm
  | succ levels ih =>
    unfold coordinateLoop
    dsimp only
    split
    · rw [(restLoop_eq cpuIdx levels (lvl + 1) _ _).1, requested_succ]
    · rw [ih, requested_succ]

/-
  When RUN at a level means RUN at all levels above, the
  loop returns the target state of every level.
-/
theorem coordinateLoop_snd {cpuIdx : Nat}
    (hTree : t.WellFormed p) (hc : cpuIdx < p.coreCount) (levels lvl : Nat) (req : Nat → Nat → Nat)
    (stateInfo : PowerStateInfo) (hPos : 1 ≤ lvl) (hMax : lvl + levels ≤ p.maxPwrLvl + 1)
    (hMono :
      ∀ l l', lvl ≤ l → l ≤ l' → l' < lvl + levels →
        targetOf p t (requested req cpuIdx stateInfo lvl levels)
            (t.domainAt cpuIdx l) = psciLocalStateRun →
          targetOf p t (requested req cpuIdx stateInfo lvl levels)
              (t.domainAt cpuIdx l') = psciLocalStateRun)
    (l : Nat) :
    (coordinateLoop p t cpuIdx levels lvl
      (t.domainAt cpuIdx lvl) req stateInfo).2 l =
        if lvl ≤ l ∧ l < lvl + levels then
          targetOf p t (requested req cpuIdx stateInfo lvl levels) (t.domainAt cpuIdx l)
        else
          stateInfo l := by
  induction levels generalizing lvl req stateInfo with
  | zero =>
    rw [if_neg (by omega)]
    rfl
  | succ levels ih =>
    have hLevel := hTree.domain_level cpuIdx hc lvl hPos (by omega)
    -- the target at this level, before the higher requests
    have hTarget :
        platGetTargetPwrState p
          (reqStatesOf t
            (setReqLocalPwrState req lvl cpuIdx (stateInfo lvl)) lvl (t.domainAt cpuIdx lvl)) =
          targetOf p t (requested req cpuIdx stateInfo lvl (levels + 1))
            (t.domainAt cpuIdx lvl) := by
      have hHere :
          targetOf p t
            (setReqLocalPwrState req lvl cpuIdx (stateInfo lvl)) (t.domainAt cpuIdx lvl) =
            targetOf p t
              (requested req cpuIdx stateInfo lvl (levels + 1)) (t.domainAt cpuIdx lvl) := by
        apply targetOf_congr
        intro x _ _
        rw [hLevel, ← requested_succ req cpuIdx stateInfo lvl levels 0]
        unfold requested
        rw [if_neg (by omega)]
      rw [← hHere, targetOf, hLevel]
    unfold coordinateLoop
    dsimp only
    rw [hTarget]
    split
    · rename_i hRun
      rw [(restLoop_eq cpuIdx levels (lvl + 1) _ _).2 l]
      by_cases hLvl : l = lvl
      · subst hLvl
        rw [if_neg (by omega), Function.update_self, if_pos (by omega)]
      · rw [Function.update_of_ne hLvl]
        by_cases hIn : lvl ≤ l ∧ l < lvl + (levels + 1)
        · rw [if_pos hIn, if_pos (by omega)]
          exact (hMono lvl l (Nat.le_refl lvl) hIn.1 hIn.2 hRun).symm
        · rw [if_neg hIn, if_neg (by omega)]
    · rw [← t.domainAt_succ cpuIdx lvl hPos]
      have hRec :=
        ih (lvl + 1) (setReqLocalPwrState req lvl cpuIdx (stateInfo lvl))
          (Function.update stateInfo lvl
            (targetOf p t
              (requested req cpuIdx stateInfo lvl (levels + 1)) (t.domainAt cpuIdx lvl)))
          (by omega) (by omega)
          (by
            intro l l' hLow hLe hHigh
            rw [requested_succ]
            exact hMono l l' (by omega) hLe (by omega))
      rw [hRec, requested_succ]
      exact levels_succ
        (fun l => targetOf p t (requested req cpuIdx stateInfo lvl (levels + 1))
          (t.domainAt cpuIdx l))
        stateInfo lvl levels l

variable {pdState : PowerStateInfo}

theorem setLoop_other
    {cpuIdx node : Nat} (levels lvl : Nat) (localState : Nat → Nat) (hPos : 1 ≤ lvl)
    (hNode : ∀ l, lvl ≤ l → l < lvl + levels → node ≠ t.domainAt cpuIdx l) :
    setLoop t pdState levels lvl (t.domainAt cpuIdx lvl) localState node = localState node := by
  induction levels generalizing lvl localState with
  | zero => rfl
  | succ levels ih =>
    rw [setLoop, ← t.domainAt_succ cpuIdx lvl hPos,
      ih (lvl + 1) _ (by omega) (fun l hLow hHigh => hNode l (by omega) (by omega)),
      Function.update_of_ne (hNode lvl (Nat.le_refl lvl) (by omega))]

/- Every ancestor gets the state of its level. -/
theorem setLoop_at {cpuIdx : Nat}
    (hTree : t.WellFormed p) (hc : cpuIdx < p.coreCount) (levels lvl : Nat) (localState : Nat → Nat)
    (hPos : 1 ≤ lvl) (hMax : lvl + levels ≤ p.maxPwrLvl + 1) {l : Nat}
    (hLow : lvl ≤ l) (hHigh : l < lvl + levels) :
    setLoop t pdState levels lvl (t.domainAt cpuIdx lvl)
      localState (t.domainAt cpuIdx l) = pdState l := by
  induction levels generalizing lvl localState with
  | zero => omega
  | succ levels ih =>
    rw [setLoop, ← t.domainAt_succ cpuIdx lvl hPos]
    by_cases hHere : l = lvl
    · subst hHere
      rw [setLoop_other levels (l + 1) _ (by omega), Function.update_self]
      intro l' hLow' hHigh' hSame
      have hEq := PowerDomainTree.domainAt_inj hTree hc hPos (by omega) (by omega) (by omega) hSame
      omega
    · exact ih (lvl + 1) _ (by omega) (by omega) (by omega) (by omega)

theorem runLoop_eq (cpuIdx levels lvl parentIdx : Nat) (s : State) :
    State.runLoop t cpuIdx levels lvl parentIdx s =
      { s with
        localState := setLoop t (fun _ => psciLocalStateRun) levels lvl parentIdx s.localState
        reqLocalPwrStates :=
          requested s.reqLocalPwrStates cpuIdx (fun _ => psciLocalStateRun) lvl levels } := by
  induction levels generalizing lvl parentIdx s with
  | zero =>
    rw [requested_zero]
    rfl
  | succ levels ih =>
    rw [State.runLoop, ih]
    have hReq :=
      requested_succ s.reqLocalPwrStates cpuIdx (fun _ => psciLocalStateRun) lvl levels
        psciLocalStateRun
    rw [Function.update_eq_self] at hReq
    simp only [hReq, setLoop]

/- The states that a CPU finds above it. -/
theorem getLoop_eq
    (s : State) (cpuIdx levels lvl : Nat) (pdState : PowerStateInfo) (hPos : 1 ≤ lvl) (l : Nat) :
    s.getLoop t levels lvl (t.domainAt cpuIdx lvl) pdState l =
      if lvl ≤ l ∧ l < lvl + levels then
        s.localState (t.domainAt cpuIdx l)
      else
        pdState l := by
  induction levels generalizing lvl pdState with
  | zero =>
    rw [if_neg (by omega)]
    rfl
  | succ levels ih =>
    rw [State.getLoop, ← t.domainAt_succ cpuIdx lvl hPos, ih (lvl + 1) _ (by omega)]
    exact levels_succ (fun l => s.localState (t.domainAt cpuIdx l)) pdState lvl levels l

end Coordinate

----
-- Suspend Requests
----

/- What was found is the highest level. -/
theorem findLvl_some {P : Nat → Bool} {top lvl : Nat} (hFind : findLvl P top = some lvl) :
    lvl ≤ top ∧ P lvl = true := by
  induction top with
  | zero =>
    unfold findLvl at hFind
    split at hFind
    · cases hFind
      exact ⟨Nat.le_refl 0, by assumption⟩
    · cases hFind
  | succ top ih =>
    unfold findLvl at hFind
    split at hFind
    · cases hFind
      exact ⟨Nat.le_refl _, by assumption⟩
    · rcases ih hFind with ⟨hLe, hHolds⟩
      exact ⟨by omega, hHolds⟩

variable {p : Platform} {stateInfo : PowerStateInfo}

/- Towards the CPU every level is at least as deep. -/
theorem type_of_typesDeepen {deepest : LocalStateType} {lvl l : Nat}
    (hDeepen : typesDeepen p stateInfo deepest lvl = true) (hLe : l ≤ lvl) :
    deepest.toNat ≤ (p.findLocalStateType (stateInfo l)).toNat := by
  induction lvl generalizing deepest with
  | zero =>
    have hZero : l = 0 := by omega
    subst hZero
    exact of_decide_eq_true hDeepen
  | succ lvl ih =>
    unfold typesDeepen at hDeepen
    dsimp only at hDeepen
    split at hDeepen
    · cases hDeepen
    · by_cases hHere : l = lvl + 1
      · subst hHere
        omega
      · have hBelow := ih hDeepen (by omega)
        omega

theorem toNat_findLocalStateType {st : Nat} :
    (p.findLocalStateType st).toNat = 0 ↔ st = psciLocalStateRun := by
  unfold Platform.findLocalStateType
  split
  · rename_i hNot
    split <;> simp [LocalStateType.toNat, hNot]
  · rename_i hNot
    simpa [LocalStateType.toNat] using hNot

/-
  An accepted request has a target level, and no level up to
  it stays in RUN.
-/
theorem suspendReq_accepted
    {isPowerDownState : Bool} (hOk : psciValidateSuspendReq p stateInfo isPowerDownState = true) :
    psciFindTargetSuspendLvl p stateInfo ≤ p.maxPwrLvl ∧
      ∀ l, l ≤ psciFindTargetSuspendLvl p stateInfo → stateInfo l ≠ psciLocalStateRun := by
  unfold psciValidateSuspendReq at hOk
  dsimp only at hOk
  split at hOk
  · cases hOk
  rename_i hTarget
  split at hOk
  · cases hOk
  rename_i hTypes
  unfold psciFindTargetSuspendLvl at *
  cases hFind : findLvl (fun lvl => decide (stateInfo lvl ≠ psciLocalStateRun)) p.maxPwrLvl with
  | none => exact absurd (by rw [hFind]; rfl) hTarget
  | some target =>
    rw [hFind] at hTypes
    rcases findLvl_some hFind with ⟨hLe, hNotRun⟩
    refine ⟨hLe, ?_⟩
    intro l hl hRun
    have hHigh := of_decide_eq_true hNotRun
    have hDeepen : typesDeepen p stateInfo .run target = true := by simpa using hTypes
    -- below the target every type is at least as deep
    cases target with
    | zero =>
      have hZero : l = 0 := Nat.le_zero.mp hl
      exact hHigh (hZero ▸ hRun)
    | succ target =>
      by_cases hTop : l = target + 1
      · exact hHigh (hTop ▸ hRun)
      · unfold typesDeepen at hDeepen
        dsimp only at hDeepen
        split at hDeepen
        · cases hDeepen
        · have hBelow :=
            type_of_typesDeepen hDeepen
              (show l ≤ target by
                simp only [Option.getD_some] at hl
                omega)
          have hZero := toNat_findLocalStateType (p := p).mpr hRun
          apply hHigh
          apply (toNat_findLocalStateType (p := p)).mp
          omega

----
-- Effects
----

/- A state with the statistics of another one. -/
def State.withStats (s x : State) : State :=
  { s with
    lastCpuInNonCpuPd := x.lastCpuInNonCpuPd
    psciCpuStat := x.psciCpuStat
    psciNonCpuStat := x.psciNonCpuStat }

variable {residency : Residency}

/- Updating the statistics needs and changes no more. -/
theorem pwrUpLoop_withStats (s x : State) (levels lvl parentIdx : Nat) :
    State.pwrUpLoop p t residency stateInfo levels lvl parentIdx (s.withStats x) =
      (State.pwrUpLoop p t residency stateInfo levels lvl parentIdx x).map s.withStats := by
  induction levels generalizing lvl parentIdx x with
  | zero => rfl
  | succ levels ih =>
    unfold State.pwrUpLoop
    dsimp only
    split
    · rfl
    · have hLast :
          (s.withStats x).lastCpuInNonCpuPd parentIdx = x.lastCpuInNonCpuPd parentIdx := rfl
      rw [hLast]
      cases x.lastCpuInNonCpuPd parentIdx with
      | none => rfl
      | some lastCpu =>
        cases getStatIdx p (stateInfo lvl) with
        | error fault => rfl
        | ok statIdx =>
          rw [← ih]
          rfl

variable {config : Config}

theorem statsUp_withStats (s x : State) (cpuIdx endPwrlvl : Nat) :
    (s.withStats x).statsUp p t config residency cpuIdx endPwrlvl stateInfo =
      (x.statsUp p t config residency cpuIdx endPwrlvl stateInfo).map s.withStats := by
  unfold State.statsUp
  split
  · unfold State.psciStatsUpdatePwrUp
    cases getStatIdx p (stateInfo psciCpuPwrLvl) with
    | error fault => rfl
    | ok statIdx =>
      dsimp only
      have hLast :
          (s.withStats x).lastCpuInNonCpuPd (t.cpuParentOf cpuIdx) =
            x.lastCpuInNonCpuPd (t.cpuParentOf cpuIdx) := rfl
      rw [hLast]
      split
      · rfl
      · rw [← pwrUpLoop_withStats]
        rfl
  · rfl

/- The state after a CPU went to sleep. -/
def State.asleep (p : Platform) (t : PowerDomainTree) (config : Config) (s : State)
    (cpuIdx endPwrlvl : Nat) (stateInfo : PowerStateInfo) (targetPwrlvl : Nat)
    (status : CpuStatus) : State :=
  let coordinated := s.psciDoStateCoordination p t cpuIdx endPwrlvl stateInfo
  ((coordinated.1.statsDown t config cpuIdx endPwrlvl
    coordinated.2).setSuspendPwrlvl cpuIdx targetPwrlvl).become cpuIdx status

/- The state after a CPU woke up, with new statistics. -/
def State.awake (t : PowerDomainTree) (s : State) (cpuIdx endPwrlvl targetPwrlvl : Nat)
    (stats : State) : State :=
  (((s.withStats stats).psciSetPwrDomainsToRun t cpuIdx
    endPwrlvl).setSuspendPwrlvl cpuIdx targetPwrlvl).become cpuIdx .running

/- How a CPU can go to sleep. -/
inductive SleepKind
    (p : Platform) (s : State) (cpuIdx endPwrlvl : Nat)
    (stateInfo : PowerStateInfo) : Nat → CpuStatus → Prop
  | off (hEnd : endPwrlvl = p.maxPwrLvl) (hInfo : stateInfo = fun _ => p.maxOffState) :
      SleepKind p s cpuIdx endPwrlvl stateInfo (s.targetPwrlvl cpuIdx) .goingOff
  | suspended : SleepKind p s cpuIdx endPwrlvl stateInfo endPwrlvl .suspended
  | retention :
      SleepKind p s cpuIdx endPwrlvl stateInfo (s.targetPwrlvl cpuIdx) (.retention endPwrlvl)

/- From what a CPU can wake up, until which level. -/
inductive WakeKind
    (p : Platform) (s : State)
    (cpuIdx : Nat) : Nat → Nat → Prop
  | retention (endPwrlvl : Nat) (hStatus : s.status cpuIdx = .retention endPwrlvl) :
      WakeKind p s cpuIdx endPwrlvl (s.targetPwrlvl cpuIdx)
  | booted (hStatus : s.status cpuIdx = .suspended ∨ s.status cpuIdx = .off)
      (hAff : s.affInfoState cpuIdx = .onPending) :
      WakeKind p s cpuIdx (s.getPowerOnTargetPwrlvl p cpuIdx) (s.targetPwrlvl cpuIdx)
  | resumed (hStatus : s.status cpuIdx = .suspended ∨ s.status cpuIdx = .off)
      (hAff : s.affInfoState cpuIdx = .on)
      (hOff : p.isLocalStateOff (s.cpuLocalState cpuIdx) = true) :
      WakeKind p s cpuIdx (s.getPowerOnTargetPwrlvl p cpuIdx) p.psciInvalidPwrLvl

/- What an operation that returns can do. -/
inductive Effect
    (p : Platform) (t : PowerDomainTree) (config : Config) (s : State)
    (op : Op) : State → Prop
  | refused : Effect p t config s op s
  | turnedOn (targetIdx : Nat) (hOff : s.affInfoState targetIdx = .off) :
      Effect p t config s op (s.setAffInfoState targetIdx .onPending)
  | turnedOff (cpuIdx : Nat) (hc : cpuIdx < p.coreCount) (hBefore : s.status cpuIdx = .goingOff) :
      Effect p t config s op ((s.setAffInfoState cpuIdx .off).become cpuIdx .off)
  | fellAsleep (cpuIdx endPwrlvl : Nat) (stateInfo : PowerStateInfo) (targetPwrlvl : Nat)
      (status : CpuStatus)
      (hc : cpuIdx < p.coreCount)
      (hBefore : s.status cpuIdx = .running)
      (hEnd : endPwrlvl ≤ p.maxPwrLvl)
      (hDeep : ∀ l, l ≤ endPwrlvl → stateInfo l ≠ psciLocalStateRun)
      (hKind : SleepKind p s cpuIdx endPwrlvl stateInfo targetPwrlvl status) :
      Effect p t config s op (s.asleep p t config cpuIdx endPwrlvl stateInfo targetPwrlvl status)
  | standby (cpuIdx cpuPdState : Nat) (hc : cpuIdx < p.coreCount)
      (hBefore : s.status cpuIdx = .running)
      (hDeep : cpuPdState ≠ psciLocalStateRun) :
      Effect p t config s op
        ((s.setCpuLocalState cpuIdx cpuPdState).become cpuIdx (.fastStandby cpuPdState))
  | leftStandby (cpuIdx cpuPdState : Nat) (residency : Residency) (stats : State)
      (hc : cpuIdx < p.coreCount)
      (hBefore : s.status cpuIdx = .fastStandby cpuPdState)
      (hStats :
        s.statsUp p t config residency cpuIdx psciCpuPwrLvl
          (Function.update (fun _ => psciLocalStateRun) psciCpuPwrLvl cpuPdState) = .ok stats) :
      Effect p t config s op
        (((s.withStats stats).setCpuLocalState cpuIdx psciLocalStateRun).become cpuIdx .running)
  | wokeUp (cpuIdx endPwrlvl targetPwrlvl : Nat) (residency : Residency) (stats : State)
      (hc : cpuIdx < p.coreCount)
      (hKind : WakeKind p s cpuIdx endPwrlvl targetPwrlvl)
      (hBoot : s.status cpuIdx = .off → op = .warmboot cpuIdx residency)
      (hStats :
        s.statsUp p t config residency cpuIdx endPwrlvl
          (s.psciGetTargetLocalPwrStates t cpuIdx endPwrlvl) = .ok stats) :
      Effect p t config s op (s.awake t cpuIdx endPwrlvl targetPwrlvl stats)

section Effects

variable {p : Platform} {t : PowerDomainTree} {config : Config} {s s' : State} {op : Op}

theorem effect_of_cpuOn (targetIdx : Nat) (entryPointOk onOk : Bool) :
    Effect p t config s op (s.psciCpuOn p targetIdx entryPointOk onOk) := by
  unfold State.psciCpuOn
  split
  · exact .refused
  split
  · exact .refused
  split
  · exact .refused
  rename_i hNot
  have hOff := not_not.mp hNot
  split
  · exact .turnedOn targetIdx hOff
  · have hSame : (s.setAffInfoState targetIdx .onPending).setAffInfoState targetIdx .off = s := by
      unfold State.setAffInfoState
      rw [Function.update_idem, ← hOff, Function.update_eq_self]
    rw [hSame]
    exact .refused

theorem asleep_keeping (cpuIdx endPwrlvl : Nat) (stateInfo : PowerStateInfo) (status : CpuStatus) :
    s.asleep p t config cpuIdx endPwrlvl stateInfo (s.targetPwrlvl cpuIdx) status =
      ((s.psciDoStateCoordination p t cpuIdx endPwrlvl
        stateInfo).1.statsDown t config cpuIdx endPwrlvl
          (s.psciDoStateCoordination p t cpuIdx endPwrlvl stateInfo).2).become cpuIdx status := by
  have hTarget :
      ((s.psciDoStateCoordination p t cpuIdx endPwrlvl
        stateInfo).1.statsDown t config cpuIdx endPwrlvl
          (s.psciDoStateCoordination p t cpuIdx endPwrlvl
            stateInfo).2).targetPwrlvl = s.targetPwrlvl := by
    unfold State.statsDown
    split <;> rfl
  unfold State.asleep State.setSuspendPwrlvl
  dsimp only
  rw [hTarget, Function.update_eq_self, ← hTarget]

section AsleepFields

variable (cpuIdx endPwrlvl : Nat) (stateInfo : PowerStateInfo) (targetPwrlvl : Nat)
  (status : CpuStatus)

@[simp] theorem asleep_localState :
    (s.asleep p t config cpuIdx endPwrlvl stateInfo
      targetPwrlvl status).localState =
        (s.psciDoStateCoordination p t cpuIdx endPwrlvl stateInfo).1.localState := by
  unfold State.asleep State.statsDown
  split <;> rfl

@[simp] theorem asleep_reqLocalPwrStates :
    (s.asleep p t config cpuIdx endPwrlvl stateInfo
      targetPwrlvl status).reqLocalPwrStates =
        (s.psciDoStateCoordination p t cpuIdx endPwrlvl stateInfo).1.reqLocalPwrStates := by
  unfold State.asleep State.statsDown
  split <;> rfl

@[simp] theorem asleep_cpuLocalState :
    (s.asleep p t config cpuIdx endPwrlvl stateInfo
      targetPwrlvl status).cpuLocalState = Function.update s.cpuLocalState cpuIdx
          ((s.psciDoStateCoordination p t cpuIdx endPwrlvl stateInfo).2 psciCpuPwrLvl) := by
  unfold State.asleep State.statsDown
  split <;> rfl

@[simp] theorem asleep_affInfoState :
    (s.asleep p t config cpuIdx endPwrlvl stateInfo
      targetPwrlvl status).affInfoState = s.affInfoState := by
  unfold State.asleep State.statsDown
  split <;> rfl

@[simp] theorem asleep_targetPwrlvl :
    (s.asleep p t config cpuIdx endPwrlvl stateInfo
      targetPwrlvl status).targetPwrlvl = Function.update s.targetPwrlvl cpuIdx
          targetPwrlvl := by
  unfold State.asleep State.statsDown
  split <;> rfl

@[simp] theorem asleep_status :
    (s.asleep p t config cpuIdx endPwrlvl stateInfo
      targetPwrlvl status).status = Function.update s.status cpuIdx status := by
  unfold State.asleep State.statsDown
  split <;> rfl

end AsleepFields

/- All that waking up changes. -/
theorem awake_eq (cpuIdx endPwrlvl targetPwrlvl : Nat) (stats : State) :
    s.awake t cpuIdx endPwrlvl targetPwrlvl stats =
      { localState :=
          setLoop t (fun _ => psciLocalStateRun) endPwrlvl 1 (t.domainAt cpuIdx 1) s.localState
        reqLocalPwrStates :=
          requested s.reqLocalPwrStates cpuIdx (fun _ => psciLocalStateRun) 1 endPwrlvl
        cpuLocalState := Function.update s.cpuLocalState cpuIdx psciLocalStateRun
        affInfoState := Function.update s.affInfoState cpuIdx .on
        targetPwrlvl := Function.update s.targetPwrlvl cpuIdx targetPwrlvl
        lastCpuInNonCpuPd := stats.lastCpuInNonCpuPd
        psciCpuStat := stats.psciCpuStat
        psciNonCpuStat := stats.psciNonCpuStat
        status := Function.update s.status cpuIdx .running } := by
  unfold State.awake State.psciSetPwrDomainsToRun
  rw [runLoop_eq]
  rfl

variable {cpuIdx : Nat}

theorem effect_of_cpuOff
    (hc : cpuIdx < p.coreCount) (hBefore : s.status cpuIdx = .running) (denied : Bool) :
    Effect p t config s op (s.psciDoCpuOff p t config cpuIdx denied) := by
  unfold State.psciDoCpuOff
  split
  · exact .refused
  · have hOff := p.ret_lt_off
    rw [← asleep_keeping]
    refine .fellAsleep cpuIdx p.maxPwrLvl _ _ _ hc hBefore (Nat.le_refl _) ?_ (.off rfl rfl)
    intro l _
    unfold psciLocalStateRun
    omega

theorem effect_of_cpuSuspend
    {req : SuspendReq} (hc : cpuIdx < p.coreCount) (hBefore : s.status cpuIdx = .running)
    (hRun : s.psciCpuSuspend p t config cpuIdx req = .ok s') :
    Effect p t config s op s' := by
  simp only [State.psciCpuSuspend] at hRun
  split at hRun
  · cases hRun
  rename_i hNot
  have hValid : psciValidateSuspendReq p req.stateInfo req.isPowerDownState = true := by
    simpa using hNot
  rcases suspendReq_accepted hValid with ⟨hEnd, hDeep⟩
  split at hRun
  · cases hRun
  split at hRun
  · split at hRun
    · cases hRun
      exact .refused
    · cases hRun
      exact .standby cpuIdx _ hc hBefore (hDeep psciCpuPwrLvl (Nat.zero_le _))
  split at hRun
  · cases hRun
    exact .refused
  cases hRun
  unfold State.psciCpuSuspendStart
  split
  · exact .refused
  split
  · exact .fellAsleep cpuIdx _ _ _ _ hc hBefore hEnd hDeep .suspended
  · rw [← asleep_keeping]
    exact .fellAsleep cpuIdx _ _ _ _ hc hBefore hEnd hDeep .retention

variable {residency : Residency} {cpuIdx endPwrlvl : Nat}

/- New statistics, from a state with the old ones. -/
theorem stats_of_statsUp {x : State} {stateInfo : PowerStateInfo} (hSame : s.withStats x = s)
    (hRun : s.statsUp p t config residency cpuIdx endPwrlvl stateInfo = .ok s') :
    ∃ stats, x.statsUp p t config residency cpuIdx endPwrlvl
        stateInfo = .ok stats ∧ s' = s.withStats stats := by
  rw [← hSame, statsUp_withStats] at hRun
  cases hStats : x.statsUp p t config residency cpuIdx endPwrlvl stateInfo with
  | error fault =>
    rw [hStats] at hRun
    cases hRun
  | ok stats =>
    rw [hStats, ← hSame] at hRun
    cases hRun
    exact ⟨stats, rfl, rfl⟩

theorem effect_of_standbyExit {cpuIdx cpuPdState : Nat}
    (hc : cpuIdx < p.coreCount) (hBefore : s.status cpuIdx = .fastStandby cpuPdState)
    (hRun : s.standbyExit p t config cpuIdx cpuPdState residency = .ok s') :
    Effect p t config s op s' := by
  simp only [State.standbyExit] at hRun
  split at hRun
  · cases hRun
  rename_i hUp
  cases hRun
  rcases stats_of_statsUp (x := s) rfl hUp with
    ⟨stats, hStats, rfl⟩
  exact .leftStandby cpuIdx cpuPdState residency stats hc hBefore hStats

theorem effect_of_retentionExit
    (hc : cpuIdx < p.coreCount) (hBefore : s.status cpuIdx = .retention endPwrlvl)
    (hRun : s.psciSuspendToStandbyFinisher p t config cpuIdx endPwrlvl residency = .ok s') :
    Effect p t config s op s' := by
  simp only [State.psciSuspendToStandbyFinisher] at hRun
  split at hRun
  · cases hRun
  rename_i hUp
  cases hRun
  rcases stats_of_statsUp (x := s) rfl hUp with
    ⟨stats, hStats, rfl⟩
  have hWoke : Effect p t config s op (s.awake t cpuIdx endPwrlvl (s.targetPwrlvl cpuIdx) stats) :=
    .wokeUp cpuIdx endPwrlvl (s.targetPwrlvl cpuIdx)
      residency stats hc (.retention endPwrlvl hBefore)
      (by simp [hBefore]) hStats
  rw [awake_eq] at hWoke
  unfold State.psciSetPwrDomainsToRun
  rw [runLoop_eq]
  simpa [State.setSuspendPwrlvl, State.setCpuLocalState,
    State.setAffInfoState, State.withStats, State.become,
    PowerDomainTree.cpuParentOf_eq] using hWoke

/- The state a CPU finds at its own level. -/
theorem psciGetTargetLocalPwrStates_cpu (cpuIdx endPwrlvl : Nat) :
    s.psciGetTargetLocalPwrStates t cpuIdx endPwrlvl psciCpuPwrLvl = s.cpuLocalState cpuIdx := by
  have hGet :=
    getLoop_eq (t := t) s cpuIdx endPwrlvl 1
      (Function.update (fun _ => psciLocalStateRun)
        psciCpuPwrLvl (s.cpuLocalState cpuIdx)) (Nat.le_refl 1)
      psciCpuPwrLvl
  refine Eq.trans hGet ?_
  rw [if_neg (by unfold psciCpuPwrLvl; omega), Function.update_self]

theorem effect_of_warmboot (hOp : op = .warmboot cpuIdx residency) (hc : cpuIdx < p.coreCount)
    (hBefore : s.status cpuIdx = .suspended ∨ s.status cpuIdx = .off)
    (hRun : s.psciWarmbootEntrypoint p t config cpuIdx residency = .ok s') :
    Effect p t config s op s' := by
  simp only [State.psciWarmbootEntrypoint] at hRun
  split at hRun
  · cases hRun
  split at hRun
  · cases hRun
  rename_i s1 hFinish
  split at hRun
  · cases hRun
  rename_i s2 hUp
  cases hRun
  split at hFinish
  · rename_i hPending
    cases hFinish
    have hSame :
        (s.psciSetPwrDomainsToRun t cpuIdx
          (s.getPowerOnTargetPwrlvl p cpuIdx)).withStats s =
            s.psciSetPwrDomainsToRun t cpuIdx (s.getPowerOnTargetPwrlvl p cpuIdx) := by
      unfold State.psciSetPwrDomainsToRun
      rw [runLoop_eq]
      rfl
    rcases stats_of_statsUp hSame hUp with ⟨stats, hStats, rfl⟩
    have hWoke :=
      Effect.wokeUp (t := t) cpuIdx _ _ residency stats hc
        (.booted hBefore hPending) (fun _ => hOp) hStats
    rw [awake_eq] at hWoke
    unfold State.psciSetPwrDomainsToRun
    rw [runLoop_eq]
    simpa [State.setSuspendPwrlvl, State.setCpuLocalState,
      State.setAffInfoState, State.withStats, State.become,
      PowerDomainTree.cpuParentOf_eq] using hWoke
  · unfold State.psciCpuSuspendFinish at hFinish
    split at hFinish
    · rename_i hOn
      cases hFinish
      rw [psciGetTargetLocalPwrStates_cpu] at hOn
      have hSame :
          ((s.setSuspendPwrlvl cpuIdx
            p.psciInvalidPwrLvl).psciSetPwrDomainsToRun t
              cpuIdx (s.getPowerOnTargetPwrlvl p cpuIdx)).withStats s =
            (s.setSuspendPwrlvl cpuIdx
              p.psciInvalidPwrLvl).psciSetPwrDomainsToRun t
                cpuIdx (s.getPowerOnTargetPwrlvl p cpuIdx) := by
        unfold State.psciSetPwrDomainsToRun
        rw [runLoop_eq]
        rfl
      rcases stats_of_statsUp hSame hUp with ⟨stats, hStats, rfl⟩
      have hWoke :=
        Effect.wokeUp (t := t) cpuIdx _ _ residency stats hc
          (.resumed hBefore hOn.1 hOn.2) (fun _ => hOp) hStats
      rw [awake_eq] at hWoke
      unfold State.psciSetPwrDomainsToRun
      rw [runLoop_eq]
      simpa [State.setSuspendPwrlvl, State.setCpuLocalState,
        State.setAffInfoState, State.withStats, State.become,
        PowerDomainTree.cpuParentOf_eq] using hWoke
    · cases hFinish

/- Every operation that returns has one of the effects. -/
theorem effect_of_step (hStep : s.step p t config op = .ok s') :
    Effect p t config s op s' := by
  cases op with
  | cpuOn cpuIdx targetIdx entryPointOk onOk =>
    simp only [State.step] at hStep
    split at hStep
    · cases hStep
      exact effect_of_cpuOn targetIdx entryPointOk onOk
    · cases hStep
  | cpuOff cpuIdx denied =>
    simp only [State.step] at hStep
    split at hStep
    · rename_i hCpu
      cases hStep
      exact effect_of_cpuOff hCpu.1 hCpu.2 denied
    · cases hStep
  | cpuOffFinish cpuIdx =>
    simp only [State.step] at hStep
    split at hStep
    · rename_i hCpu
      cases hStep
      exact .turnedOff cpuIdx hCpu.1 hCpu.2
    · cases hStep
  | cpuSuspend cpuIdx req =>
    simp only [State.step] at hStep
    split at hStep
    · rename_i hCpu
      exact effect_of_cpuSuspend hCpu.1 hCpu.2 hStep
    · cases hStep
  | standbyExit cpuIdx residency =>
    simp only [State.step] at hStep
    split at hStep
    · rename_i hStatus
      split at hStep
      · rename_i hc
        exact effect_of_standbyExit hc hStatus hStep
      · cases hStep
    · cases hStep
  | retentionExit cpuIdx residency =>
    simp only [State.step] at hStep
    split at hStep
    · rename_i hStatus
      split at hStep
      · rename_i hc
        exact effect_of_retentionExit hc hStatus hStep
      · cases hStep
    · cases hStep
  | warmboot cpuIdx residency =>
    simp only [State.step] at hStep
    split at hStep
    · rename_i hCpu
      exact effect_of_warmboot rfl hCpu.1 hCpu.2 hStep
    · cases hStep

end Effects

----
-- The Invariant
----

/-
  The level up to which a CPU may ask for less than RUN: 0
  while it runs, then the level it sleeps to.
-/
def State.sleepLvl (p : Platform) (s : State)
    (cpuIdx : Nat) : Nat :=
  match s.status cpuIdx with
  | .running => 0
  | .fastStandby _ => 0
  | .retention endPwrlvl => endPwrlvl
  | .suspended => s.targetPwrlvl cpuIdx
  | .goingOff => p.maxPwrLvl
  | .off => p.maxPwrLvl

/- Every domain has its target state. -/
structure CoordInv
    (p : Platform) (t : PowerDomainTree)
    (s : State) : Prop where
  target :
    ∀ node < t.nonCpuPdNodes.length, s.localState node = targetOf p t s.reqLocalPwrStates node
  mono :
    ∀ c < p.coreCount, ∀ l l', 1 ≤ l → l ≤ l' → l' ≤ p.maxPwrLvl →
      s.reqLocalPwrStates l c = psciLocalStateRun → s.reqLocalPwrStates l' c = psciLocalStateRun
  above :
    ∀ c < p.coreCount, s.sleepLvl p c ≤ p.maxPwrLvl ∧
      ∀ l, s.sleepLvl p c < l → l ≤ p.maxPwrLvl → s.reqLocalPwrStates l c = psciLocalStateRun
  suspend_lvl : ∀ c < p.coreCount, s.status c ≠ .suspended → s.targetPwrlvl c = p.psciInvalidPwrLvl
  powered : ∀ c < p.coreCount, (s.status c ≠ .off ↔ s.affInfoState c = .on)

namespace CoordInv

variable {p : Platform} {t : PowerDomainTree} {s s' : State}

theorem node_eq {node c : Nat}
    (hTree : t.WellFormed p) (hNode : node < t.nonCpuPdNodes.length) (hLow : t.cpuStartIdx node ≤ c)
    (hHigh : c < t.cpuStartIdx node + t.ncpus node) :
    c < p.coreCount ∧ t.domainAt c (t.levelOf node) = node :=
  (hTree.range node hNode c).mpr ⟨hLow, hHigh⟩

/-
  A CPU has made requests for the levels up to `endPwrlvl`,
  all of RUN or none, and its ancestors there have got their
  target states.
-/
theorem update (hTree : t.WellFormed p) (hInv : CoordInv p t s)
    (c endPwrlvl : Nat) (stateInfo : PowerStateInfo)
    (hAbove : ∀ l, endPwrlvl < l → l ≤ p.maxPwrLvl → s.reqLocalPwrStates l c = psciLocalStateRun)
    (hReq : s'.reqLocalPwrStates = requested s.reqLocalPwrStates c stateInfo 1 endPwrlvl)
    (hKind :
      (∀ l, 1 ≤ l → l ≤ endPwrlvl → stateInfo l ≠ psciLocalStateRun) ∨
      ∀ l, 1 ≤ l → l ≤ endPwrlvl → stateInfo l = psciLocalStateRun)
    (hAt :
      ∀ l, 1 ≤ l → l ≤ endPwrlvl →
        s'.localState (t.domainAt c l) = targetOf p t s'.reqLocalPwrStates (t.domainAt c l))
    (hOther :
      ∀ node, (∀ l, 1 ≤ l → l ≤ endPwrlvl →
        node ≠ t.domainAt c l) → s'.localState node = s.localState node)
    (hSleep :
      s'.sleepLvl p c ≤ p.maxPwrLvl ∧
        ∀ l, s'.sleepLvl p c < l → l ≤ p.maxPwrLvl → s'.reqLocalPwrStates l c = psciLocalStateRun)
    (hLvl : s'.status c ≠ .suspended → s'.targetPwrlvl c = p.psciInvalidPwrLvl)
    (hOn : s'.status c ≠ .off ↔ s'.affInfoState c = .on)
    (hStatus : ∀ x, x ≠ c → s'.status x = s.status x)
    (hTargets : ∀ x, x ≠ c → s'.targetPwrlvl x = s.targetPwrlvl x)
    (hAff : ∀ x, x ≠ c → s'.affInfoState x = s.affInfoState x) :
    CoordInv p t s' := by
  have hReqOther :
      ∀ l x, ¬ (x = c ∧ 1 ≤ l ∧ l ≤ endPwrlvl) →
        s'.reqLocalPwrStates l x = s.reqLocalPwrStates l x := by
    intro l x hNot
    rw [hReq, requested, if_neg (by omega)]
  have hReqHere : ∀ l, 1 ≤ l → l ≤ endPwrlvl → s'.reqLocalPwrStates l c = stateInfo l := by
    intro l hPos hLe
    rw [hReq, requested, if_pos (by omega)]
  have hSleepOther : ∀ x, x ≠ c → s'.sleepLvl p x = s.sleepLvl p x := by
    intro x hNe
    unfold State.sleepLvl
    rw [hStatus x hNe, hTargets x hNe]
  refine ⟨?_, ?_, ?_, ?_, ?_⟩
  · intro node hNode
    rcases t.ancestor_or_not c endPwrlvl node with ⟨l, hPos, hLe, rfl⟩ | hNot
    · exact hAt l hPos hLe
    · rw [hOther node hNot, hInv.target node hNode]
      apply targetOf_congr
      intro x hLow hHigh
      refine (hReqOther _ x ?_).symm
      rintro ⟨rfl, hPos, hLe⟩
      rcases node_eq hTree hNode hLow hHigh with ⟨-, hEq⟩
      exact hNot _ hPos hLe hEq.symm
  · intro x hx l l' hPos hLe hMax hRun
    by_cases hHere : x = c ∧ l ≤ endPwrlvl
    · rcases hHere with ⟨rfl, hIn⟩
      rw [hReqHere l hPos hIn] at hRun
      by_cases hIn' : l' ≤ endPwrlvl
      · rw [hReqHere l' (by omega) hIn']
        rcases hKind with hNone | hAll
        · exact absurd hRun (hNone l hPos hIn)
        · exact hAll l' (by omega) hIn'
      · rw [hReqOther l' x (by omega)]
        exact hAbove l' (by omega) hMax
    · have hSame : s.reqLocalPwrStates l x = psciLocalStateRun := by
        rw [← hReqOther l x (by
          rintro ⟨hx, -, hIn⟩
          exact hHere ⟨hx, hIn⟩)]
        exact hRun
      rw [hReqOther l' x (by
        rintro ⟨hx, -, hIn⟩
        exact hHere ⟨hx, by omega⟩)]
      exact hInv.mono x hx l l' hPos hLe hMax hSame
  · intro x hx
    by_cases hHere : x = c
    · rw [hHere]
      exact hSleep
    · rw [hSleepOther x hHere]
      refine ⟨(hInv.above x hx).1, ?_⟩
      intro l hLow hHigh
      rw [hReqOther l x (by
        rintro ⟨hEq, -, -⟩
        exact hHere hEq)]
      exact (hInv.above x hx).2 l hLow hHigh
  · intro x hx hState
    by_cases hHere : x = c
    · rw [hHere] at hState ⊢
      exact hLvl hState
    · rw [hStatus x hHere] at hState
      rw [hTargets x hHere]
      exact hInv.suspend_lvl x hx hState
  · intro x hx
    by_cases hHere : x = c
    · rw [hHere]
      exact hOn
    · rw [hStatus x hHere, hAff x hHere]
      exact hInv.powered x hx

variable {stateInfo : PowerStateInfo} {c endPwrlvl : Nat}

/-
  When a running CPU asks for less than RUN up to a level,
  RUN at one level means RUN at the levels above: another
  CPU asks for it there.
-/
theorem target_mono (hTree : t.WellFormed p) (hInv : CoordInv p t s)
    (hc : c < p.coreCount) (hEnd : endPwrlvl ≤ p.maxPwrLvl)
    (hNone : ∀ l, 1 ≤ l → l ≤ endPwrlvl → stateInfo l ≠ psciLocalStateRun)
    (l l' : Nat) (hPos : 1 ≤ l) (hLe : l ≤ l') (hHigh : l' < 1 + endPwrlvl)
    (hRun :
      targetOf p t (requested s.reqLocalPwrStates c stateInfo 1 endPwrlvl)
        (t.domainAt c l) = psciLocalStateRun) :
    targetOf p t (requested s.reqLocalPwrStates c stateInfo 1 endPwrlvl)
      (t.domainAt c l') = psciLocalStateRun := by
  rcases targetOf_eq_run_iff.mp hRun with ⟨x, hLow, hUp, hAsks⟩
  rw [hTree.domain_level c hc l hPos (by omega)] at hAsks
  rcases (PowerDomainTree.range_domainAt hTree hc hPos (by omega)).mp ⟨hLow, hUp⟩ with ⟨hx, hShare⟩
  have hNe : x ≠ c := by
    rintro rfl
    rw [requested, if_pos (by omega)] at hAsks
    exact hNone l hPos (by omega) hAsks
  rw [requested, if_neg (by omega)] at hAsks
  apply targetOf_eq_run_iff.mpr
  have hShare' := PowerDomainTree.domainAt_of_le hPos hLe hShare
  rcases (PowerDomainTree.range_domainAt hTree hc
    (show 1 ≤ l' by omega) (by omega)).mpr ⟨hx, hShare'⟩ with ⟨hLow', hUp'⟩
  refine ⟨x, hLow', hUp', ?_⟩
  rw [hTree.domain_level c hc l' (by omega) (by omega), requested, if_neg (by omega)]
  exact hInv.mono x hx l l' hPos hLe (by omega) hAsks

theorem coordination_eq (hTree : t.WellFormed p) (hInv : CoordInv p t s)
    (hc : c < p.coreCount) (hEnd : endPwrlvl ≤ p.maxPwrLvl)
    (hNone : ∀ l, 1 ≤ l → l ≤ endPwrlvl → stateInfo l ≠ psciLocalStateRun) :
    let result := s.psciDoStateCoordination p t c endPwrlvl stateInfo
    result.1.reqLocalPwrStates = requested s.reqLocalPwrStates c stateInfo 1 endPwrlvl ∧
      (∀ l, 1 ≤ l → l ≤ endPwrlvl →
        result.2 l = targetOf p t result.1.reqLocalPwrStates (t.domainAt c l)) ∧
      (∀ l, 1 ≤ l → l ≤ endPwrlvl → result.1.localState (t.domainAt c l) = result.2 l) ∧
      (∀ node, (∀ l, 1 ≤ l → l ≤ endPwrlvl →
        node ≠ t.domainAt c l) → result.1.localState node = s.localState node) ∧
      result.2 psciCpuPwrLvl = stateInfo psciCpuPwrLvl := by
  have hReq :=
    coordinateLoop_fst (p := p) (t := t) c endPwrlvl 1
      (t.domainAt c 1) s.reqLocalPwrStates stateInfo
  have hInfo :=
    coordinateLoop_snd hTree hc endPwrlvl 1 s.reqLocalPwrStates stateInfo (Nat.le_refl 1) (by omega)
      (hInv.target_mono hTree hc hEnd hNone)
  refine ⟨hReq, ?_, ?_, ?_, ?_⟩
  · intro l hPos hLe
    refine (hInfo l).trans ?_
    rw [if_pos (by omega)]
    show _ = targetOf p t (coordinateLoop p t c endPwrlvl 1
      (t.domainAt c 1) s.reqLocalPwrStates stateInfo).1 _
    rw [hReq]
  · intro l hPos hLe
    exact setLoop_at hTree hc endPwrlvl 1 s.localState (Nat.le_refl 1) (by omega) hPos (by omega)
  · intro node hNode
    exact setLoop_other endPwrlvl 1 s.localState (Nat.le_refl 1)
      (fun l hPos hHigh => hNode l hPos (by omega))
  · refine (hInfo psciCpuPwrLvl).trans ?_
    rw [if_neg (by unfold psciCpuPwrLvl; omega)]

variable {status : CpuStatus}

/- A CPU changes its status and not its requests. -/
theorem restatus {c : Nat} (hInv : CoordInv p t s) (hLocal : s'.localState = s.localState)
    (hReq : s'.reqLocalPwrStates = s.reqLocalPwrStates) (hTarget : s'.targetPwrlvl = s.targetPwrlvl)
    (hStatus : s'.status = Function.update s.status c status)
    (hSleep : s'.sleepLvl p c = s.sleepLvl p c) (hBefore : s.status c ≠ .suspended)
    (hOn : status ≠ .off ↔ s'.affInfoState c = .on)
    (hAff : ∀ x, x ≠ c → s'.affInfoState x = s.affInfoState x) :
    CoordInv p t s' := by
  have hOther : ∀ x, x ≠ c → s'.status x = s.status x := by
    intro x hNe
    rw [hStatus, Function.update_of_ne hNe]
  have hSleepAll : ∀ x, s'.sleepLvl p x = s.sleepLvl p x := by
    intro x
    by_cases hHere : x = c
    · rw [hHere]
      exact hSleep
    · unfold State.sleepLvl
      rw [hOther x hHere, hTarget]
  refine ⟨?_, ?_, ?_, ?_, ?_⟩
  · intro node hNode
    rw [hLocal, hReq]
    exact hInv.target node hNode
  · intro x hx l l' hPos hLe hMax hRun
    rw [hReq] at hRun ⊢
    exact hInv.mono x hx l l' hPos hLe hMax hRun
  · intro x hx
    rw [hSleepAll x, hReq]
    exact hInv.above x hx
  · intro x hx hState
    rw [hTarget]
    apply hInv.suspend_lvl x hx
    by_cases hHere : x = c
    · rw [hHere]
      exact hBefore
    · rw [← hOther x hHere]
      exact hState
  · intro x hx
    by_cases hHere : x = c
    · subst hHere
      rw [hStatus, Function.update_self]
      exact hOn
    · rw [hOther x hHere, hAff x hHere]
      exact hInv.powered x hx

/- A CPU that runs has asked for RUN everywhere. -/
theorem requests_of_running {c : Nat} (hInv : CoordInv p t s) (hc : c < p.coreCount)
    (hAwake : s.sleepLvl p c = 0) (l : Nat) (hPos : 1 ≤ l) (hMax : l ≤ p.maxPwrLvl) :
    s.reqLocalPwrStates l c = psciLocalStateRun := by
  apply (hInv.above c hc).2 l ?_ hMax
  omega

variable {c endPwrlvl targetPwrlvl : Nat}

/- Falling asleep keeps the invariant. -/
theorem fellAsleep {config : Config} (hTree : t.WellFormed p) (hInv : CoordInv p t s)
    (hc : c < p.coreCount) (hBefore : s.status c = .running) (hEnd : endPwrlvl ≤ p.maxPwrLvl)
    (hDeep : ∀ l, l ≤ endPwrlvl → stateInfo l ≠ psciLocalStateRun)
    (hKind : SleepKind p s c endPwrlvl stateInfo targetPwrlvl status) :
    CoordInv p t (s.asleep p t config c endPwrlvl stateInfo targetPwrlvl status) := by
  have hAwake : s.sleepLvl p c = 0 := by rw [State.sleepLvl, hBefore]
  have hRun := hInv.requests_of_running hc hAwake
  rcases hInv.coordination_eq hTree hc hEnd
    (fun l _ hLe => hDeep l hLe) with ⟨hReq, hTarget, hAt, hOther, -⟩
  have hLvl := hInv.suspend_lvl c hc (by simp [hBefore])
  have hSleep :
      (s.asleep p t config c endPwrlvl stateInfo targetPwrlvl status).sleepLvl p c = endPwrlvl := by
    unfold State.sleepLvl
    rw [asleep_status, asleep_targetPwrlvl, Function.update_self, Function.update_self]
    cases hKind with
    | off hTop hInfo => exact hTop.symm
    | suspended => rfl
    | retention => rfl
  refine hInv.update hTree c endPwrlvl stateInfo ?_ ?_ ?_ ?_
    ?_ ?_ ?_ ?_ ?_ ?_ ?_
  · intro l hLow hHigh
    exact hRun l (by omega) hHigh
  · rw [asleep_reqLocalPwrStates]
    exact hReq
  · left
    intro l _ hLe
    exact hDeep l hLe
  · intro l hPos hLe
    rw [asleep_localState, asleep_reqLocalPwrStates, hAt l hPos hLe]
    exact hTarget l hPos hLe
  · intro node hNode
    rw [asleep_localState]
    exact hOther node hNode
  · rw [hSleep, asleep_reqLocalPwrStates, hReq]
    refine ⟨hEnd, ?_⟩
    intro l hLow hHigh
    rw [requested, if_neg (by omega)]
    exact hRun l (by omega) hHigh
  · rw [asleep_status, asleep_targetPwrlvl, Function.update_self, Function.update_self]
    intro hNot
    cases hKind with
    | off hTop hInfo => exact hLvl
    | suspended => exact absurd rfl hNot
    | retention => exact hLvl
  · rw [asleep_status, asleep_affInfoState, Function.update_self]
    have hOn := (hInv.powered c hc).mp (by simp [hBefore])
    cases hKind with
    | off hTop hInfo => simp [hOn]
    | suspended => simp [hOn]
    | retention => simp [hOn]
  · intro x hNe
    rw [asleep_status, Function.update_of_ne hNe]
  · intro x hNe
    rw [asleep_targetPwrlvl, Function.update_of_ne hNe]
  · intro x hNe
    rw [asleep_affInfoState]

/- A CPU wakes up until the level it slept to. -/
theorem sleepLvl_of_wakeKind
    (hInv : CoordInv p t s) (hc : c < p.coreCount) (hKind : WakeKind p s c endPwrlvl targetPwrlvl) :
    s.sleepLvl p c = endPwrlvl ∧ targetPwrlvl = p.psciInvalidPwrLvl := by
  have hBoot :
      s.status c = .suspended ∨ s.status c = .off →
        s.sleepLvl p c = s.getPowerOnTargetPwrlvl p c := by
    rintro (hStatus | hStatus)
    · have hMax := (hInv.above c hc).1
      unfold State.sleepLvl at hMax ⊢
      rw [hStatus] at hMax ⊢
      unfold State.getPowerOnTargetPwrlvl
      rw [if_neg]
      unfold Platform.psciInvalidPwrLvl
      dsimp only at hMax
      omega
    · have hLvl := hInv.suspend_lvl c hc (by simp [hStatus])
      unfold State.sleepLvl State.getPowerOnTargetPwrlvl
      rw [hStatus, if_pos hLvl]
  cases hKind with
  | retention endPwrlvl hStatus =>
    refine ⟨?_, hInv.suspend_lvl c hc (by simp [hStatus])⟩
    rw [State.sleepLvl, hStatus]
  | booted hStatus hAff =>
    refine ⟨hBoot hStatus, ?_⟩
    -- a CPU that was not turned off is not pending
    rcases hStatus with hStatus | hStatus
    · have hOn := (hInv.powered c hc).mp (by simp [hStatus])
      rw [hAff] at hOn
      cases hOn
    · exact hInv.suspend_lvl c hc (by simp [hStatus])
  | resumed hStatus hAff hOff => exact ⟨hBoot hStatus, rfl⟩

/- Waking up keeps the invariant. -/
theorem wokeUp {stats : State} (hTree : t.WellFormed p) (hInv : CoordInv p t s)
    (hc : c < p.coreCount) (hSleep : s.sleepLvl p c = endPwrlvl)
    (hLvl : targetPwrlvl = p.psciInvalidPwrLvl) :
    CoordInv p t (s.awake t c endPwrlvl targetPwrlvl stats) := by
  rcases hInv.above c hc with ⟨hEnd, hAbove⟩
  rw [hSleep] at hEnd hAbove
  rw [awake_eq]
  refine hInv.update hTree c endPwrlvl (fun _ => psciLocalStateRun) hAbove rfl
    (Or.inr fun l _ _ => rfl) ?_ ?_ ?_ ?_ ?_ ?_ ?_ ?_
  · intro l hPos hLe
    dsimp only
    rw [setLoop_at hTree hc endPwrlvl 1 s.localState (Nat.le_refl 1) (by omega) hPos (by omega)]
    -- the CPU itself asks for RUN
    symm
    apply targetOf_eq_run_iff.mpr
    rcases (PowerDomainTree.range_domainAt hTree hc hPos
      (by omega)).mpr ⟨hc, rfl⟩ with ⟨hLow, hHigh⟩
    refine ⟨c, hLow, hHigh, ?_⟩
    rw [hTree.domain_level c hc l hPos (by omega), requested, if_pos (by omega)]
  · intro node hNode
    exact setLoop_other endPwrlvl 1 s.localState (Nat.le_refl 1)
      (fun l hPos hHigh => hNode l hPos (by omega))
  · unfold State.sleepLvl
    dsimp only
    rw [Function.update_self]
    refine ⟨Nat.zero_le _, ?_⟩
    intro l hLow hHigh
    by_cases hIn : l ≤ endPwrlvl
    · rw [requested, if_pos (by omega)]
    · rw [requested, if_neg (by omega)]
      exact hAbove l (by omega) hHigh
  · intro _
    dsimp only
    rw [Function.update_self]
    exact hLvl
  · simp
  · intro x hNe
    exact Function.update_of_ne hNe _ _
  · intro x hNe
    exact Function.update_of_ne hNe _ _
  · intro x hNe
    exact Function.update_of_ne hNe _ _

theorem effect {config : Config} {op : Op}
    (hTree : t.WellFormed p) (hInv : CoordInv p t s) (hEffect : Effect p t config s op s') :
    CoordInv p t s' := by
  cases hEffect with
  | refused => exact hInv
  | turnedOn targetIdx hOff =>
    refine ⟨hInv.target, hInv.mono, hInv.above, hInv.suspend_lvl, ?_⟩
    intro c hc
    refine (hInv.powered c hc).trans ?_
    by_cases hHere : c = targetIdx
    · subst hHere
      simp [State.setAffInfoState, hOff]
    · simp [State.setAffInfoState, hHere]
  | turnedOff cpuIdx hc hBefore =>
    refine hInv.restatus rfl rfl rfl rfl ?_ (by simp [hBefore]) ?_ ?_
    · simp [State.sleepLvl, State.become, hBefore]
    · simp [State.become, State.setAffInfoState]
    · intro x hNe
      exact Function.update_of_ne hNe _ _
  | fellAsleep c endPwrlvl stateInfo targetPwrlvl status hc hBefore hEnd hDeep hKind =>
    exact hInv.fellAsleep hTree hc hBefore hEnd hDeep hKind
  | standby cpuIdx cpuPdState hc hBefore hDeep =>
    refine hInv.restatus rfl rfl rfl rfl ?_ (by simp [hBefore]) ?_ (fun _ _ => rfl)
    · simp [State.sleepLvl, State.become, hBefore]
    · have hOn := (hInv.powered cpuIdx hc).mp (by simp [hBefore])
      exact ⟨fun _ => hOn, fun _ => by simp⟩
  | leftStandby cpuIdx cpuPdState residency stats hc hBefore hStats =>
    refine hInv.restatus rfl rfl rfl rfl ?_ (by simp [hBefore]) ?_ (fun _ _ => rfl)
    · simp [State.sleepLvl, State.become, hBefore]
    · have hOn := (hInv.powered cpuIdx hc).mp (by simp [hBefore])
      exact ⟨fun _ => hOn, fun _ => by simp⟩
  | wokeUp c endPwrlvl targetPwrlvl residency stats hc hKind hBoot hStats =>
    rcases hInv.sleepLvl_of_wakeKind hc hKind with ⟨hSleep, hLvl⟩
    exact hInv.wokeUp hTree hc hSleep hLvl

/- No CPU is powered before the boot CPU is set to run. -/
theorem poweredOff
    (hOff : s.status = fun _ => .off) (hLocal : s.localState = fun _ => p.maxOffState)
    (hReq : s.reqLocalPwrStates = fun _ _ => p.maxOffState)
    (hLvl : s.targetPwrlvl = fun _ => p.psciInvalidPwrLvl) (hAff : s.affInfoState = fun _ => .off) :
    CoordInv p t s := by
  have hPos : p.maxOffState ≠ psciLocalStateRun := by
    have hOrder := p.ret_lt_off
    unfold psciLocalStateRun
    omega
  refine ⟨?_, ?_, ?_, ?_, ?_⟩
  · intro node _
    rw [hLocal]
    rcases (targetOf_isLeast (p := p) (t := t)
      s.reqLocalPwrStates node).1 with hEq | ⟨c, -, -, hEq⟩
    · exact hEq.symm
    · rw [hEq, hReq]
  · intro c _ l l' _ _ _ hRun
    rw [hReq] at hRun
    exact absurd hRun hPos
  · intro c _
    unfold State.sleepLvl
    rw [hOff]
    refine ⟨Nat.le_refl _, ?_⟩
    intro l hLow hHigh
    dsimp only at hLow
    omega
  · intro c _ _
    rw [hLvl]
  · intro c _
    rw [hOff, hAff]
    simp

/- The invariant holds after `psci_setup`. -/
theorem setup {bootCpu : Nat} (hTree : t.WellFormed p) (hBoot : bootCpu < p.coreCount) :
    CoordInv p t (State.psciSetup p t bootCpu) := by
  let off : State :=
    { localState := fun _ => p.maxOffState
      reqLocalPwrStates := fun _ _ => p.maxOffState
      cpuLocalState := fun _ => p.maxOffState
      affInfoState := fun _ => .off
      targetPwrlvl := fun _ => p.psciInvalidPwrLvl
      lastCpuInNonCpuPd := fun _ => none
      psciCpuStat := fun _ _ => ⟨0, 0⟩
      psciNonCpuStat := fun _ _ => ⟨0, 0⟩
      status := fun _ => .off }
  have hSetup :
      State.psciSetup p t bootCpu = off.awake t bootCpu p.maxPwrLvl p.psciInvalidPwrLvl
          off := by
    have hKeep : Function.update off.targetPwrlvl bootCpu p.psciInvalidPwrLvl = off.targetPwrlvl :=
      Function.update_eq_self bootCpu off.targetPwrlvl
    rw [awake_eq, hKeep]
    unfold State.psciSetup State.psciSetPwrDomainsToRun
    dsimp only
    rw [runLoop_eq]
    rfl
  have hOff : CoordInv p t off := poweredOff rfl rfl rfl rfl rfl
  rw [hSetup]
  exact hOff.wokeUp hTree hBoot rfl rfl

end CoordInv

----
-- Coordinated States
----

/- PSCI after setup on a boot CPU, in any interleaving. -/
def powerSystem (p : Platform) (t : PowerDomainTree) (config : Config)
    (bootCpu : Nat) : TransitionSystem State Op :=
  TransitionSystem.ofStep (State.psciSetup p t bootCpu)
    (fun s op => (s.step p t config op).toOption)

theorem powerSystem_step {bootCpu : Nat} {s s' : State} {op : Op}
    (hStep : (powerSystem p t config bootCpu).step s op s') :
    s.step p t config op = .ok s' := by
  have hSome : (s.step p t config op).toOption = some s' := hStep
  cases hRun : s.step p t config op with
  | error fault =>
    rw [hRun] at hSome
    cases hSome
  | ok done =>
    rw [hRun] at hSome
    cases hSome
    rfl

theorem CoordInv.reachable {bootCpu : Nat} {s : State} {ok : State → Op → Prop}
    (hTree : t.WellFormed p) (hBoot : bootCpu < p.coreCount)
    (hReach : (powerSystem p t config bootCpu).ReachableBy ok s) :
    CoordInv p t s := by
  refine hReach.invariant ?_ ?_
  · rintro s rfl
    exact CoordInv.setup hTree hBoot
  · intro s op s' hInv _ hStep
    exact hInv.effect hTree (effect_of_step (powerSystem_step hStep))

/-
  In every reachable state a domain has the least of what
  the CPUs below it ask for, not counting what is deeper than
  the deepest state of the platform, and all domains above a
  CPU that runs are in RUN.
-/
theorem psci_state_coordination
    (p : Platform) (t : PowerDomainTree) (config : Config) (bootCpu : Nat)
    (s : State) (hSetup : psciSetupTree p = some t) (hBoot : bootCpu < p.coreCount)
    (hReach : (powerSystem p t config bootCpu).Reachable s) :
    (∀ node < t.nonCpuPdNodes.length, IsLeast
        ({p.maxOffState} ∪
          {r | ∃ c, t.cpuStartIdx node ≤ c ∧ c < t.cpuStartIdx node + t.ncpus node ∧
            r = s.reqLocalPwrStates (t.levelOf node) c})
        (s.localState node)) ∧
      ∀ c < p.coreCount, s.status c = .running → ∀ lvl, 1 ≤ lvl → lvl ≤ p.maxPwrLvl →
          s.localState (t.domainAt c lvl) = psciLocalStateRun := by
  have hTree := psciSetupTree_wellFormed hSetup
  have hInv := CoordInv.reachable hTree hBoot hReach
  refine ⟨?_, ?_⟩
  · intro node hNode
    rw [hInv.target node hNode]
    exact targetOf_isLeast s.reqLocalPwrStates node
  · intro c hc hRunning lvl hPos hMax
    rw [hInv.target _ (hTree.domain_lt c hc lvl hPos hMax)]
    apply targetOf_eq_run_iff.mpr
    rcases (PowerDomainTree.range_domainAt hTree hc hPos hMax).mpr ⟨hc, rfl⟩ with ⟨hLow, hHigh⟩
    refine ⟨c, hLow, hHigh, ?_⟩
    rw [hTree.domain_level c hc lvl hPos hMax]
    have hAwake : s.sleepLvl p c = 0 := by rw [State.sleepLvl, hRunning]
    exact hInv.requests_of_running hc hAwake lvl hPos hMax

/- Two clusters of one core each. -/
def twoClusters : Platform where
  maxPwrLvl := 2
  maxRetState := 1
  maxOffState := 2
  coreCount := 2
  numNonCpuPwrDomains := 3
  topology := [1, 2, 1, 1]
  maxPwrLvl_le := two_le_three
  ret_lt_off := Nat.one_lt_two
  off_lt_byte := two_lt_byte
  domains_lt_word := three_lt_word
  topology_lt_byte := by decide

def twoClustersTree : PowerDomainTree :=
  (psciSetupTree twoClusters).get (by decide)

/- A request for the same state at the first levels. -/
def suspendTo (st endPwrlvl : Nat)
    (isPowerDownState : Bool) : SuspendReq where
  stateInfo := fun lvl =>
    if lvl ≤ endPwrlvl then st else psciLocalStateRun
  isPowerDownState := isPowerDownState
  hasCpuStandby := true
  entryPointOk := true
  interruptPending := false

/- The first CPU sleeps and the second one keeps RUN up. -/
theorem psci_state_coordination_cluster_off :
    ∃ s, (powerSystem twoClusters twoClustersTree ⟨true⟩ 0).Reachable s ∧
      (s.status 1 = .running ∧ s.localState 1 = 2 ∧ s.localState 0 = psciLocalStateRun) ∧
      ∀ node < twoClustersTree.nonCpuPdNodes.length, IsLeast
          ({twoClusters.maxOffState} ∪
            {r | ∃ c, twoClustersTree.cpuStartIdx node ≤ c ∧
              c < twoClustersTree.cpuStartIdx node + twoClustersTree.ncpus node ∧
              r = s.reqLocalPwrStates (twoClustersTree.levelOf node) c})
          (s.localState node) := by
  rcases TransitionSystem.exists_reachableBy
    (fun s op => (s.step twoClusters twoClustersTree ⟨true⟩ op).toOption) (fun _ _ => True)
    (State.psciSetup twoClusters twoClustersTree 0)
    [.cpuOn 0 1 true true, .warmboot 1 (fun _ _ => 0), .cpuSuspend 0 (suspendTo 2 2 true)]
    (fun s => s.status 1 = .running ∧ s.localState 1 = 2 ∧ s.localState 0 = psciLocalStateRun)
    (by decide +kernel) with ⟨s, hReach, hFacts⟩
  refine ⟨s, hReach, hFacts, ?_⟩
  exact (psci_state_coordination twoClusters twoClustersTree
    ⟨true⟩ 0 s (Option.some_get _).symm (by decide) hReach).1

/-
  A request deeper than the deepest state is accepted, and
  the domain gets the deepest state instead.
-/
theorem psci_coordination_caps_requests :
    ∃ s, (powerSystem twoClusters twoClustersTree ⟨true⟩ 0).Reachable s ∧ ¬ IsLeast
        {r | ∃ c, twoClustersTree.cpuStartIdx 1 ≤ c ∧
          c < twoClustersTree.cpuStartIdx 1 + twoClustersTree.ncpus 1 ∧
          r = s.reqLocalPwrStates (twoClustersTree.levelOf 1) c}
        (s.localState 1) := by
  rcases TransitionSystem.exists_reachableBy
    (fun s op => (s.step twoClusters twoClustersTree ⟨true⟩ op).toOption) (fun _ _ => True)
    (State.psciSetup twoClusters twoClustersTree 0) [.cpuSuspend 0 (suspendTo 3 2 true)]
    (fun s => s.localState 1 = 2 ∧ s.reqLocalPwrStates (twoClustersTree.levelOf 1) 0 = 3)
    (by decide +kernel) with ⟨s, hReach, hLocal, hReq⟩
  refine ⟨s, hReach, ?_⟩
  rintro ⟨⟨c, hLow, hHigh, hEq⟩, -⟩
  have hRange : twoClustersTree.cpuStartIdx 1 = 0 ∧ twoClustersTree.ncpus 1 = 1 := by decide +kernel
  have hCpu : c = 0 := by omega
  rw [hCpu, hReq, hLocal] at hEq
  cases hEq

end Tfa.Psci
