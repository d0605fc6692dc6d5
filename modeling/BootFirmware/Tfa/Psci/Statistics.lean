import BootFirmware.Tfa.Psci.Coordination

/-
  The statistics of power domains: which domains have a last
  CPU recorded, and how often a domain has come back to RUN.

  A CPU that boots returns early when nothing was recorded
  for the domain right above it.  That is meant for its first
  power up, but a domain higher up may have left RUN before
  and come back with this CPU; `CleanWake` excludes it.

  Key definitions include:
    * `Tracked` and `Tracked.step`
    * `StatsRight`
    * `CleanWake`
    * `StatInv`

  The main results are:
    * `pwrUpLoop_ok`
    * `psci_statistics`
    * `psci_first_boot_skips_system`
-/

----
-- Tracked Runs
----

namespace Tfa.Psci

open Function

/- The statistics are built in. -/
def withStat : Config := ⟨true⟩

/- The index of the statistics of a low-power state. -/
def Platform.statIdxOf (p : Platform) (st : Nat) : Nat :=
  if p.isLocalStateRetn st then 0 else 1

/-
  A state with the domains that have been in RUN, and how
  often each came back to RUN from a state of each kind after
  it had left RUN.
-/
structure Tracked where
  state : State
  everRun : Nat → Bool
  returns : Nat → Nat → Nat

namespace Tracked

/- What is known after an operation. -/
def after (p : Platform) (x : Tracked)
    (s' : State) : Tracked where
  state := s'
  everRun := fun node =>
    x.everRun node ||
      decide (s'.localState node = psciLocalStateRun)
  returns := fun node idx =>
    if x.everRun node = true ∧ x.state.localState node ≠ psciLocalStateRun ∧
        s'.localState node = psciLocalStateRun ∧ p.statIdxOf (x.state.localState node) = idx then
      x.returns node idx + 1
    else
      x.returns node idx

def step (p : Platform) (t : PowerDomainTree) (x : Tracked)
    (op : Op) : Option Tracked :=
  match x.state.step p t withStat op with
  | .error _ => none
  | .ok s' => some (x.after p s')

def initial (p : Platform) (t : PowerDomainTree)
    (bootCpu : Nat) : Tracked where
  state := State.psciSetup p t bootCpu
  everRun := fun node => decide ((State.psciSetup p t bootCpu).localState node = psciLocalStateRun)
  returns := fun _ _ => 0

end Tracked

/-
  A last CPU is recorded for exactly the domains that left
  RUN and are still not in RUN, and the counts are the
  numbers of returns, in 64-bit registers.
-/
structure StatsRight
    (t : PowerDomainTree)
    (x : Tracked) : Prop where
  last_cpu :
    ∀ node < t.nonCpuPdNodes.length, (x.state.lastCpuInNonCpuPd node ≠ none ↔
        x.everRun node = true ∧ x.state.localState node ≠ psciLocalStateRun)
  counts :
    ∀ node < t.nonCpuPdNodes.length, ∀ idx,
      (x.state.psciNonCpuStat node idx).count = x.returns node idx % 2 ^ 64

/-
  A CPU that was turned on boots below a domain for which
  nothing is recorded, while a last CPU is recorded for one
  of the domains above that is not in RUN.
-/
def SkipsStats (p : Platform) (t : PowerDomainTree) (s : State)
    (cpuIdx : Nat) : Prop :=
  cpuIdx < p.coreCount ∧ s.status cpuIdx = .off ∧ s.affInfoState cpuIdx = .onPending ∧
    s.lastCpuInNonCpuPd (t.domainAt cpuIdx 1) = none ∧
    ∃ lvl < p.maxPwrLvl + 1, 1 ≤ lvl ∧ s.localState (t.domainAt cpuIdx lvl) ≠ psciLocalStateRun ∧
      s.lastCpuInNonCpuPd (t.domainAt cpuIdx lvl) ≠ none

instance
    (p : Platform) (t : PowerDomainTree) (s : State)
    (cpuIdx : Nat) : Decidable (SkipsStats p t s cpuIdx) :=
  inferInstanceAs (Decidable (_ ∧ _))

/-
  A wake-up from a state that the platform has, and no first
  boot that leaves out a domain.
-/
def CleanWake (p : Platform) (t : PowerDomainTree)
    (s : State) : Op → Prop
  | .standbyExit cpuIdx _ =>
    match s.status cpuIdx with
    | .fastStandby cpuPdState => cpuIdx < p.coreCount → cpuPdState ≤ p.maxOffState
    | _ => True
  | .retentionExit cpuIdx _ =>
    match s.status cpuIdx with
    | .retention _ => cpuIdx < p.coreCount → s.cpuLocalState cpuIdx ≤ p.maxOffState
    | _ => True
  | .warmboot cpuIdx _ => ¬ SkipsStats p t s cpuIdx
  | _ => True

instance
    (p : Platform) (t : PowerDomainTree) (s : State)
    (op : Op) : Decidable (CleanWake p t s op) := by
  unfold CleanWake
  split
  · split <;> infer_instance
  · split <;> infer_instance
  · infer_instance
  · infer_instance

----
-- Loops
----

section Loops

variable {p : Platform} {t : PowerDomainTree}

variable {stateInfo : PowerStateInfo}

/- Nothing is recorded for a domain that stays in RUN. -/
theorem pwrDownLoop_other
    {c node : Nat} (levels lvl : Nat) (lastCpu : Nat → Option Nat) (hPos : 1 ≤ lvl)
    (hNode :
      ∀ l, lvl ≤ l → l < lvl + levels → node = t.domainAt c l → stateInfo l = psciLocalStateRun) :
    pwrDownLoop t c stateInfo levels lvl (t.domainAt c lvl) lastCpu node = lastCpu node := by
  induction levels generalizing lvl lastCpu with
  | zero => rfl
  | succ levels ih =>
    unfold pwrDownLoop
    split
    · rfl
    · rename_i hDeep
      have hNe : node ≠ t.domainAt c lvl := by
        intro hEq
        exact hDeep (hNode lvl (Nat.le_refl lvl) (by omega) hEq)
      rw [← t.domainAt_succ c lvl hPos, ih (lvl + 1) _ (by omega)
          (fun l hLow hHigh => hNode l (by omega) (by omega)),
        update_of_ne hNe]

theorem pwrDownLoop_at {c l : Nat} (levels lvl : Nat) (lastCpu : Nat → Option Nat) (hPos : 1 ≤ lvl)
    (hMono :
      ∀ l l', lvl ≤ l → l ≤ l' → l' < lvl + levels →
        stateInfo l = psciLocalStateRun → stateInfo l' = psciLocalStateRun)
    (hLow : lvl ≤ l) (hHigh : l < lvl + levels) (hDeep : stateInfo l ≠ psciLocalStateRun) :
    pwrDownLoop t c stateInfo levels lvl (t.domainAt c lvl) lastCpu (t.domainAt c l) = some c := by
  induction levels generalizing lvl l lastCpu with
  | zero => omega
  | succ levels ih =>
    unfold pwrDownLoop
    rw [if_neg (fun hRun =>
      hDeep (hMono lvl l (Nat.le_refl lvl) hLow hHigh hRun)), ← t.domainAt_succ c lvl hPos]
    have hMono' :
        ∀ l l', lvl + 1 ≤ l → l ≤ l' → l' < lvl + 1 + levels →
          stateInfo l = psciLocalStateRun → stateInfo l' = psciLocalStateRun :=
      fun l l' hLow hLe hHigh => hMono l l' (by omega) hLe (by omega)
    by_cases hAgain :
      ∃ l', lvl + 1 ≤ l' ∧ l' < lvl + 1 + levels ∧ t.domainAt c l = t.domainAt c l' ∧
        stateInfo l' ≠ psciLocalStateRun
    · rcases hAgain with ⟨l', hLow', hHigh', hSame, hDeep'⟩
      rw [hSame]
      exact ih (lvl + 1) _ (by omega) hMono' hLow' hHigh' hDeep'
    · -- then the level is the present one
      have hHere : l = lvl := by
        by_contra hNot
        exact hAgain ⟨l, by omega, by omega, rfl, hDeep⟩
      subst hHere
      rw [pwrDownLoop_other levels (l + 1) _ (by omega), update_self]
      intro l' hLow' hHigh' hSame
      by_contra hDeep'
      exact hAgain ⟨l', hLow', hHigh', hSame, hDeep'⟩

/- The index of a state that the platform has. -/
theorem getStatIdx_eq {st : Nat} (hLow : st ≠ psciLocalStateRun) (hHigh : st ≤ p.maxOffState) :
    getStatIdx p st = .ok (p.statIdxOf st) := by
  unfold getStatIdx Platform.statIdxOf
  split
  · rfl
  · rename_i hRetn
    rw [if_pos]
    unfold Platform.isLocalStateRetn at hRetn
    unfold psciLocalStateRun at hLow hRetn
    unfold Platform.isLocalStateOff
    simp only [decide_eq_true_eq] at hRetn ⊢
    omega

/- No other state has an index. -/
theorem getStatIdx_error {st : Nat} (hHigh : p.maxOffState < st) :
    getStatIdx p st = .error .statAssertion := by
  have hOrder := p.ret_lt_off
  unfold getStatIdx Platform.isLocalStateRetn Platform.isLocalStateOff
  rw [if_neg, if_neg]
  · simp only [decide_eq_true_eq]
    omega
  · simp only [decide_eq_true_eq]
    omega

/-
  The domains that leave a low-power state are counted once
  and nothing is recorded for them any more.
-/
structure CountedUp
    (p : Platform) (t : PowerDomainTree) (c : Nat) (stateInfo : PowerStateInfo) (lvl levels : Nat)
    (s s' : State) : Prop where
  last_at :
    ∀ l, lvl ≤ l → l < lvl + levels →
      stateInfo l ≠ psciLocalStateRun → s'.lastCpuInNonCpuPd (t.domainAt c l) = none
  last_other :
    ∀ node, (∀ l, lvl ≤ l → l < lvl + levels →
      node = t.domainAt c l → stateInfo l = psciLocalStateRun) →
      s'.lastCpuInNonCpuPd node = s.lastCpuInNonCpuPd node
  count_at :
    ∀ l, lvl ≤ l → l < lvl + levels → stateInfo l ≠ psciLocalStateRun → ∀ idx,
        (s'.psciNonCpuStat (t.domainAt c l) idx).count =
          if p.statIdxOf (stateInfo l) = idx then
            ((s.psciNonCpuStat (t.domainAt c l) idx).count + 1) % 2 ^ 64
          else
            (s.psciNonCpuStat (t.domainAt c l) idx).count
  count_other :
    ∀ node, (∀ l, lvl ≤ l → l < lvl + levels →
      node = t.domainAt c l → stateInfo l = psciLocalStateRun) →
      s'.psciNonCpuStat node = s.psciNonCpuStat node

theorem CountedUp.none {c lvl levels : Nat}
    (s : State) (hRun : ∀ l, lvl ≤ l → l < lvl + levels → stateInfo l = psciLocalStateRun) :
    CountedUp p t c stateInfo lvl levels s s where
  last_at := fun l hLow hHigh hDeep => absurd (hRun l hLow hHigh) hDeep
  last_other := fun _ _ => rfl
  count_at := fun l hLow hHigh hDeep => absurd (hRun l hLow hHigh) hDeep
  count_other := fun _ _ => rfl

/- One level was counted before the others. -/
theorem CountedUp.cons {c lvl levels residency : Nat} {s s1 s' : State}
    (hTree : t.WellFormed p) (hc : c < p.coreCount) (hPos : 1 ≤ lvl)
    (hMax : lvl + levels ≤ p.maxPwrLvl) (hDeep : stateInfo lvl ≠ psciLocalStateRun)
    (hLast : s1.lastCpuInNonCpuPd = update s.lastCpuInNonCpuPd (t.domainAt c lvl) Option.none)
    (hStat :
      s1.psciNonCpuStat = update s.psciNonCpuStat (t.domainAt c lvl)
          (update (s.psciNonCpuStat (t.domainAt c lvl)) (p.statIdxOf (stateInfo lvl))
            ((s.psciNonCpuStat (t.domainAt c lvl) (p.statIdxOf (stateInfo lvl))).add residency)))
    (hRest : CountedUp p t c stateInfo (lvl + 1) levels s1 s') :
    CountedUp p t c stateInfo lvl (levels + 1) s s' := by
  -- the ancestors are different nodes
  have hNe : ∀ l, lvl + 1 ≤ l → l < lvl + 1 + levels → t.domainAt c lvl ≠ t.domainAt c l := by
    intro l hLow hHigh hSame
    have hEq := PowerDomainTree.domainAt_inj hTree hc hPos (by omega) (by omega) (by omega) hSame
    omega
  have hKept :
      ∀ l, lvl + 1 ≤ l → l < lvl + 1 + levels →
        t.domainAt c lvl = t.domainAt c l → stateInfo l = psciLocalStateRun := by
    intro l hLow hHigh hSame
    exact absurd hSame (hNe l hLow hHigh)
  refine ⟨?_, ?_, ?_, ?_⟩
  · intro l hLow hHigh hDeep'
    by_cases hHere : l = lvl
    · rw [hHere, hRest.last_other _ hKept, hLast, update_self]
    · exact hRest.last_at l (by omega) (by omega) hDeep'
  · intro node hNode
    have hOther : node ≠ t.domainAt c lvl := by
      intro hEq
      exact hDeep (hNode lvl (Nat.le_refl lvl) (by omega) hEq)
    rw [hRest.last_other node (fun l hLow hHigh => hNode l (by omega) (by omega)),
      hLast, update_of_ne hOther]
  · intro l hLow hHigh hDeep' idx
    by_cases hHere : l = lvl
    · subst hHere
      rw [hRest.count_other _ hKept, hStat, update_self]
      by_cases hIdx : p.statIdxOf (stateInfo l) = idx
      · subst hIdx
        rw [update_self, if_pos rfl]
        rfl
      · rw [update_of_ne (Ne.symm hIdx), if_neg hIdx]
    · rw [hRest.count_at l (by omega) (by omega) hDeep' idx,
        hStat, update_of_ne (Ne.symm (hNe l (by omega) (by omega)))]
  · intro node hNode
    have hOther : node ≠ t.domainAt c lvl := by
      intro hEq
      exact hDeep (hNode lvl (Nat.le_refl lvl) (by omega) hEq)
    rw [hRest.count_other node (fun l hLow hHigh => hNode l (by omega) (by omega)),
      hStat, update_of_ne hOther]

/-
  The loop succeeds when a last CPU is recorded for every
  domain it comes to, and counts them.
-/
theorem pwrUpLoop_ok
    {c : Nat} (hTree : t.WellFormed p) (hc : c < p.coreCount) (residency : Residency)
    (stateInfo : PowerStateInfo) (levels lvl : Nat) (s : State)
    (hPos : 1 ≤ lvl) (hMax : lvl + levels ≤ p.maxPwrLvl + 1)
    (hMono :
      ∀ l l', lvl ≤ l → l ≤ l' → l' < lvl + levels →
        stateInfo l = psciLocalStateRun → stateInfo l' = psciLocalStateRun)
    (hLast :
      ∀ l, lvl ≤ l → l < lvl + levels →
        stateInfo l ≠ psciLocalStateRun → s.lastCpuInNonCpuPd (t.domainAt c l) ≠ none)
    (hStates : ∀ l, lvl ≤ l → l < lvl + levels → stateInfo l ≤ p.maxOffState) :
    ∃ s', State.pwrUpLoop p t residency stateInfo levels lvl (t.domainAt c lvl) s = .ok s' ∧
      CountedUp p t c stateInfo lvl levels s s' := by
  induction levels generalizing lvl s with
  | zero =>
    refine ⟨s, rfl, CountedUp.none s ?_⟩
    intro l hLow hHigh
    omega
  | succ levels ih =>
    unfold State.pwrUpLoop
    by_cases hRun : stateInfo lvl = psciLocalStateRun
    · refine ⟨s, if_pos hRun, CountedUp.none s ?_⟩
      intro l hLow hHigh
      exact hMono lvl l (Nat.le_refl lvl) hLow hHigh hRun
    · rw [if_neg hRun]
      rcases Option.ne_none_iff_exists'.mp
        (hLast lvl (Nat.le_refl lvl) (by omega) hRun) with ⟨lastCpu, hSome⟩
      rw [hSome]
      rw [getStatIdx_eq hRun (hStates lvl (Nat.le_refl lvl) (by omega))]
      rw [← t.domainAt_succ c lvl hPos]
      have hNe : ∀ l, lvl + 1 ≤ l → l < lvl + 1 + levels → t.domainAt c l ≠ t.domainAt c lvl := by
        intro l hLow hHigh hSame
        have hEq :=
          PowerDomainTree.domainAt_inj hTree hc (by omega) (by omega) hPos (by omega) hSame
        omega
      have hNext :
          ∀ s1 : State, s1.lastCpuInNonCpuPd = update s.lastCpuInNonCpuPd (t.domainAt c lvl) none →
            s1.psciNonCpuStat = update s.psciNonCpuStat (t.domainAt c lvl)
                (update (s.psciNonCpuStat (t.domainAt c lvl)) (p.statIdxOf (stateInfo lvl))
                  ((s.psciNonCpuStat (t.domainAt c lvl)
                    (p.statIdxOf (stateInfo lvl))).add (residency lvl lastCpu))) →
            ∃ s', State.pwrUpLoop p t residency stateInfo levels
                (lvl + 1) (t.domainAt c (lvl + 1)) s1 = .ok s' ∧
              CountedUp p t c stateInfo lvl (levels + 1) s s' := by
        intro s1 hLast1 hStat1
        rcases ih (lvl + 1) s1 (by omega) (by omega)
          (fun l l' hLow hLe hHigh => hMono l l' (by omega) hLe (by omega))
          (by
            intro l hLow hHigh hDeep
            rw [hLast1, update_of_ne (hNe l hLow hHigh)]
            exact hLast l (by omega) (by omega) hDeep)
          (fun l hLow hHigh =>
            hStates l (by omega) (by omega)) with
            ⟨s', hOk, hRest⟩
        exact ⟨s', hOk, hRest.cons hTree hc hPos (by omega) hRun hLast1 hStat1⟩
      exact hNext _ (by rfl) (by rfl)

end Loops

----
-- The Invariant
----

namespace CoordInv

variable {p : Platform} {t : PowerDomainTree} {s : State}

/- RUN at a level means RUN at all levels above. -/
theorem local_mono {c l l' : Nat} (hTree : t.WellFormed p) (hInv : CoordInv p t s)
    (hc : c < p.coreCount) (hPos : 1 ≤ l) (hLe : l ≤ l') (hMax : l' ≤ p.maxPwrLvl)
    (hRun : s.localState (t.domainAt c l) = psciLocalStateRun) :
    s.localState (t.domainAt c l') = psciLocalStateRun := by
  have hNode := hTree.domain_lt c hc l hPos (by omega)
  have hNode' := hTree.domain_lt c hc l' (by omega) hMax
  rw [hInv.target _ hNode] at hRun
  rw [hInv.target _ hNode']
  rcases targetOf_eq_run_iff.mp hRun with ⟨x, hLow, hHigh, hAsks⟩
  rw [hTree.domain_level c hc l hPos (by omega)] at hAsks
  rcases (PowerDomainTree.range_domainAt hTree hc hPos
    (by omega)).mp ⟨hLow, hHigh⟩ with ⟨hx, hShare⟩
  have hShare' := PowerDomainTree.domainAt_of_le hPos hLe hShare
  rcases (PowerDomainTree.range_domainAt hTree hc
    (show 1 ≤ l' by omega) hMax).mpr ⟨hx, hShare'⟩ with ⟨hLow', hHigh'⟩
  apply targetOf_eq_run_iff.mpr
  refine ⟨x, hLow', hHigh', ?_⟩
  rw [hTree.domain_level c hc l' (by omega) hMax]
  exact hInv.mono x hx l l' hPos hLe hMax hAsks

/- No domain is deeper than the deepest state. -/
theorem local_le {node : Nat} (hInv : CoordInv p t s) (hNode : node < t.nonCpuPdNodes.length) :
    s.localState node ≤ p.maxOffState := by
  rw [hInv.target node hNode]
  exact (targetOf_isLeast s.reqLocalPwrStates node).2 (Or.inl rfl)

theorem local_of_running {c l : Nat} (hTree : t.WellFormed p) (hInv : CoordInv p t s)
    (hc : c < p.coreCount) (hAwake : s.sleepLvl p c = 0) (hPos : 1 ≤ l) (hMax : l ≤ p.maxPwrLvl) :
    s.localState (t.domainAt c l) = psciLocalStateRun := by
  rw [hInv.target _ (hTree.domain_lt c hc l hPos hMax)]
  apply targetOf_eq_run_iff.mpr
  rcases (PowerDomainTree.range_domainAt hTree hc hPos hMax).mpr ⟨hc, rfl⟩ with ⟨hLow, hHigh⟩
  refine ⟨c, hLow, hHigh, ?_⟩
  rw [hTree.domain_level c hc l hPos hMax]
  exact hInv.requests_of_running hc hAwake l hPos hMax

end CoordInv

/-
  The statistics are right, domains that have been in RUN
  are known, and CPUs sleep in the states they asked for.
-/
structure StatInv
    (p : Platform) (t : PowerDomainTree)
    (x : Tracked) : Prop where
  coord : CoordInv p t x.state
  right : StatsRight t x
  seen :
    ∀ node < t.nonCpuPdNodes.length,
      x.state.localState node = psciLocalStateRun → x.everRun node = true
  seen_above :
    ∀ c < p.coreCount, ∀ l l', 1 ≤ l → l ≤ l' → l' ≤ p.maxPwrLvl →
      x.everRun (t.domainAt c l) = true → x.everRun (t.domainAt c l') = true
  ran :
    ∀ c < p.coreCount, x.state.status c ≠ .off →
      ∀ l, 1 ≤ l → l ≤ p.maxPwrLvl → x.everRun (t.domainAt c l) = true
  off_state :
    ∀ c < p.coreCount, x.state.status c = .goingOff ∨ x.state.status c = .off →
        x.state.cpuLocalState c = p.maxOffState
  sleep_state :
    ∀ c < p.coreCount, ∀ endPwrlvl,
      x.state.status c = .retention endPwrlvl → x.state.cpuLocalState c ≠ psciLocalStateRun
  standby_state :
    ∀ c < p.coreCount, ∀ st, x.state.status c = .fastStandby st → st ≠ psciLocalStateRun

/- What the statistics are after a CPU woke up. -/
structure WakeStats
    (p : Platform) (t : PowerDomainTree) (x : Tracked) (c endPwrlvl : Nat)
    (stats : State) : Prop where
  last_at : ∀ l, 1 ≤ l → l ≤ endPwrlvl → stats.lastCpuInNonCpuPd (t.domainAt c l) = none
  last_other :
    ∀ node, (∀ l, 1 ≤ l → l ≤ endPwrlvl →
      node ≠ t.domainAt c l) → stats.lastCpuInNonCpuPd node = x.state.lastCpuInNonCpuPd node
  count_at :
    ∀ l, 1 ≤ l → l ≤ endPwrlvl → ∀ idx, (stats.psciNonCpuStat (t.domainAt c l) idx).count =
        if x.everRun (t.domainAt c l) = true ∧
            x.state.localState (t.domainAt c l) ≠ psciLocalStateRun ∧
            p.statIdxOf (x.state.localState (t.domainAt c l)) = idx then
          ((x.state.psciNonCpuStat (t.domainAt c l) idx).count + 1) % 2 ^ 64
        else
          (x.state.psciNonCpuStat (t.domainAt c l) idx).count
  count_other :
    ∀ node, (∀ l, 1 ≤ l → l ≤ endPwrlvl →
      node ≠ t.domainAt c l) → stats.psciNonCpuStat node = x.state.psciNonCpuStat node

namespace StatInv

variable {p : Platform} {t : PowerDomainTree} {x x' : Tracked}

/- The states found above a CPU that wakes up. -/
theorem stateInfo_eq {s : State} {c endPwrlvl l : Nat} (hPos : 1 ≤ l) (hLe : l ≤ endPwrlvl) :
    s.psciGetTargetLocalPwrStates t c endPwrlvl l = s.localState (t.domainAt c l) := by
  have hGet :=
    getLoop_eq (t := t) s c endPwrlvl 1
      (update (fun _ => psciLocalStateRun)
        psciCpuPwrLvl (s.cpuLocalState c)) (Nat.le_refl 1) l
  refine Eq.trans hGet ?_
  rw [if_pos (by omega)]

variable {node : Nat}

/- Nothing is recorded for a domain in RUN. -/
theorem last_of_run (hInv : StatInv p t x) (hNode : node < t.nonCpuPdNodes.length)
    (hRun : x.state.localState node = psciLocalStateRun) :
    x.state.lastCpuInNonCpuPd node = none := by
  by_contra hSome
  exact ((hInv.right.last_cpu node hNode).mp hSome).2 hRun

variable {c endPwrlvl : Nat} {stateInfo : PowerStateInfo}

theorem wakeStats_of_countedUp {s1 stats : State} (hInv : StatInv p t x)
    (hNode : ∀ l, 1 ≤ l → l ≤ endPwrlvl → t.domainAt c l < t.nonCpuPdNodes.length)
    (hInfo : ∀ l, 1 ≤ l → l < 1 + endPwrlvl → stateInfo l = x.state.localState (t.domainAt c l))
    (hRan : ∀ l, 1 ≤ l → l ≤ endPwrlvl → x.everRun (t.domainAt c l) = true)
    (hLast : s1.lastCpuInNonCpuPd = x.state.lastCpuInNonCpuPd)
    (hStat : s1.psciNonCpuStat = x.state.psciNonCpuStat)
    (hCounted : CountedUp p t c stateInfo 1 endPwrlvl s1 stats) :
    WakeStats p t x c endPwrlvl stats := by
  have hKept :
      ∀ l, 1 ≤ l → l ≤ endPwrlvl → x.state.localState (t.domainAt c l) = psciLocalStateRun →
        ∀ l', 1 ≤ l' → l' < 1 + endPwrlvl →
          t.domainAt c l = t.domainAt c l' → stateInfo l' = psciLocalStateRun := by
    intro l hPos hLe hRun l' hPos' hHigh' hSame
    rw [hInfo l' hPos' hHigh', ← hSame]
    exact hRun
  refine ⟨?_, ?_, ?_, ?_⟩
  · intro l hPos hLe
    by_cases hRun : x.state.localState (t.domainAt c l) = psciLocalStateRun
    · rw [hCounted.last_other _ (hKept l hPos hLe hRun), hLast]
      exact hInv.last_of_run (hNode l hPos hLe) hRun
    · apply hCounted.last_at l hPos (by omega)
      rw [hInfo l hPos (by omega)]
      exact hRun
  · intro node hOther
    rw [hCounted.last_other node, hLast]
    intro l hPos hHigh hEq
    exact absurd hEq (hOther l hPos (by omega))
  · intro l hPos hLe idx
    by_cases hRun : x.state.localState (t.domainAt c l) = psciLocalStateRun
    · rw [hCounted.count_other _ (hKept l hPos hLe hRun),
        hStat, if_neg (fun hCond => hCond.2.1 hRun)]
    · have hDeep : stateInfo l ≠ psciLocalStateRun := by
        rw [hInfo l hPos (by omega)]
        exact hRun
      rw [hCounted.count_at l hPos (by omega) hDeep idx, hStat, hInfo l hPos (by omega)]
      by_cases hIdx : p.statIdxOf (x.state.localState (t.domainAt c l)) = idx
      · rw [if_pos hIdx, if_pos ⟨hRan l hPos hLe, hRun, hIdx⟩]
      · rw [if_neg hIdx, if_neg (fun hCond => hIdx hCond.2.2)]
  · intro node hOther
    rw [hCounted.count_other node, hStat]
    intro l hPos hHigh hEq
    exact absurd hEq (hOther l hPos (by omega))

/-
  The statistics of a wake-up, when nothing recorded is left
  out by the early return.
-/
theorem stats_ok (hTree : t.WellFormed p) (hInv : StatInv p t x)
    (hc : c < p.coreCount) (hEnd : endPwrlvl ≤ p.maxPwrLvl)
    (hLow : x.state.cpuLocalState c ≠ psciLocalStateRun)
    (hHigh : x.state.cpuLocalState c ≤ p.maxOffState)
    (hClean :
      x.state.lastCpuInNonCpuPd (t.domainAt c 1) = none →
        ∀ l, 1 ≤ l → l ≤ endPwrlvl → x.state.localState (t.domainAt c l) ≠ psciLocalStateRun →
          x.state.lastCpuInNonCpuPd (t.domainAt c l) = none)
    (residency : Residency) :
    ∃ stats, x.state.statsUp p t withStat residency c endPwrlvl
          (x.state.psciGetTargetLocalPwrStates t c endPwrlvl) = .ok stats ∧
        WakeStats p t x c endPwrlvl stats := by
  have hInfo :
      ∀ l, 1 ≤ l → l < 1 + endPwrlvl → x.state.psciGetTargetLocalPwrStates t c endPwrlvl l =
          x.state.localState (t.domainAt c l) := by
    intro l hPos hLe
    exact stateInfo_eq hPos (by omega)
  have hNode : ∀ l, 1 ≤ l → l ≤ endPwrlvl → t.domainAt c l < t.nonCpuPdNodes.length := by
    intro l hPos hLe
    exact hTree.domain_lt c hc l hPos (by omega)
  have hOn : withStat.enablePsciStat = true := rfl
  unfold State.statsUp
  rw [if_pos hOn]
  unfold State.psciStatsUpdatePwrUp
  rw [psciGetTargetLocalPwrStates_cpu, getStatIdx_eq hLow hHigh]
  dsimp only
  split
  -- the early return leaves nothing out
  · rename_i hNone
    have hLast :
        ∀ l, 1 ≤ l → l ≤ endPwrlvl → x.state.lastCpuInNonCpuPd (t.domainAt c l) = none := by
      intro l hPos hLe
      by_cases hRun : x.state.localState (t.domainAt c l) = psciLocalStateRun
      · exact hInv.last_of_run (hNode l hPos hLe) hRun
      · exact hClean hNone l hPos hLe hRun
    refine ⟨_, rfl, hLast, fun _ _ => rfl, ?_, fun _ _ => rfl⟩
    intro l hPos hLe idx
    rw [if_neg]
    rintro ⟨hRan, hDeep, -⟩
    exact (hInv.right.last_cpu _ (hNode l hPos hLe)).mpr ⟨hRan, hDeep⟩ (hLast l hPos hLe)
  -- all domains above have been in RUN
  · rename_i hSome
    have hRan : ∀ l, 1 ≤ l → l ≤ endPwrlvl → x.everRun (t.domainAt c l) = true := by
      intro l hPos hLe
      have hFirst := hTree.domain_lt c hc 1 (Nat.le_refl 1) (by omega)
      have hRanFirst := ((hInv.right.last_cpu _ hFirst).mp hSome).1
      exact hInv.seen_above c hc 1 l (Nat.le_refl 1) hPos (by omega) hRanFirst
    have hUp :
        ∀ s1 : State, s1.lastCpuInNonCpuPd = x.state.lastCpuInNonCpuPd →
          s1.psciNonCpuStat = x.state.psciNonCpuStat → ∃ stats, State.pwrUpLoop p t residency
              (x.state.psciGetTargetLocalPwrStates t c
                endPwrlvl) endPwrlvl 1 (t.domainAt c 1) s1 = .ok stats ∧
            WakeStats p t x c endPwrlvl stats := by
      intro s1 hLast1 hStat1
      rcases pwrUpLoop_ok hTree hc residency (x.state.psciGetTargetLocalPwrStates t c endPwrlvl)
        endPwrlvl 1 s1 (Nat.le_refl 1) (by omega)
        (by
          intro l l' hPos hLe hHigh' hRun
          rw [hInfo l hPos (by omega)] at hRun
          rw [hInfo l' (by omega) hHigh']
          exact hInv.coord.local_mono hTree hc hPos hLe (by omega) hRun)
        (by
          intro l hPos hHigh' hDeep
          rw [hInfo l hPos hHigh'] at hDeep
          rw [hLast1]
          exact (hInv.right.last_cpu _
            (hNode l hPos (by omega))).mpr ⟨hRan l hPos (by omega), hDeep⟩)
        (by
          intro l hPos hHigh'
          rw [hInfo l hPos hHigh']
          exact hInv.coord.local_le (hNode l hPos (by omega))) with
          ⟨stats, hOk, hCounted⟩
      exact ⟨stats, hOk, hInv.wakeStats_of_countedUp hNode hInfo hRan hLast1 hStat1 hCounted⟩
    exact hUp _ rfl rfl

variable {s' : State}

/- A domain has been in RUN before or is so now. -/
theorem everRun_after :
    (x.after p s').everRun node = true ↔
      x.everRun node = true ∨ s'.localState node = psciLocalStateRun := by
  simp [Tracked.after]

/- What is left to show after an operation. -/
theorem after_inv (hTree : t.WellFormed p) (hInv : StatInv p t x)
    (hCoord : CoordInv p t s') (hRight : StatsRight t (x.after p s'))
    (hRan :
      ∀ c < p.coreCount, s'.status c ≠ .off → x.state.status c ≠ .off ∨
          ∀ l, 1 ≤ l → l ≤ p.maxPwrLvl → s'.localState (t.domainAt c l) = psciLocalStateRun)
    (hOff :
      ∀ c < p.coreCount,
        s'.status c = .goingOff ∨ s'.status c = .off → s'.cpuLocalState c = p.maxOffState)
    (hSleep :
      ∀ c < p.coreCount, ∀ endPwrlvl,
        s'.status c = .retention endPwrlvl → s'.cpuLocalState c ≠ psciLocalStateRun)
    (hStandby : ∀ c < p.coreCount, ∀ st, s'.status c = .fastStandby st → st ≠ psciLocalStateRun) :
    StatInv p t (x.after p s') := by
  refine ⟨hCoord, hRight, ?_, ?_, ?_, hOff, hSleep, hStandby⟩
  · intro node _ hRun
    exact everRun_after.mpr (Or.inr hRun)
  · intro c hc l l' hPos hLe hMax hBefore
    rcases everRun_after.mp hBefore with hOld | hRun
    · apply everRun_after.mpr
      left
      exact hInv.seen_above c hc l l' hPos hLe hMax hOld
    · apply everRun_after.mpr
      right
      exact hCoord.local_mono hTree hc hPos hLe hMax hRun
  · intro c hc hStatus l hPos hMax
    rcases hRan c hc hStatus with hOld | hRun
    · exact everRun_after.mpr (Or.inl (hInv.ran c hc hOld l hPos hMax))
    · exact everRun_after.mpr (Or.inr (hRun l hPos hMax))

/- Nothing happened to a domain. -/
theorem right_of_same (hInv : StatInv p t x) (hNode : node < t.nonCpuPdNodes.length)
    (hLocal : s'.localState node = x.state.localState node)
    (hLast : s'.lastCpuInNonCpuPd node = x.state.lastCpuInNonCpuPd node)
    (hStat : s'.psciNonCpuStat node = x.state.psciNonCpuStat node) :
    (s'.lastCpuInNonCpuPd node ≠ none ↔
      (x.after p s').everRun node = true ∧ s'.localState node ≠ psciLocalStateRun) ∧
      ∀ idx, (s'.psciNonCpuStat node idx).count = (x.after p s').returns node idx % 2 ^ 64 := by
  constructor
  · rw [everRun_after, hLocal, hLast, hInv.right.last_cpu node hNode]
    constructor
    · rintro ⟨hRan, hDeep⟩
      exact ⟨Or.inl hRan, hDeep⟩
    · rintro ⟨hRan | hRun, hDeep⟩
      · exact ⟨hRan, hDeep⟩
      · exact absurd hRun hDeep
  · intro idx
    have hReturns : (x.after p s').returns node idx = x.returns node idx := by
      refine if_neg ?_
      rintro ⟨-, hDeep, hRun, -⟩
      rw [hLocal] at hRun
      exact hDeep hRun
    rw [hReturns, hStat]
    exact hInv.right.counts node hNode idx

variable {c : Nat} {status : CpuStatus}

theorem after_cpu (hTree : t.WellFormed p) (hInv : StatInv p t x)
    (hCoord : CoordInv p t s') (hRight : StatsRight t (x.after p s'))
    (hStatus : s'.status = update x.state.status c status)
    (hCpu : ∀ y, y ≠ c → s'.cpuLocalState y = x.state.cpuLocalState y)
    (hRan :
      status ≠ .off → x.state.status c ≠ .off ∨
        ∀ l, 1 ≤ l → l ≤ p.maxPwrLvl → s'.localState (t.domainAt c l) = psciLocalStateRun)
    (hOff : status = .goingOff ∨ status = .off → s'.cpuLocalState c = p.maxOffState)
    (hSleep : ∀ endPwrlvl, status = .retention endPwrlvl → s'.cpuLocalState c ≠ psciLocalStateRun)
    (hStandby : ∀ st, status = .fastStandby st → st ≠ psciLocalStateRun) :
    StatInv p t (x.after p s') := by
  have hSelf : s'.status c = status := by rw [hStatus, update_self]
  have hOther : ∀ y, y ≠ c → s'.status y = x.state.status y := by
    intro y hNe
    rw [hStatus, update_of_ne hNe]
  refine hInv.after_inv hTree hCoord hRight ?_ ?_ ?_ ?_
  · intro y hy hOn
    by_cases hHere : y = c
    · subst hHere
      rw [hSelf] at hOn
      exact hRan hOn
    · left
      rw [← hOther y hHere]
      exact hOn
  · intro y hy hEither
    by_cases hHere : y = c
    · subst hHere
      rw [hSelf] at hEither
      exact hOff hEither
    · rw [hOther y hHere] at hEither
      rw [hCpu y hHere]
      exact hInv.off_state y hy hEither
  · intro y hy endPwrlvl hRet
    by_cases hHere : y = c
    · subst hHere
      rw [hSelf] at hRet
      exact hSleep endPwrlvl hRet
    · rw [hOther y hHere] at hRet
      rw [hCpu y hHere]
      exact hInv.sleep_state y hy endPwrlvl hRet
  · intro y hy st hFast
    by_cases hHere : y = c
    · subst hHere
      rw [hSelf] at hFast
      exact hStandby st hFast
    · rw [hOther y hHere] at hFast
      exact hInv.standby_state y hy st hFast

theorem right_of_nodes (hNodes :
      ∀ node < t.nonCpuPdNodes.length, (s'.lastCpuInNonCpuPd node ≠ none ↔
          (x.after p s').everRun node = true ∧ s'.localState node ≠ psciLocalStateRun) ∧
          ∀ idx, (s'.psciNonCpuStat node idx).count = (x.after p s').returns node idx % 2 ^ 64) :
    StatsRight t (x.after p s') :=
  ⟨fun node hNode => (hNodes node hNode).1, fun node hNode => (hNodes node hNode).2⟩

/- Nothing happened to any domain. -/
theorem right_of_quiet (hInv : StatInv p t x) (hLocal : s'.localState = x.state.localState)
    (hLast : s'.lastCpuInNonCpuPd = x.state.lastCpuInNonCpuPd)
    (hStat : s'.psciNonCpuStat = x.state.psciNonCpuStat) :
    StatsRight t (x.after p s') :=
  right_of_nodes fun node hNode =>
    hInv.right_of_same hNode (congrFun hLocal node) (congrFun hLast node) (congrFun hStat node)

/-
  The domains up to a level were in RUN and have got their
  target states; the CPU is recorded where that is not RUN.
-/
theorem right_of_pwrDown (hTree : t.WellFormed p) (hInv : StatInv p t x)
    (hc : c < p.coreCount) (hEnd : endPwrlvl ≤ p.maxPwrLvl) (hCoord : CoordInv p t s')
    (hRun : ∀ l, 1 ≤ l → l ≤ endPwrlvl → x.state.localState (t.domainAt c l) = psciLocalStateRun)
    (hAt : ∀ l, 1 ≤ l → l ≤ endPwrlvl → s'.localState (t.domainAt c l) = stateInfo l)
    (hOther :
      ∀ node, (∀ l, 1 ≤ l → l ≤ endPwrlvl →
        node ≠ t.domainAt c l) → s'.localState node = x.state.localState node)
    (hLast :
      s'.lastCpuInNonCpuPd =
        pwrDownLoop t c stateInfo endPwrlvl 1 (t.domainAt c 1) x.state.lastCpuInNonCpuPd)
    (hStat : s'.psciNonCpuStat = x.state.psciNonCpuStat) :
    StatsRight t (x.after p s') := by
  have hMono :
      ∀ l l', 1 ≤ l → l ≤ l' → l' < 1 + endPwrlvl →
        stateInfo l = psciLocalStateRun → stateInfo l' = psciLocalStateRun := by
    intro l l' hPos hLe hHigh hHere
    rw [← hAt l hPos (by omega)] at hHere
    rw [← hAt l' (by omega) (by omega)]
    exact hCoord.local_mono hTree hc hPos hLe (by omega) hHere
  refine right_of_nodes fun node hNode => ?_
  rcases t.ancestor_or_not c endPwrlvl node with ⟨l, hPos, hLe, rfl⟩ | hNot
  · constructor
    · rw [everRun_after, hAt l hPos hLe, hLast]
      by_cases hStays : stateInfo l = psciLocalStateRun
      · rw [pwrDownLoop_other endPwrlvl 1 _ (Nat.le_refl 1),
          hInv.last_of_run hNode (hRun l hPos hLe)]
        · simp [hStays]
        · intro l' hPos' hHigh' hSame
          rw [← hAt l' hPos' (by omega), ← hSame, hAt l hPos hLe]
          exact hStays
      · rw [pwrDownLoop_at endPwrlvl 1 _ (Nat.le_refl 1) hMono hPos (by omega) hStays]
        have hRan := hInv.seen _ hNode (hRun l hPos hLe)
        simp [hRan, hStays]
    · intro idx
      have hReturns :
          (x.after p s').returns (t.domainAt c l) idx = x.returns (t.domainAt c l) idx :=
        if_neg fun hBack => hBack.2.1 (hRun l hPos hLe)
      rw [hReturns, hStat]
      exact hInv.right.counts _ hNode idx
  · refine hInv.right_of_same hNode (hOther node hNot) ?_ (congrFun hStat node)
    rw [hLast, pwrDownLoop_other endPwrlvl 1 _ (Nat.le_refl 1)]
    intro l hPos hHigh hEq
    exact absurd hEq (hNot l hPos (by omega))

variable {c endPwrlvl targetPwrlvl : Nat}

/- Falling asleep keeps the invariant. -/
theorem fellAsleep (hTree : t.WellFormed p) (hInv : StatInv p t x)
    (hc : c < p.coreCount) (hBefore : x.state.status c = .running) (hEnd : endPwrlvl ≤ p.maxPwrLvl)
    (hDeep : ∀ l, l ≤ endPwrlvl → stateInfo l ≠ psciLocalStateRun)
    (hKind : SleepKind p x.state c endPwrlvl stateInfo targetPwrlvl status) :
    StatInv p t
      (x.after p (x.state.asleep p t withStat c endPwrlvl stateInfo targetPwrlvl status)) := by
  have hCoord :
      CoordInv p t (x.state.asleep p t withStat c endPwrlvl stateInfo targetPwrlvl status) :=
    hInv.coord.fellAsleep hTree hc hBefore hEnd hDeep hKind
  have hAwake : x.state.sleepLvl p c = 0 := by rw [State.sleepLvl, hBefore]
  rcases hInv.coord.coordination_eq hTree hc hEnd
    (fun l _ hLe => hDeep l hLe) with ⟨-, -, hAt, hOther, hCpuInfo⟩
  have hRight :
      StatsRight t
        (x.after p (x.state.asleep p t withStat c endPwrlvl stateInfo targetPwrlvl status)) := by
    refine hInv.right_of_pwrDown hTree hc hEnd hCoord ?_ ?_ ?_
      rfl rfl
    · intro l hPos hLe
      exact hInv.coord.local_of_running hTree hc hAwake hPos (by omega)
    · intro l hPos hLe
      rw [asleep_localState]
      exact hAt l hPos hLe
    · intro node hNode
      rw [asleep_localState]
      exact hOther node hNode
  have hCpu :
      (x.state.asleep p t withStat c endPwrlvl stateInfo
        targetPwrlvl status).cpuLocalState c = stateInfo psciCpuPwrLvl := by
    rw [asleep_cpuLocalState, update_self]
    exact hCpuInfo
  refine hInv.after_cpu hTree hCoord hRight
    (asleep_status c endPwrlvl stateInfo targetPwrlvl status)
    ?_ ?_ ?_ ?_ ?_
  · intro y hNe
    rw [asleep_cpuLocalState, update_of_ne hNe]
  · intro _
    left
    simp [hBefore]
  · intro hEither
    rw [hCpu]
    cases hKind with
    | off hTop hInfo => rw [hInfo]
    | suspended => simp at hEither
    | retention => simp at hEither
  · intro _ _
    rw [hCpu]
    exact hDeep psciCpuPwrLvl (Nat.zero_le _)
  · intro st hFast
    cases hKind with
    | off hTop hInfo => cases hFast
    | suspended => cases hFast
    | retention => cases hFast

/-
  The domains up to a level are in RUN again; those that had
  left it are counted.
-/
theorem right_of_pwrUp (hInv : StatInv p t x)
    (hAt : ∀ l, 1 ≤ l → l ≤ endPwrlvl → s'.localState (t.domainAt c l) = psciLocalStateRun)
    (hOther :
      ∀ node, (∀ l, 1 ≤ l → l ≤ endPwrlvl →
        node ≠ t.domainAt c l) → s'.localState node = x.state.localState node)
    (hStats : WakeStats p t x c endPwrlvl s') :
    StatsRight t (x.after p s') := by
  refine right_of_nodes fun node hNode => ?_
  rcases t.ancestor_or_not c endPwrlvl node with ⟨l, hPos, hLe, rfl⟩ | hNot
  · constructor
    · rw [hStats.last_at l hPos hLe, hAt l hPos hLe]
      simp
    · intro idx
      rw [hStats.count_at l hPos hLe idx, hInv.right.counts _ hNode idx]
      unfold Tracked.after
      dsimp only
      by_cases hBack :
        x.everRun (t.domainAt c l) = true ∧
          x.state.localState (t.domainAt c l) ≠ psciLocalStateRun ∧
          p.statIdxOf (x.state.localState (t.domainAt c l)) = idx
      · rw [if_pos hBack, if_pos ⟨hBack.1, hBack.2.1, hAt l hPos hLe, hBack.2.2⟩]
        omega
      · rw [if_neg hBack, if_neg (fun hCond => hBack ⟨hCond.1, hCond.2.1, hCond.2.2.2⟩)]
  · exact hInv.right_of_same hNode (hOther node hNot) (hStats.last_other node hNot)
      (hStats.count_other node hNot)

/- Waking up with these statistics keeps the invariant. -/
theorem wokeUp {stats : State} (hTree : t.WellFormed p) (hInv : StatInv p t x)
    (hc : c < p.coreCount) (hSleep : x.state.sleepLvl p c = endPwrlvl)
    (hLvl : targetPwrlvl = p.psciInvalidPwrLvl) (hStats : WakeStats p t x c endPwrlvl stats) :
    StatInv p t (x.after p (x.state.awake t c endPwrlvl targetPwrlvl stats)) := by
  have hCoord : CoordInv p t (x.state.awake t c endPwrlvl targetPwrlvl stats) :=
    hInv.coord.wokeUp hTree hc hSleep hLvl
  have hEnd : endPwrlvl ≤ p.maxPwrLvl := by
    rw [← hSleep]
    exact (hInv.coord.above c hc).1
  have hAwake : (x.state.awake t c endPwrlvl targetPwrlvl stats).sleepLvl p c = 0 := by
    rw [awake_eq]
    simp [State.sleepLvl]
  rw [awake_eq] at hCoord hAwake ⊢
  have hRun :
      ∀ l, 1 ≤ l → l ≤ p.maxPwrLvl → _ = psciLocalStateRun :=
    fun l hPos hMax => hCoord.local_of_running hTree hc hAwake hPos hMax
  refine hInv.after_cpu hTree hCoord ?_ rfl ?_ ?_ ?_ ?_ ?_
  · refine hInv.right_of_pwrUp (fun l hPos hLe => hRun l hPos (by omega)) ?_
      ⟨hStats.last_at, hStats.last_other, hStats.count_at, hStats.count_other⟩
    intro node hNode
    exact setLoop_other endPwrlvl 1 x.state.localState (Nat.le_refl 1)
      (fun l hPos hHigh => hNode l hPos (by omega))
  · intro y hNe
    exact update_of_ne hNe _ _
  · intro _
    right
    exact hRun
  · simp
  · simp
  · simp

----
-- Steps
----

variable {op : Op} {residency : Residency}

theorem nothing_left_out (hTree : t.WellFormed p) (hInv : StatInv p t x)
    (hClean : CleanWake p t x.state op) (hc : c < p.coreCount)
    (hKind : WakeKind p x.state c endPwrlvl targetPwrlvl)
    (hBoot : x.state.status c = .off → op = .warmboot c residency)
    (hNone : x.state.lastCpuInNonCpuPd (t.domainAt c 1) = none)
    (l : Nat) (hPos : 1 ≤ l) (hMax : l ≤ p.maxPwrLvl)
    (hDeep : x.state.localState (t.domainAt c l) ≠ psciLocalStateRun) :
    x.state.lastCpuInNonCpuPd (t.domainAt c l) = none := by
  by_cases hOff : x.state.status c = .off
  · rw [hBoot hOff] at hClean
    have hPending : x.state.affInfoState c = .onPending := by
      cases hKind with
      | retention _ hStatus =>
        rw [hOff] at hStatus
        cases hStatus
      | booted _ hAff => exact hAff
      | resumed _ hAff _ => exact absurd hOff ((hInv.coord.powered c hc).mpr hAff)
    by_contra hSome
    exact hClean ⟨hc, hOff, hPending, hNone, l, by omega, hPos, hDeep, hSome⟩
  · -- the CPU ran before, so the domain above it is in RUN
    have hFirst := hTree.domain_lt c hc 1 (Nat.le_refl 1) (by omega)
    have hRan := hInv.ran c hc hOff 1 (Nat.le_refl 1) (by omega)
    have hRun :
        x.state.localState (t.domainAt c 1) = psciLocalStateRun := by
      by_contra hNot
      exact (hInv.right.last_cpu _ hFirst).mpr ⟨hRan, hNot⟩ hNone
    exact absurd (hInv.coord.local_mono hTree hc (Nat.le_refl 1) hPos hMax hRun) hDeep

theorem cpuState_of_statsUp
    {s stats : State} (hUp : s.statsUp p t withStat residency c endPwrlvl stateInfo = .ok stats) :
    stateInfo psciCpuPwrLvl ≠ psciLocalStateRun ∧ stateInfo psciCpuPwrLvl ≤ p.maxOffState := by
  have hOn : withStat.enablePsciStat = true := rfl
  have hOrder := p.ret_lt_off
  unfold State.statsUp at hUp
  rw [if_pos hOn] at hUp
  unfold State.psciStatsUpdatePwrUp getStatIdx at hUp
  unfold psciLocalStateRun
  split at hUp
  · cases hUp
  rename_i hIdx
  split at hIdx
  · rename_i hRetn
    have hBounds := of_decide_eq_true hRetn
    omega
  · split at hIdx
    · rename_i hOff
      have hBounds := of_decide_eq_true hOff
      omega
    · cases hIdx

theorem statsUp_cpu (s : State) (residency : Residency) (c : Nat) (stateInfo : PowerStateInfo)
    (hLow : stateInfo psciCpuPwrLvl ≠ psciLocalStateRun)
    (hHigh : stateInfo psciCpuPwrLvl ≤ p.maxOffState) :
    ∃ stats, s.statsUp p t withStat residency c psciCpuPwrLvl stateInfo = .ok stats ∧
        stats.lastCpuInNonCpuPd = s.lastCpuInNonCpuPd ∧
        stats.psciNonCpuStat = s.psciNonCpuStat := by
  have hOn : withStat.enablePsciStat = true := rfl
  unfold State.statsUp
  rw [if_pos hOn]
  unfold State.psciStatsUpdatePwrUp
  rw [getStatIdx_eq hLow hHigh]
  dsimp only
  split
  · exact ⟨_, rfl, rfl, rfl⟩
  · exact ⟨_, rfl, rfl, rfl⟩

/- Every effect of a clean step keeps the invariant. -/
theorem effect (hTree : t.WellFormed p) (hInv : StatInv p t x) (hClean : CleanWake p t x.state op)
    (hEffect : Effect p t withStat x.state op s') :
    StatInv p t (x.after p s') := by
  have hCoord := hInv.coord.effect hTree hEffect
  cases hEffect with
  | refused =>
    refine hInv.after_inv hTree hCoord (hInv.right_of_quiet rfl rfl rfl)
      (fun _ _ hOn => Or.inl hOn) hInv.off_state
      hInv.sleep_state hInv.standby_state
  | turnedOn targetIdx hOff =>
    refine hInv.after_inv hTree hCoord (hInv.right_of_quiet rfl rfl rfl)
      (fun _ _ hOn => Or.inl hOn) hInv.off_state
      hInv.sleep_state hInv.standby_state
  | turnedOff cpuIdx hc hBefore =>
    refine hInv.after_cpu hTree hCoord (hInv.right_of_quiet rfl rfl rfl) rfl
      (fun _ _ => rfl) ?_ ?_ ?_ ?_
    · intro hNot
      exact absurd rfl hNot
    · intro _
      exact hInv.off_state cpuIdx hc (Or.inl hBefore)
    · intro _ hRet
      cases hRet
    · intro _ hFast
      cases hFast
  | fellAsleep c endPwrlvl stateInfo targetPwrlvl status hc hBefore hEnd hDeep hKind =>
    exact hInv.fellAsleep hTree hc hBefore hEnd hDeep hKind
  | standby cpuIdx cpuPdState hc hBefore hDeep =>
    refine hInv.after_cpu hTree hCoord (hInv.right_of_quiet rfl rfl rfl) rfl ?_ ?_ ?_ ?_ ?_
    · intro y hNe
      exact update_of_ne hNe _ _
    · intro _
      left
      simp [hBefore]
    · simp
    · intro _ hRet
      cases hRet
    · intro st hFast
      cases hFast
      exact hDeep
  | leftStandby cpuIdx cpuPdState residency stats hc hBefore hStats =>
    have hBounds := cpuState_of_statsUp hStats
    rcases statsUp_cpu x.state residency cpuIdx _ hBounds.1
      hBounds.2 with ⟨stats', hOk, hLast, hStat⟩
    cases hStats.symm.trans hOk
    refine hInv.after_cpu hTree hCoord (hInv.right_of_quiet rfl hLast hStat) rfl ?_ ?_ ?_ ?_ ?_
    · intro y hNe
      exact update_of_ne hNe _ _
    · intro _
      left
      simp [hBefore]
    · simp
    · intro _ hRet
      cases hRet
    · intro _ hFast
      cases hFast
  | wokeUp c endPwrlvl targetPwrlvl residency stats hc hKind hBoot hStats =>
    rcases hInv.coord.sleepLvl_of_wakeKind hc hKind with ⟨hSleep, hLvl⟩
    have hEnd : endPwrlvl ≤ p.maxPwrLvl := by
      rw [← hSleep]
      exact (hInv.coord.above c hc).1
    have hBounds := cpuState_of_statsUp hStats
    rw [psciGetTargetLocalPwrStates_cpu] at hBounds
    rcases hInv.stats_ok hTree hc hEnd hBounds.1 hBounds.2
      (fun hNone l hPos hLe =>
        hInv.nothing_left_out hTree hClean hc hKind hBoot hNone l hPos (by omega)) residency with
        ⟨stats', hOk, hWake⟩
    cases hStats.symm.trans hOk
    exact hInv.wokeUp hTree hc hSleep hLvl hWake

/- A step of a tracked run is an operation that returns. -/
theorem step_ok (hStep : x.step p t op = some x') :
    ∃ s', x.state.step p t withStat op = .ok s' ∧ x' = x.after p s' := by
  unfold Tracked.step at hStep
  split at hStep
  · cases hStep
  · rename_i s' hRun
    cases hStep
    exact ⟨s', hRun, rfl⟩

/- A clean step keeps the invariant. -/
theorem step (hTree : t.WellFormed p) (hInv : StatInv p t x) (hClean : CleanWake p t x.state op)
    (hStep : x.step p t op = some x') :
    StatInv p t x' := by
  rcases step_ok hStep with ⟨s', hRun, rfl⟩
  exact hInv.effect hTree hClean (effect_of_step hRun)

theorem wake_stats (hTree : t.WellFormed p) (hInv : StatInv p t x)
    (hClean : CleanWake p t x.state op) (hc : c < p.coreCount)
    (hKind : WakeKind p x.state c endPwrlvl targetPwrlvl)
    (hBoot : x.state.status c = .off → op = .warmboot c residency)
    (hHigh : (∃ e, x.state.status c = .retention e) → x.state.cpuLocalState c ≤ p.maxOffState) :
    ∃ stats, x.state.statsUp p t withStat residency c endPwrlvl
        (x.state.psciGetTargetLocalPwrStates t c endPwrlvl) = .ok stats := by
  have hOrder := p.ret_lt_off
  have hEnd : endPwrlvl ≤ p.maxPwrLvl := by
    rw [← (hInv.coord.sleepLvl_of_wakeKind hc hKind).1]
    exact (hInv.coord.above c hc).1
  have hBounds :
      x.state.cpuLocalState c ≠ psciLocalStateRun ∧ x.state.cpuLocalState c ≤ p.maxOffState := by
    cases hKind with
    | retention _ hStatus => exact ⟨hInv.sleep_state c hc _ hStatus, hHigh ⟨_, hStatus⟩⟩
    | booted hStatus hAff =>
      -- only a CPU that is off can be pending
      have hOff : x.state.status c = .off := by
        by_contra hNot
        have hOn := (hInv.coord.powered c hc).mp hNot
        rw [hAff] at hOn
        cases hOn
      rw [hInv.off_state c hc (Or.inr hOff)]
      unfold psciLocalStateRun
      omega
    | resumed hStatus hAff hOff =>
      have hRange := of_decide_eq_true hOff
      unfold psciLocalStateRun
      omega
  rcases hInv.stats_ok hTree hc hEnd hBounds.1 hBounds.2
    (fun hNone l hPos hLe =>
      hInv.nothing_left_out hTree hClean hc hKind hBoot hNone l
        hPos (by omega)) residency with ⟨stats, hOk, -⟩
  exact ⟨stats, hOk⟩

/- The same statistics, taken after the domains run. -/
theorem statsUp_of_same {s y stats : State} (hSame : s.withStats y = s)
    (hOk : y.statsUp p t withStat residency c endPwrlvl stateInfo = .ok stats) :
    s.statsUp p t withStat residency c endPwrlvl stateInfo = .ok (s.withStats stats) := by
  rw [← hSame, statsUp_withStats, hOk, hSame]
  rfl

/- No assertion about statistics fails at a clean boot. -/
theorem warmboot_no_assertion (hTree : t.WellFormed p) (hInv : StatInv p t x)
    (hClean : CleanWake p t x.state (.warmboot c residency)) (hc : c < p.coreCount)
    (hStatus : x.state.status c = .suspended ∨ x.state.status c = .off) :
    x.state.psciWarmbootEntrypoint p t withStat c residency ≠ .error .statAssertion := by
  have hNot : (∃ e, x.state.status c = .retention e) → x.state.cpuLocalState c ≤ p.maxOffState := by
    rintro ⟨e, hRet⟩
    rcases hStatus with h | h <;> rw [hRet] at h <;> cases h
  intro hFail
  simp only [State.psciWarmbootEntrypoint] at hFail
  split at hFail
  · cases hFail
  split at hFail
  · rename_i hFinish
    cases hFail
    split at hFinish
    · cases hFinish
    · unfold State.psciCpuSuspendFinish at hFinish
      split at hFinish <;> cases hFinish
  rename_i s1 hFinish
  split at hFail
  case h_2 => cases hFail
  rename_i hUp
  cases hFail
  split at hFinish
  · rename_i hPending
    cases hFinish
    rcases hInv.wake_stats hTree hClean hc
      (.booted hStatus hPending) (fun _ => rfl) hNot with ⟨stats, hOk⟩
    rw [statsUp_of_same (by
      unfold State.psciSetPwrDomainsToRun
      rw [runLoop_eq]
      rfl) hOk] at hUp
    cases hUp
  · unfold State.psciCpuSuspendFinish at hFinish
    split at hFinish
    · rename_i hOn
      cases hFinish
      rw [psciGetTargetLocalPwrStates_cpu] at hOn
      rcases hInv.wake_stats hTree hClean hc
        (.resumed hStatus hOn.1 hOn.2) (fun _ => rfl) hNot with ⟨stats, hOk⟩
      rw [statsUp_of_same (by
        unfold State.psciSetPwrDomainsToRun
        rw [runLoop_eq]
        rfl) hOk] at hUp
      cases hUp
    · cases hFinish

/- No assertion about statistics fails at a clean step. -/
theorem no_assertion
    (hTree : t.WellFormed p) (hInv : StatInv p t x) (hClean : CleanWake p t x.state op) :
    x.state.step p t withStat op ≠ .error .statAssertion := by
  cases op with
  | cpuOn cpuIdx targetIdx entryPointOk onOk =>
    simp only [State.step]
    split <;> simp
  | cpuOff cpuIdx denied =>
    simp only [State.step]
    split <;> simp
  | cpuOffFinish cpuIdx =>
    simp only [State.step]
    split <;> simp
  | cpuSuspend cpuIdx req =>
    simp only [State.step, State.psciCpuSuspend]
    repeat' split
    all_goals simp
  | standbyExit c residency =>
    simp only [State.step]
    simp only [CleanWake] at hClean
    split
    · rename_i st hStatus
      split
      · rename_i hc
        rw [hStatus] at hClean
        unfold State.standbyExit
        dsimp only
        have hLow := hInv.standby_state c hc st hStatus
        rcases statsUp_cpu (t := t)
          (x.state.setCpuLocalState c psciLocalStateRun)
          residency c
          (update (fun _ => psciLocalStateRun) psciCpuPwrLvl st)
          (by rw [update_self]; exact hLow)
          (by rw [update_self]; exact hClean hc) with ⟨stats, hOk, -⟩
        rw [hOk]
        simp
      · simp
    · simp
  | retentionExit c residency =>
    simp only [State.step]
    simp only [CleanWake] at hClean
    split
    · rename_i e hStatus
      split
      · rename_i hc
        rw [hStatus] at hClean
        have hWake : CleanWake p t x.state (.retentionExit c residency) := by
          simp only [CleanWake, hStatus]
          exact hClean
        rcases hInv.wake_stats hTree hWake hc (.retention e hStatus) (by simp [hStatus])
          (fun _ => hClean hc) with ⟨stats, hOk⟩
        unfold State.psciSuspendToStandbyFinisher
        dsimp only
        rw [hOk]
        simp
      · simp
    · simp
  | warmboot c residency =>
    simp only [State.step]
    split
    · rename_i hCpu
      exact hInv.warmboot_no_assertion hTree hClean hCpu.1 hCpu.2
    · simp

/- The state in which everything starts. -/
theorem psciSetup_eq (bootCpu : Nat) :
    (State.psciSetup p t bootCpu).status = update (fun _ => .off) bootCpu .running ∧
      (State.psciSetup p t bootCpu).cpuLocalState =
        update (fun _ => p.maxOffState) bootCpu psciLocalStateRun ∧
      (State.psciSetup p t bootCpu).lastCpuInNonCpuPd = (fun _ => none) ∧
      (State.psciSetup p t bootCpu).psciNonCpuStat = fun _ _ => ⟨0, 0⟩ := by
  unfold State.psciSetup State.psciSetPwrDomainsToRun
  dsimp only
  rw [runLoop_eq]
  exact ⟨rfl, rfl, rfl, rfl⟩

/- The invariant holds after `psci_setup`. -/
theorem initial {bootCpu : Nat} (hTree : t.WellFormed p) (hBoot : bootCpu < p.coreCount) :
    StatInv p t (Tracked.initial p t bootCpu) := by
  rcases psciSetup_eq (p := p) (t := t) bootCpu with
    ⟨hStatus, hCpu, hLast, hStat⟩
  have hCoord : CoordInv p t (State.psciSetup p t bootCpu) := CoordInv.setup hTree hBoot
  have hSeen :
      ∀ node, (Tracked.initial p t bootCpu).everRun node = true ↔
          (State.psciSetup p t bootCpu).localState node = psciLocalStateRun := by
    intro node
    simp [Tracked.initial]
  have hOther : ∀ c, c ≠ bootCpu → (State.psciSetup p t bootCpu).status c = .off := by
    intro c hNe
    rw [hStatus, update_of_ne hNe]
  have hSelf :
      (State.psciSetup p t bootCpu).status bootCpu = .running := by
    rw [hStatus, update_self]
  refine ⟨hCoord, ⟨?_, ?_⟩, ?_, ?_, ?_, ?_, ?_, ?_⟩
  · intro node _
    rw [hSeen]
    change (State.psciSetup p t bootCpu).lastCpuInNonCpuPd node ≠ none ↔ _
    rw [hLast]
    constructor
    · intro hNot
      exact absurd rfl hNot
    · rintro ⟨hRun, hDeep⟩
      exact absurd hRun hDeep
  · intro node _ idx
    change ((State.psciSetup p t bootCpu).psciNonCpuStat node idx).count = _
    rw [hStat]
    rfl
  · intro node _ hRun
    exact (hSeen node).mpr hRun
  · intro c hc l l' hPos hLe hMax hBefore
    rw [hSeen] at hBefore ⊢
    exact hCoord.local_mono hTree hc hPos hLe hMax hBefore
  · intro c hc hOn l hPos hMax
    have hHere : c = bootCpu := by
      by_contra hNe
      exact hOn (hOther c hNe)
    rw [hSeen, hHere]
    refine hCoord.local_of_running hTree hBoot ?_ hPos hMax
    rw [State.sleepLvl, hSelf]
  · intro c _ hEither
    have hNe : c ≠ bootCpu := by
      rintro rfl
      change (State.psciSetup p t c).status c = _ ∨ (State.psciSetup p t c).status c = _ at hEither
      rw [hSelf] at hEither
      simp at hEither
    change (State.psciSetup p t bootCpu).cpuLocalState c = _
    rw [hCpu, update_of_ne hNe]
  · intro c _ endPwrlvl hRet
    change (State.psciSetup p t bootCpu).status c = _ at hRet
    by_cases hHere : c = bootCpu
    · rw [hHere, hSelf] at hRet
      cases hRet
    · rw [hOther c hHere] at hRet
      cases hRet
  · intro c _ st hFast
    change (State.psciSetup p t bootCpu).status c = _ at hFast
    by_cases hHere : c = bootCpu
    · rw [hHere, hSelf] at hFast
      cases hFast
    · rw [hOther c hHere] at hFast
      cases hFast

/- The invariant holds in every run of clean steps. -/
theorem reachable {bootCpu : Nat} (hTree : t.WellFormed p) (hBoot : bootCpu < p.coreCount)
    (hReach :
      (TransitionSystem.ofStep (Tracked.initial p t bootCpu)
        (Tracked.step p t)).ReachableBy (fun x op => CleanWake p t x.state op) x) :
    StatInv p t x := by
  refine hReach.invariant ?_ ?_
  · rintro y rfl
    exact initial hTree hBoot
  · intro y op y' hInv hClean hStep
    exact hInv.step hTree hClean hStep

----
-- Wake-Ups That Are Not Clean
----

/- A state deeper than the deepest one is not counted. -/
theorem statsUp_error
    (s : State) (residency : Residency) (c endPwrlvl : Nat) (stateInfo : PowerStateInfo)
    (hHigh : p.maxOffState < stateInfo psciCpuPwrLvl) :
    s.statsUp p t withStat residency c endPwrlvl stateInfo = .error .statAssertion := by
  have hOn : withStat.enablePsciStat = true := rfl
  unfold State.statsUp
  rw [if_pos hOn]
  unfold State.psciStatsUpdatePwrUp
  rw [getStatIdx_error hHigh]

/- A first boot that leaves out a domain. -/
theorem step_of_skipsStats (hTree : t.WellFormed p) (hInv : StatInv p t x)
    (hSkips : SkipsStats p t x.state c) (residency : Residency) :
    ∃ x', x.step p t (.warmboot c residency) = some x' ∧ ¬ StatsRight t x' := by
  rcases hSkips with ⟨hc, hOff, hPending, hNone, l, hLess, hPos, hDeep, hSome⟩
  have hOn : withStat.enablePsciStat = true := rfl
  have hOrder := p.ret_lt_off
  have hEnd : x.state.getPowerOnTargetPwrlvl p c = p.maxPwrLvl := by
    unfold State.getPowerOnTargetPwrlvl
    rw [if_pos (hInv.coord.suspend_lvl c hc (by simp [hOff]))]
  have hCpu := hInv.off_state c hc (Or.inr hOff)
  -- the early return is taken
  have hUp :
      ∃ stats, x.state.statsUp p t withStat residency c p.maxPwrLvl
            (x.state.psciGetTargetLocalPwrStates t c p.maxPwrLvl) = .ok stats ∧
          stats.lastCpuInNonCpuPd = x.state.lastCpuInNonCpuPd := by
    unfold State.statsUp
    rw [if_pos hOn]
    unfold State.psciStatsUpdatePwrUp
    rw [psciGetTargetLocalPwrStates_cpu, hCpu,
      getStatIdx_eq (by unfold psciLocalStateRun; omega) (Nat.le_refl _)]
    dsimp only
    rw [t.cpuParentOf_eq, if_pos hNone]
    exact ⟨_, rfl, rfl⟩
  rcases hUp with ⟨stats, hOk, hLast⟩
  have hRun :
      ∃ s', x.state.step p t withStat (.warmboot c residency) = .ok s' ∧
        s'.lastCpuInNonCpuPd = x.state.lastCpuInNonCpuPd ∧
        s'.localState (t.domainAt c l) = psciLocalStateRun := by
    simp only [State.step]
    rw [if_pos ⟨hc, Or.inr hOff⟩]
    unfold State.psciWarmbootEntrypoint
    rw [if_neg (by simp [hPending]), hEnd]
    dsimp only
    rw [if_pos hPending]
    dsimp only
    rw [statsUp_of_same (by
      unfold State.psciSetPwrDomainsToRun
      rw [runLoop_eq]
      rfl) hOk]
    refine ⟨_, rfl, hLast, ?_⟩
    unfold State.psciSetPwrDomainsToRun
    rw [runLoop_eq]
    exact setLoop_at hTree hc p.maxPwrLvl 1 x.state.localState
      (Nat.le_refl 1) (by omega) hPos (by omega)
  rcases hRun with ⟨s', hRun, hLast', hLocal'⟩
  refine ⟨x.after p s', ?_, ?_⟩
  · unfold Tracked.step
    rw [hRun]
  · intro hRight
    have hNode := hTree.domain_lt c hc l hPos (by omega)
    have hStill : (x.after p s').state.lastCpuInNonCpuPd (t.domainAt c l) ≠ none := by
      change s'.lastCpuInNonCpuPd _ ≠ none
      rw [hLast']
      exact hSome
    exact ((hRight.last_cpu _ hNode).mp hStill).2 hLocal'

/- Every step that is not clean goes wrong. -/
theorem breaks_of_not_clean
    (hTree : t.WellFormed p) (hInv : StatInv p t x) (hNot : ¬ CleanWake p t x.state op) :
    x.state.step p t withStat op = .error .statAssertion ∨
      ∃ x', x.step p t op = some x' ∧ ¬ StatsRight t x' := by
  cases op with
  | cpuOn cpuIdx targetIdx entryPointOk onOk => exact absurd trivial hNot
  | cpuOff cpuIdx denied => exact absurd trivial hNot
  | cpuOffFinish cpuIdx => exact absurd trivial hNot
  | cpuSuspend cpuIdx req => exact absurd trivial hNot
  | standbyExit c residency =>
    left
    simp only [CleanWake] at hNot
    split at hNot
    · rename_i st hStatus
      simp only [Classical.not_imp, Nat.not_le] at hNot
      simp only [State.step, hStatus]
      rw [if_pos hNot.1]
      unfold State.standbyExit
      dsimp only
      rw [statsUp_error _ residency c _ _ (by rw [update_self]; exact hNot.2)]
    · exact absurd trivial hNot
  | retentionExit c residency =>
    left
    simp only [CleanWake] at hNot
    split at hNot
    · rename_i e hStatus
      simp only [Classical.not_imp, Nat.not_le] at hNot
      simp only [State.step, hStatus]
      rw [if_pos hNot.1]
      unfold State.psciSuspendToStandbyFinisher
      dsimp only
      rw [statsUp_error _ residency c _ _
        (by
          rw [psciGetTargetLocalPwrStates_cpu]
          exact hNot.2)]
    · exact absurd trivial hNot
  | warmboot c residency =>
    right
    simp only [CleanWake, not_not] at hNot
    exact hInv.step_of_skipsStats hTree hNot residency

end StatInv

----
-- Statistics Of Runs
----

/-
  In every run of clean steps the statistics are right, and
  exactly the clean steps keep them so without failing one of
  their assertions.
-/
theorem psci_statistics (p : Platform) (t : PowerDomainTree) (bootCpu : Nat) (x : Tracked)
    (hSetup : psciSetupTree p = some t) (hBoot : bootCpu < p.coreCount)
    (hReach :
      (TransitionSystem.ofStep (Tracked.initial p t bootCpu)
        (Tracked.step p t)).ReachableBy (fun x op => CleanWake p t x.state op) x) :
    StatsRight t x ∧ ∀ op, (x.state.step p t withStat op ≠ .error .statAssertion ∧
          ∀ x', x.step p t op = some x' → StatsRight t x') ↔
        CleanWake p t x.state op := by
  have hTree := psciSetupTree_wellFormed hSetup
  have hInv := StatInv.reachable hTree hBoot hReach
  refine ⟨hInv.right, ?_⟩
  intro op
  constructor
  · rintro ⟨hNoFault, hKeeps⟩
    by_contra hNot
    rcases hInv.breaks_of_not_clean hTree hNot with
      hFail | ⟨x', hStep, hWrong⟩
    · exact hNoFault hFail
    · exact hWrong (hKeeps x' hStep)
  · intro hClean
    refine ⟨hInv.no_assertion hTree hClean, ?_⟩
    intro x' hStep
    exact (hInv.step hTree hClean hStep).right

/- A cluster went off once and is in RUN again. -/
theorem psci_statistics_cluster_returned :
    ∃ x : Tracked, (TransitionSystem.ofStep (Tracked.initial twoClusters twoClustersTree 0)
        (Tracked.step twoClusters
          twoClustersTree)).ReachableBy
            (fun x op => CleanWake twoClusters twoClustersTree x.state op) x ∧
      ((x.state.psciNonCpuStat 1 1).count = 1 ∧ x.state.lastCpuInNonCpuPd 1 = none) ∧
      StatsRight twoClustersTree x := by
  rcases TransitionSystem.exists_reachableBy (Tracked.step twoClusters twoClustersTree)
    (fun x op => CleanWake twoClusters twoClustersTree x.state op)
    (Tracked.initial twoClusters twoClustersTree 0)
    [.cpuOn 0 1 true true, .warmboot 1 (fun _ _ => 0), .cpuSuspend 0 (suspendTo 2 2 true),
      .warmboot 0 (fun _ _ => 0)]
    (fun x => (x.state.psciNonCpuStat 1 1).count = 1 ∧ x.state.lastCpuInNonCpuPd 1 = none)
    (by decide +kernel) with ⟨x, hReach, hFacts⟩
  refine ⟨x, hReach, hFacts, ?_⟩
  exact (psci_statistics twoClusters twoClustersTree 0 x
    (Option.some_get _).symm (by decide) hReach).1

/-
  The boot CPU turns on a CPU in the other cluster and takes
  the system down before that CPU boots.  The system comes
  back to RUN with the first boot of the other cluster and is
  not counted.
-/
theorem psci_first_boot_skips_system :
    ∃ x : Tracked, (TransitionSystem.ofStep (Tracked.initial twoClusters twoClustersTree 0)
        (Tracked.step twoClusters twoClustersTree)).Reachable x ∧
      x.state.localState 0 = psciLocalStateRun ∧ x.state.lastCpuInNonCpuPd 0 = some 0 ∧
      x.returns 0 1 = 1 ∧ (x.state.psciNonCpuStat 0 1).count = 0 ∧
      ¬ StatsRight twoClustersTree x := by
  rcases TransitionSystem.exists_reachableBy (Tracked.step twoClusters twoClustersTree)
    (fun _ _ => True) (Tracked.initial twoClusters twoClustersTree 0)
    [.cpuOn 0 1 true true, .cpuSuspend 0 (suspendTo 2 2 true), .warmboot 1 (fun _ _ => 0)]
    (fun x => x.state.localState 0 = psciLocalStateRun ∧ x.state.lastCpuInNonCpuPd 0 = some 0 ∧
      x.returns 0 1 = 1 ∧ (x.state.psciNonCpuStat 0 1).count = 0)
    (by decide +kernel) with ⟨x, hReach, hRun, hLast, hReturns, hCount⟩
  refine ⟨x, hReach, hRun, hLast, hReturns, hCount, ?_⟩
  intro hRight
  have hCounts := hRight.counts 0 (by decide +kernel) 1
  rw [hCount, hReturns] at hCounts
  cases hCounts

end Tfa.Psci
