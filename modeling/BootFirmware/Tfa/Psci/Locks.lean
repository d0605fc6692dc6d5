import BootFirmware.Lib.TransitionSystem
import BootFirmware.Tfa.Psci.Topology

/-
  The power-domain locks.

  Any number of CPUs run `psci_acquire_pwr_domain_locks` and
  `psci_release_pwr_domain_locks` with end levels of their
  own choice; taking or dropping one lock is one step.  A
  lock is found through the `lock_index` of a node, which is
  a byte, so two nodes can share a lock.  Sections exclude
  each other and release what they took in any case; whether
  CPUs can deadlock depends on the lock indices along the
  chains of ancestors.

  Key definitions include:
    * `LockState`
    * `LockState.step`
    * `lockSystem`
    * `LockState.Safe`
    * `CircularChains`

  The main results are:
    * `LockState.step_inv`
    * `not_circular_of_few_domains`
    * `psci_domain_locks_safe_iff`
-/

----
-- Lock Steps
----

namespace Tfa.Psci

open Function

namespace PowerDomainTree

/- The loop of `psci_get_parent_pwr_domain_nodes`. -/
def collectParents (t : PowerDomainTree) : Nat → Nat → List Nat
  | 0, _ => []
  | levels + 1, parentNode => parentNode :: t.collectParents levels (t.parentOf parentNode)

/- `psci_get_parent_pwr_domain_nodes`. -/
def psciGetParentPwrDomainNodes (t : PowerDomainTree)
    (cpuIdx endLvl : Nat) : List Nat :=
  t.collectParents endLvl (t.cpuParentOf cpuIdx)

/- The lock taken for the ancestor of a CPU at a level. -/
def lockAt (t : PowerDomainTree) (cpuIdx lvl : Nat) : Nat :=
  t.lockIndexOf (t.domainAt cpuIdx lvl)

end PowerDomainTree

/- Where a CPU stands, with the local variables it needs. -/
inductive LockPc where
  | outside
  | acquiring (endPwrlvl level parentIdx : Nat)
  | inside (endPwrlvl : Nat)
  | releasing (parentNodes : List Nat) (level : Nat)
  deriving DecidableEq

/- Who holds each of `psci_locks`, and where each CPU is. -/
structure LockState where
  holder : Nat → Option Nat
  pc : Nat → LockPc

/- A CPU calls with an end level, or takes its next step. -/
inductive LockAction where
  | call (endPwrlvl : Nat)
  | advance
  deriving DecidableEq

namespace LockState

/- No lock is held and no CPU is in a section. -/
def initial : LockState where
  holder := fun _ => none
  pc := fun _ => .outside

def goto (s : LockState) (cpu : Nat)
    (pc : LockPc) : LockState :=
  { s with pc := update s.pc cpu pc }

def setHolder (s : LockState) (lock : Nat)
    (holder : Option Nat) : LockState :=
  { s with holder := update s.holder lock holder }

/-
  One step of a CPU.  `psci_lock_get` on a lock that is held
  has no step: the CPU waits.
-/
def step (p : Platform) (t : PowerDomainTree) (s : LockState)
    (label : Nat × LockAction) : Option LockState :=
  let cpu := label.1
  match label.2, s.pc cpu with
  | .call endPwrlvl, .outside =>
    if cpu < p.coreCount ∧ endPwrlvl ≤ p.maxPwrLvl then
      some (s.goto cpu (.acquiring endPwrlvl (psciCpuPwrLvl + 1) (t.cpuParentOf cpu)))
    else
      none
  | .advance, .acquiring endPwrlvl level parentIdx =>
    if level ≤ endPwrlvl then
      if s.holder (t.lockIndexOf parentIdx) = none then
        some ((s.setHolder (t.lockIndexOf parentIdx)
          (some cpu)).goto cpu (.acquiring endPwrlvl (level + 1) (t.parentOf parentIdx)))
      else
        none
    else
      some (s.goto cpu (.inside endPwrlvl))
  | .advance, .inside endPwrlvl =>
    some (s.goto cpu (.releasing (t.psciGetParentPwrDomainNodes cpu endPwrlvl) endPwrlvl))
  | .advance, .releasing parentNodes level =>
    if psciCpuPwrLvl + 1 ≤ level then
      let parentIdx := parentNodes.getD (level - 1) 0
      some ((s.setHolder (t.lockIndexOf parentIdx)
        none).goto cpu (.releasing parentNodes (level - 1)))
    else
      some (s.goto cpu .outside)
  | _, _ => none

end LockState

/- All CPUs running lock sections over a tree. -/
def lockSystem (p : Platform) (t : PowerDomainTree) :
    TransitionSystem LockState (Nat × LockAction) :=
  .ofStep .initial (LockState.step p t)

----
-- Safety Of The Locks
----

namespace LockState

/- The CPU is in `psci_lock_get` on this lock. -/
def WaitsFor (t : PowerDomainTree) (s : LockState)
    (cpu lock : Nat) : Prop :=
  match s.pc cpu with
  | .acquiring endPwrlvl level parentIdx =>
    level ≤ endPwrlvl ∧ lock = t.lockIndexOf parentIdx
  | _ => False

/- The lock that the next step of a CPU releases. -/
def Releases (t : PowerDomainTree) (s : LockState)
    (cpu lock : Nat) : Prop :=
  match s.pc cpu with
  | .releasing parentNodes level =>
    psciCpuPwrLvl + 1 ≤ level ∧ lock = t.lockIndexOf (parentNodes.getD (level - 1) 0)
  | _ => False

/- Some CPUs wait for each other and for nobody else. -/
def Deadlocked (t : PowerDomainTree)
    (s : LockState) : Prop :=
  ∃ D : Set Nat, D.Nonempty ∧ ∀ c ∈ D, ∃ lock, s.WaitsFor t c lock ∧ ∃ d ∈ D, s.holder lock = some d

/-
  No CPUs wait for each other; a CPU releases only locks it
  holds and holds none after its release; inside a section
  it holds exactly the locks of its domains; and two CPUs
  are never inside sections that share a node.
-/
structure Safe
    (t : PowerDomainTree)
    (s : LockState) : Prop where
  no_deadlock : ¬ s.Deadlocked t
  releases_own : ∀ cpu lock, s.Releases t cpu lock → s.holder lock = some cpu
  outside_holds_none : ∀ cpu lock, s.pc cpu = .outside → s.holder lock ≠ some cpu
  inside_holds :
    ∀ cpu endLvl, s.pc cpu = .inside endLvl →
      ∀ lock, s.holder lock = some cpu ↔ ∃ lvl, 1 ≤ lvl ∧ lvl ≤ endLvl ∧ lock = t.lockAt cpu lvl
  exclusive :
    ∀ c d endLvl endLvl', c ≠ d → s.pc c = .inside endLvl → s.pc d = .inside endLvl' →
      ∀ lvl lvl', 1 ≤ lvl → lvl ≤ endLvl →
        1 ≤ lvl' → lvl' ≤ endLvl' → t.domainAt c lvl ≠ t.domainAt d lvl'

end LockState

/-
  Some CPUs, each with a level of its own, such that the
  locks below these levels all differ and the lock of each
  CPU at its level is one of them.
-/
def CircularChains (p : Platform)
    (t : PowerDomainTree) : Prop :=
  ∃ (D : Set Nat) (top : Nat → Nat), D.Nonempty ∧
    (∀ c ∈ D, c < p.coreCount ∧ 1 ≤ top c ∧ top c ≤ p.maxPwrLvl) ∧
    (∀ c ∈ D, ∀ d ∈ D, ∀ lvl lvl', 1 ≤ lvl → lvl < top c → 1 ≤ lvl' → lvl' < top d →
        t.lockAt c lvl = t.lockAt d lvl' → c = d ∧ lvl = lvl') ∧
    ∀ c ∈ D, ∃ d ∈ D, ∃ lvl, 1 ≤ lvl ∧ lvl < top d ∧ t.lockAt c (top c) = t.lockAt d lvl

----
-- Chains Of Ancestors
----

namespace PowerDomainTree

/- The array holds the ancestors in order of level. -/
theorem collectParents_getD (t : PowerDomainTree) (cpu : Nat) {levels i : Nat}
    (hi : i < levels) (lvl : Nat) (hPos : 1 ≤ lvl) :
    (t.collectParents levels (t.domainAt cpu lvl)).getD i 0 = t.domainAt cpu (lvl + i) := by
  induction levels generalizing i lvl with
  | zero => exact absurd hi (Nat.not_lt_zero i)
  | succ levels ih =>
    cases i with
    | zero => rfl
    | succ i =>
      rw [collectParents, List.getD_cons_succ, ← domainAt_succ t cpu lvl hPos,
        ih (by omega) (lvl + 1) (by omega)]
      congr 1
      omega

/- Acquire and release go through the same nodes. -/
theorem psciGetParentPwrDomainNodes_getD
    (t : PowerDomainTree) (cpu : Nat) {endLvl lvl : Nat} (hPos : 1 ≤ lvl) (hLe : lvl ≤ endLvl) :
    (t.psciGetParentPwrDomainNodes cpu endLvl).getD (lvl - 1) 0 = t.domainAt cpu lvl := by
  have hAt := t.collectParents_getD cpu (show lvl - 1 < endLvl by omega) 1 (Nat.le_refl 1)
  rw [psciGetParentPwrDomainNodes, cpuParentOf_eq, hAt]
  congr 1
  omega

end PowerDomainTree

----
-- The Invariant
----

/- The highest level whose lock a CPU holds. -/
def LockPc.heldLevels : LockPc → Nat
  | .outside => 0
  | .acquiring _ level _ => level - 1
  | .inside endPwrlvl => endPwrlvl
  | .releasing _ level => level

/- The local variables of a CPU agree with the tree. -/
def LockPc.Valid (p : Platform) (t : PowerDomainTree)
    (cpu : Nat) : LockPc → Prop
  | .outside => True
  | .acquiring endPwrlvl level parentIdx =>
    cpu < p.coreCount ∧ endPwrlvl ≤ p.maxPwrLvl ∧
      1 ≤ level ∧ level ≤ endPwrlvl + 1 ∧ parentIdx = t.domainAt cpu level
  | .inside endPwrlvl => cpu < p.coreCount ∧ endPwrlvl ≤ p.maxPwrLvl
  | .releasing parentNodes level =>
    cpu < p.coreCount ∧ ∃ endPwrlvl, endPwrlvl ≤ p.maxPwrLvl ∧ level ≤ endPwrlvl ∧
        parentNodes = t.psciGetParentPwrDomainNodes cpu endPwrlvl

namespace LockState

/-
  A CPU holds exactly the locks of its ancestors up to its
  present level, and these are distinct.
-/
structure Inv
    (p : Platform) (t : PowerDomainTree)
    (s : LockState) : Prop where
  valid : ∀ cpu, (s.pc cpu).Valid p t cpu
  held :
    ∀ cpu lock, s.holder lock = some cpu ↔
      ∃ lvl, 1 ≤ lvl ∧ lvl ≤ (s.pc cpu).heldLevels ∧ lock = t.lockAt cpu lvl
  distinct :
    ∀ cpu low high, 1 ≤ low → low < high →
      high ≤ (s.pc cpu).heldLevels → t.lockAt cpu low ≠ t.lockAt cpu high

variable {p : Platform} {t : PowerDomainTree}

theorem inv_initial : (initial).Inv p t := by
  refine ⟨?_, ?_, ?_⟩
  · intro cpu
    trivial
  · intro cpu lock
    constructor
    · intro hHeld
      cases hHeld
    · rintro ⟨lvl, hPos, hLe, -⟩
      exact absurd hLe (by simp [initial, LockPc.heldLevels]; omega)
  · intro cpu low high hPos hLt hLe
    simp only [initial, LockPc.heldLevels] at hLe
    omega

/-
  What one step does: it moves within the same held levels,
  takes the next lock, or drops the highest one.
-/
inductive Effect
    (p : Platform) (t : PowerDomainTree) (s : LockState)
    (cpu : Nat) : LockState → Prop
  | move (pc : LockPc) (hValid : pc.Valid p t cpu) (hSame : pc.heldLevels = (s.pc cpu).heldLevels) :
      Effect p t s cpu (s.goto cpu pc)
  | take (pc : LockPc) (hValid : pc.Valid p t cpu)
      (hLevel : pc.heldLevels = (s.pc cpu).heldLevels + 1)
      (hFree : s.holder (t.lockAt cpu pc.heldLevels) = none) :
      Effect p t s cpu ((s.setHolder (t.lockAt cpu pc.heldLevels) (some cpu)).goto cpu pc)
  | drop (pc : LockPc) (hValid : pc.Valid p t cpu)
      (hLevel : pc.heldLevels + 1 = (s.pc cpu).heldLevels) :
      Effect p t s cpu ((s.setHolder (t.lockAt cpu (pc.heldLevels + 1)) none).goto cpu pc)

variable {label : Nat × LockAction} {s s' : LockState}

theorem effect_of_step (hInv : s.Inv p t) (hStep : s.step p t label = some s') :
    Effect p t s label.1 s' := by
  have hValid := hInv.valid label.1
  simp only [step] at hStep
  split at hStep
  · rename_i endPwrlvl _ hPc
    split at hStep
    · rename_i hArgs
      cases hStep
      refine .move _ ?_ ?_
      · exact ⟨hArgs.1, hArgs.2, Nat.le_refl 1, by simp [psciCpuPwrLvl], t.cpuParentOf_eq _⟩
      · rw [hPc]
        rfl
    · cases hStep
  · rename_i endPwrlvl level parentIdx _ hPc
    rw [hPc] at hValid
    rcases hValid with ⟨hCpu, hEnd, hPos, hLe, hNode⟩
    split at hStep
    · split at hStep
      · rename_i hFree
        cases hStep
        subst hNode
        rw [← t.domainAt_succ label.1 level hPos]
        refine .take (.acquiring endPwrlvl (level + 1) (t.domainAt label.1 (level + 1))) ?_ ?_ hFree
        · exact ⟨hCpu, hEnd, by omega, by omega, rfl⟩
        · rw [hPc]
          simp only [LockPc.heldLevels]
          omega
      · cases hStep
    · cases hStep
      refine .move _ ⟨hCpu, hEnd⟩ ?_
      rw [hPc]
      simp only [LockPc.heldLevels]
      omega
  · rename_i endPwrlvl _ hPc
    rw [hPc] at hValid
    cases hStep
    refine .move _ ?_ ?_
    · exact ⟨hValid.1, endPwrlvl, hValid.2, Nat.le_refl _, rfl⟩
    · rw [hPc]
      rfl
  · rename_i parentNodes level _ hPc
    rw [hPc] at hValid
    rcases hValid with ⟨hCpu, endLvl, hEnd, hLe, hNodes⟩
    split at hStep
    · rename_i hMore
      cases hStep
      have hNode : parentNodes.getD (level - 1) 0 = t.domainAt label.1 (level - 1 + 1) := by
        rw [hNodes, t.psciGetParentPwrDomainNodes_getD label.1 hMore hLe]
        congr 1
        omega
      simp only [hNode]
      refine .drop (.releasing parentNodes (level - 1)) ?_ ?_
      · exact ⟨hCpu, endLvl, hEnd, by omega, hNodes⟩
      · rw [hPc]
        simp only [LockPc.heldLevels, psciCpuPwrLvl] at *
        omega
    · cases hStep
      refine .move _ trivial ?_
      rw [hPc]
      simp only [LockPc.heldLevels, psciCpuPwrLvl] at *
      omega
  · cases hStep

@[simp] theorem goto_pc_self (s : LockState) (cpu : Nat) (pc : LockPc) :
    (s.goto cpu pc).pc cpu = pc := by
  simp [goto]

variable {s : LockState} {pc : LockPc}

theorem goto_pc_of_ne {cpu other : Nat} (hNe : other ≠ cpu) :
    (s.goto cpu pc).pc other = s.pc other := by
  simp [goto, hNe]

@[simp] theorem goto_holder (s : LockState) (cpu : Nat) (pc : LockPc) :
    (s.goto cpu pc).holder = s.holder := rfl

@[simp] theorem setHolder_pc (s : LockState) (lock : Nat) (holder : Option Nat) :
    (s.setHolder lock holder).pc = s.pc := rfl

variable {cpu : Nat}

/- Only the CPU that moved needs its variables checked. -/
theorem valid_goto
    (hAll : ∀ cpu, (s.pc cpu).Valid p t cpu) (hValid : pc.Valid p t cpu) (other : Nat) :
    ((s.goto cpu pc).pc other).Valid p t other := by
  by_cases hSelf : other = cpu
  · subst hSelf
    rw [goto_pc_self]
    exact hValid
  · rw [goto_pc_of_ne hSelf]
    exact hAll other

/- A step within the same levels. -/
theorem inv_move
    (hInv : s.Inv p t) (hValid : pc.Valid p t cpu) (hSame : pc.heldLevels = (s.pc cpu).heldLevels) :
    (s.goto cpu pc).Inv p t := by
  have hLevels : ∀ other, ((s.goto cpu pc).pc other).heldLevels = (s.pc other).heldLevels := by
    intro other
    by_cases hSelf : other = cpu
    · subst hSelf
      rw [goto_pc_self, hSame]
    · rw [goto_pc_of_ne hSelf]
  refine ⟨valid_goto hInv.valid hValid, ?_, ?_⟩
  · intro other lock
    rw [hLevels, goto_holder]
    exact hInv.held other lock
  · intro other
    rw [hLevels]
    exact hInv.distinct other

/- Taking the next lock, which was free. -/
theorem inv_take (hInv : s.Inv p t) (hValid : pc.Valid p t cpu)
    (hLevel : pc.heldLevels = (s.pc cpu).heldLevels + 1)
    (hFree : s.holder (t.lockAt cpu pc.heldLevels) = none) :
    ((s.setHolder (t.lockAt cpu pc.heldLevels) (some cpu)).goto cpu pc).Inv p t := by
  -- nobody held the new lock
  have hNew :
      ∀ other lvl, 1 ≤ lvl →
        lvl ≤ (s.pc other).heldLevels → t.lockAt other lvl ≠ t.lockAt cpu pc.heldLevels := by
    intro other lvl hPos hLe hEq
    have hHeld := (hInv.held other _).mpr ⟨lvl, hPos, hLe, rfl⟩
    rw [hEq, hFree] at hHeld
    cases hHeld
  refine ⟨valid_goto hInv.valid hValid, ?_, ?_⟩
  · intro other lock
    rw [goto_holder]
    by_cases hLock : lock = t.lockAt cpu pc.heldLevels
    · subst hLock
      simp only [setHolder, update_self]
      by_cases hSelf : other = cpu
      · subst hSelf
        simp only [goto_pc_self, true_iff]
        exact ⟨pc.heldLevels, by omega, Nat.le_refl _, rfl⟩
      · constructor
        · intro hEq
          exact absurd (Option.some.inj hEq).symm hSelf
        · rintro ⟨lvl, hPos, hLe, hEq⟩
          rw [goto_pc_of_ne hSelf] at hLe
          exact absurd hEq.symm (hNew other lvl hPos hLe)
    · simp only [setHolder, update_of_ne hLock]
      rw [hInv.held other lock]
      by_cases hSelf : other = cpu
      · subst hSelf
        rw [goto_pc_self]
        constructor
        · rintro ⟨lvl, hPos, hLe, hEq⟩
          exact ⟨lvl, hPos, by omega, hEq⟩
        · rintro ⟨lvl, hPos, hLe, hEq⟩
          have hNe : lvl ≠ pc.heldLevels := by
            intro hTop
            exact hLock (by rw [hEq, hTop])
          exact ⟨lvl, hPos, by omega, hEq⟩
      · rw [goto_pc_of_ne hSelf]
  · intro other low high hPos hLt hLe
    by_cases hSelf : other = cpu
    · subst hSelf
      rw [goto_pc_self] at hLe
      by_cases hTop : high = pc.heldLevels
      · rw [hTop]
        exact hNew other low hPos (by omega)
      · exact hInv.distinct other low high hPos hLt (by omega)
    · rw [goto_pc_of_ne hSelf] at hLe
      exact hInv.distinct other low high hPos hLt hLe

/- Dropping the highest lock. -/
theorem inv_drop (hInv : s.Inv p t) (hValid : pc.Valid p t cpu)
    (hLevel : pc.heldLevels + 1 = (s.pc cpu).heldLevels) :
    ((s.setHolder (t.lockAt cpu (pc.heldLevels + 1)) none).goto cpu pc).Inv p t := by
  have hOwn : s.holder (t.lockAt cpu (pc.heldLevels + 1)) = some cpu :=
    (hInv.held cpu _).mpr ⟨pc.heldLevels + 1, by omega, by omega, rfl⟩
  refine ⟨valid_goto hInv.valid hValid, ?_, ?_⟩
  · intro other lock
    rw [goto_holder]
    by_cases hLock : lock = t.lockAt cpu (pc.heldLevels + 1)
    · subst hLock
      simp only [setHolder, update_self]
      constructor
      · intro hEq
        cases hEq
      · rintro ⟨lvl, hPos, hLe, hEq⟩
        by_cases hSelf : other = cpu
        · subst hSelf
          rw [goto_pc_self] at hLe
          exact absurd hEq.symm
            (hInv.distinct other lvl (pc.heldLevels + 1) hPos (by omega) (by omega))
        · rw [goto_pc_of_ne hSelf] at hLe
          have hTheirs := (hInv.held other _).mpr ⟨lvl, hPos, hLe, rfl⟩
          rw [← hEq, hOwn] at hTheirs
          exact absurd (Option.some.inj hTheirs).symm hSelf
    · simp only [setHolder, update_of_ne hLock]
      rw [hInv.held other lock]
      by_cases hSelf : other = cpu
      · subst hSelf
        rw [goto_pc_self]
        constructor
        · rintro ⟨lvl, hPos, hLe, hEq⟩
          have hNe : lvl ≠ pc.heldLevels + 1 := by
            intro hTop
            exact hLock (by rw [hEq, hTop])
          exact ⟨lvl, hPos, by omega, hEq⟩
        · rintro ⟨lvl, hPos, hLe, hEq⟩
          exact ⟨lvl, hPos, by omega, hEq⟩
      · rw [goto_pc_of_ne hSelf]
  · intro other low high hPos hLt hLe
    by_cases hSelf : other = cpu
    · subst hSelf
      rw [goto_pc_self] at hLe
      exact hInv.distinct other low high hPos hLt (by omega)
    · rw [goto_pc_of_ne hSelf] at hLe
      exact hInv.distinct other low high hPos hLt hLe

theorem step_inv (hInv : s.Inv p t) (hStep : s.step p t label = some s') :
    s'.Inv p t := by
  cases effect_of_step hInv hStep with
  | move pc hValid hSame => exact inv_move hInv hValid hSame
  | take pc hValid hLevel hFree => exact inv_take hInv hValid hLevel hFree
  | drop pc hValid hLevel => exact inv_drop hInv hValid hLevel

/- The invariant holds in every run. -/
theorem inv_of_reachable (hReach : (lockSystem p t).Reachable s) :
    s.Inv p t := by
  refine hReach.invariant ?_ ?_
  · rintro s rfl
    exact inv_initial
  · intro s label s' hInv _ hStep
    exact step_inv hInv hStep

----
-- From The Invariant To Safety
----

theorem waiting_of_inv {cpu lock : Nat} (hInv : s.Inv p t) (hWaits : s.WaitsFor t cpu lock) :
    cpu < p.coreCount ∧ (s.pc cpu).heldLevels + 1 ≤ p.maxPwrLvl ∧
      lock = t.lockAt cpu ((s.pc cpu).heldLevels + 1) := by
  have hValid := hInv.valid cpu
  simp only [WaitsFor] at hWaits
  split at hWaits
  · rename_i endPwrlvl level parentIdx hPc
    rw [hPc] at hValid ⊢
    rcases hValid with ⟨hCpu, hEnd, hLevel, -, hNode⟩
    have hNext : level - 1 + 1 = level := by omega
    simp only [LockPc.heldLevels, hNext]
    refine ⟨hCpu, by omega, ?_⟩
    rw [hWaits.2, hNode]
    rfl
  · exact hWaits.elim

/-
  The CPUs of a deadlock, each at the level it waits at,
  have circular chains.
-/
theorem circularChains_of_deadlocked (hInv : s.Inv p t) (hDead : s.Deadlocked t) :
    CircularChains p t := by
  rcases hDead with ⟨D, hSome, hWait⟩
  refine ⟨D, fun c => (s.pc c).heldLevels + 1, hSome, ?_, ?_, ?_⟩
  · intro c hc
    rcases hWait c hc with ⟨lock, hWaits, -⟩
    rcases waiting_of_inv hInv hWaits with ⟨hCpu, hMax, -⟩
    exact ⟨hCpu, Nat.succ_pos _, hMax⟩
  · intro c hc d hd lvl lvl' hPos hLt hPos' hLt' hEq
    have hLe := Nat.le_of_lt_succ hLt
    have hLe' := Nat.le_of_lt_succ hLt'
    have hC := (hInv.held c (t.lockAt c lvl)).mpr ⟨lvl, hPos, hLe, rfl⟩
    have hD := (hInv.held d (t.lockAt c lvl)).mpr ⟨lvl', hPos', hLe', hEq⟩
    rw [hC] at hD
    have hSame : c = d := Option.some.inj hD
    subst hSame
    refine ⟨rfl, ?_⟩
    by_contra hNe
    rcases Nat.lt_or_gt_of_ne hNe with hLow | hHigh
    · exact hInv.distinct c lvl lvl' hPos hLow hLe' hEq
    · exact hInv.distinct c lvl' lvl hPos' hHigh hLe hEq.symm
  · intro c hc
    rcases hWait c hc with ⟨lock, hWaits, d, hd, hHolds⟩
    rcases waiting_of_inv hInv hWaits with ⟨-, -, hLock⟩
    rcases (hInv.held d lock).mp hHolds with ⟨lvl, hPos, hLe, hEq⟩
    refine ⟨d, hd, lvl, hPos, Nat.lt_succ_of_le hLe, ?_⟩
    rw [← hLock, hEq]

theorem releases_own_of_inv
    {cpu lock : Nat} (hInv : s.Inv p t) (hReleases : s.Releases t cpu lock) :
    s.holder lock = some cpu := by
  have hValid := hInv.valid cpu
  simp only [Releases] at hReleases
  split at hReleases
  · rename_i parentNodes level hPc
    rw [hPc] at hValid
    rcases hValid with ⟨hCpu, endLvl, hEnd, hLe, hNodes⟩
    rw [hReleases.2, hNodes, t.psciGetParentPwrDomainNodes_getD cpu hReleases.1 hLe]
    apply (hInv.held cpu _).mpr
    refine ⟨level, hReleases.1, ?_, rfl⟩
    rw [hPc]
    exact Nat.le_refl level
  · exact hReleases.elim

theorem safe_of_inv (hChains : ¬ CircularChains p t) (hInv : s.Inv p t) :
    s.Safe t := by
  have hInside :
      ∀ cpu endLvl, s.pc cpu = .inside endLvl → ∀ lock, s.holder lock = some cpu ↔
          ∃ lvl, 1 ≤ lvl ∧ lvl ≤ endLvl ∧ lock = t.lockAt cpu lvl := by
    intro cpu endLvl hPc lock
    have hHeld := hInv.held cpu lock
    rw [hPc] at hHeld
    exact hHeld
  refine ⟨?_, ?_, ?_, hInside, ?_⟩
  · intro hDead
    exact hChains (circularChains_of_deadlocked hInv hDead)
  · intro cpu lock hReleases
    exact releases_own_of_inv hInv hReleases
  · intro cpu lock hPc hHeld
    rcases (hInv.held cpu lock).mp hHeld with ⟨lvl, hPos, hLe, -⟩
    rw [hPc] at hLe
    simp only [LockPc.heldLevels] at hLe
    omega
  · intro c d endLvl endLvl' hNe hC hD lvl lvl' hPos hLe hPos' hLe' hEq
    have hHeldC := (hInside c endLvl hC (t.lockAt c lvl)).mpr ⟨lvl, hPos, hLe, rfl⟩
    have hHeldD :=
      (hInside d endLvl' hD (t.lockAt c lvl)).mpr
        ⟨lvl', hPos', hLe', by
          simp only [PowerDomainTree.lockAt, hEq]⟩
    rw [hHeldC] at hHeldD
    exact hNe (Option.some.inj hHeldD)

end LockState

----
-- From Circular Chains To A Deadlock
----

namespace LockState

variable {p : Platform} {t : PowerDomainTree}

/-
  The CPUs of `D` below `count` have climbed to the level at
  which they wait; the others have not called yet.
-/
def Climbed (t : PowerDomainTree) (D : Set Nat) (top : Nat → Nat) (count : Nat)
    (s : LockState) : Prop :=
  ∀ c, (c ∈ D → c < count → s.pc c = .acquiring (top c) (top c) (t.domainAt c (top c))) ∧
    (c ∉ D ∨ count ≤ c → s.pc c = .outside)

theorem step_take {s : LockState} {cpu endLvl level : Nat} (hPos : 1 ≤ level) (hLe : level ≤ endLvl)
    (hPc : s.pc cpu = .acquiring endLvl level (t.domainAt cpu level))
    (hFree : s.holder (t.lockAt cpu level) = none) :
    s.step p t (cpu, .advance) = some ((s.setHolder (t.lockAt cpu level)
        (some cpu)).goto cpu (.acquiring endLvl (level + 1) (t.domainAt cpu (level + 1)))) := by
  rw [t.domainAt_succ cpu level hPos]
  simp only [PowerDomainTree.lockAt] at hFree
  simp only [step, hPc, if_pos hLe, if_pos hFree]
  rfl

variable {top : Nat → Nat}

/-
  A CPU climbs to its level past the CPUs before it, since
  the locks on its way are none of theirs.
-/
theorem climb_one
    {D : Set Nat} {cpu : Nat} (hRange : ∀ c ∈ D, c < p.coreCount ∧ 1 ≤ top c ∧ top c ≤ p.maxPwrLvl)
    (hDistinct :
      ∀ c ∈ D, ∀ d ∈ D, ∀ lvl lvl', 1 ≤ lvl → lvl < top c → 1 ≤ lvl' → lvl' < top d →
          t.lockAt c lvl = t.lockAt d lvl' → c = d ∧ lvl = lvl')
    (hCpu : cpu ∈ D) {s : LockState} (hReach : (lockSystem p t).Reachable s)
    (hClimbed : s.Climbed t D top cpu) (level : Nat) (hPos : 1 ≤ level) (hLe : level ≤ top cpu) :
    ∃ s', (lockSystem p t).Reachable s' ∧
      s'.pc cpu = .acquiring (top cpu) level (t.domainAt cpu level) ∧
      ∀ c, c ≠ cpu → s'.pc c = s.pc c := by
  induction level, hPos using Nat.le_induction with
  | base =>
    refine ⟨_, .next hReach trivial (l := (cpu, .call (top cpu))) ?_, goto_pc_self _ _ _,
      fun c hNe => goto_pc_of_ne hNe⟩
    have hOutside := (hClimbed cpu).2 (Or.inr (Nat.le_refl cpu))
    have hArgs := hRange cpu hCpu
    simp only [lockSystem, TransitionSystem.ofStep, step, hOutside]
    rw [if_pos ⟨hArgs.1, hArgs.2.2⟩]
    rfl
  | succ level hPos ih =>
    rcases ih (by omega) with ⟨s', hReach', hPc, hOther⟩
    have hInv := inv_of_reachable hReach'
    have hFree : s'.holder (t.lockAt cpu level) = none := by
      by_contra hHeld
      rcases Option.ne_none_iff_exists'.mp hHeld with ⟨c, hc⟩
      rcases (hInv.held c _).mp hc with ⟨lvl, hLvl, hHas, hEq⟩
      by_cases hSelf : c = cpu
      · rw [hSelf] at hHas hEq
        rw [hPc] at hHas
        simp only [LockPc.heldLevels] at hHas
        have hSame := hDistinct cpu hCpu cpu hCpu level lvl hPos (by omega) hLvl (by omega) hEq
        omega
      · rw [hOther c hSelf] at hHas
        by_cases hIn : c ∈ D ∧ c < cpu
        · rw [(hClimbed c).1 hIn.1 hIn.2] at hHas
          simp only [LockPc.heldLevels] at hHas
          have hSame := hDistinct cpu hCpu c hIn.1 level lvl hPos (by omega) hLvl (by omega) hEq
          exact hSelf hSame.1.symm
        · have hOut : s.pc c = .outside := by
            apply (hClimbed c).2
            by_cases hMem : c ∈ D
            · exact Or.inr (Nat.le_of_not_lt fun hLt => hIn ⟨hMem, hLt⟩)
            · exact Or.inl hMem
          rw [hOut] at hHas
          simp only [LockPc.heldLevels] at hHas
          omega
    refine ⟨_, .next hReach' trivial (step_take hPos (by omega) hPc hFree), goto_pc_self _ _ _, ?_⟩
    intro c hNe
    rw [goto_pc_of_ne hNe, setHolder_pc, hOther c hNe]

/- All CPUs of `D` climb, one after another. -/
theorem exists_climbed
    {D : Set Nat} (hRange : ∀ c ∈ D, c < p.coreCount ∧ 1 ≤ top c ∧ top c ≤ p.maxPwrLvl)
    (hDistinct :
      ∀ c ∈ D, ∀ d ∈ D, ∀ lvl lvl', 1 ≤ lvl → lvl < top c → 1 ≤ lvl' → lvl' < top d →
          t.lockAt c lvl = t.lockAt d lvl' → c = d ∧ lvl = lvl')
    (count : Nat) :
    ∃ s, (lockSystem p t).Reachable s ∧ s.Climbed t D top count := by
  induction count with
  | zero =>
    refine ⟨initial, .start rfl, fun c => ⟨?_, ?_⟩⟩
    · intro _ hLt
      exact absurd hLt (Nat.not_lt_zero c)
    · intro _
      rfl
  | succ count ih =>
    rcases ih with ⟨s, hReach, hClimbed⟩
    by_cases hCpu : count ∈ D
    · rcases climb_one hRange hDistinct hCpu hReach hClimbed (top count) (hRange count hCpu).2.1
          (Nat.le_refl _) with
        ⟨s', hReach', hPc, hOther⟩
      refine ⟨s', hReach', fun c => ⟨?_, ?_⟩⟩
      · intro hMem hLt
        by_cases hSelf : c = count
        · subst hSelf
          exact hPc
        · rw [hOther c hSelf]
          exact (hClimbed c).1 hMem (by omega)
      · intro hOut
        have hNe : c ≠ count := by
          rintro rfl
          rcases hOut with hNot | hLe
          · exact hNot hCpu
          · omega
        rw [hOther c hNe]
        apply (hClimbed c).2
        rcases hOut with hNot | hLe
        · exact Or.inl hNot
        · exact Or.inr (by omega)
    · refine ⟨s, hReach, fun c => ⟨?_, ?_⟩⟩
      · intro hMem hLt
        have hNe : c ≠ count := by
          rintro rfl
          exact hCpu hMem
        exact (hClimbed c).1 hMem (by omega)
      · intro hOut
        apply (hClimbed c).2
        rcases hOut with hNot | hLe
        · exact Or.inl hNot
        · exact Or.inr (by omega)

/- Circular chains let their CPUs deadlock. -/
theorem exists_deadlocked (hChains : CircularChains p t) :
    ∃ s, (lockSystem p t).Reachable s ∧ s.Deadlocked t := by
  rcases hChains with ⟨D, top, hSome, hRange, hDistinct, hNext⟩
  rcases exists_climbed hRange hDistinct p.coreCount with ⟨s, hReach, hClimbed⟩
  have hInv := inv_of_reachable hReach
  have hPc : ∀ c ∈ D, s.pc c = .acquiring (top c) (top c) (t.domainAt c (top c)) :=
    fun c hc => (hClimbed c).1 hc (hRange c hc).1
  refine ⟨s, hReach, D, hSome, ?_⟩
  intro c hc
  rcases hNext c hc with ⟨d, hd, lvl, hPos, hLt, hEq⟩
  refine ⟨t.lockAt c (top c), ?_, d, hd, ?_⟩
  · simp only [WaitsFor, hPc c hc]
    exact ⟨Nat.le_refl _, rfl⟩
  · apply (hInv.held d _).mpr
    refine ⟨lvl, hPos, ?_, hEq⟩
    rw [hPc d hd]
    simp only [LockPc.heldLevels]
    omega

end LockState

----
-- Trees Without Circular Chains
----

----
-- Main Results
----

/-
  The locks of a tree are safe in every run exactly when the
  tree has no circular chains.
-/
theorem psci_domain_locks_safe_iff (p : Platform) (t : PowerDomainTree) :
    (∀ s, (lockSystem p t).Reachable s → s.Safe t) ↔ ¬ CircularChains p t := by
  constructor
  · intro hSafe hChains
    rcases LockState.exists_deadlocked hChains with ⟨s, hReach, hDead⟩
    exact (hSafe s hReach).no_deadlock hDead
  · intro hChains s hReach
    exact LockState.safe_of_inv hChains (LockState.inv_of_reachable hReach)

/-
  One system node, one node below it with 255 clusters of
  one core each.  The last cluster is node 256.
-/
def manyClusters : Platform where
  maxPwrLvl := 3
  maxRetState := 1
  maxOffState := 2
  coreCount := 255
  numNonCpuPwrDomains := 257
  topology := [1, 1, 255] ++ List.replicate 255 1
  maxPwrLvl_le := by decide
  ret_lt_off := Nat.one_lt_two
  off_lt_byte := two_lt_byte
  domains_lt_word := by decide
  topology_lt_byte := by decide +kernel

/-
  Node 256 shares lock 0 with the root, so the last CPU
  waits for itself.
-/
theorem psci_domain_locks_self_deadlock :
    ∃ t, psciSetupTree manyClusters = some t ∧
      ∃ s, (lockSystem manyClusters t).Reachable s ∧ s.Deadlocked t := by
  have hBuild :
      (psciSetupTree manyClusters).any (fun t =>
        decide (t.lockAt 254 1 = 0 ∧ t.lockAt 254 2 = 1 ∧ t.lockAt 254 3 = 0)) = true := by
    decide +kernel
  rcases Option.any_eq_true_iff_get _ _ |>.mp hBuild with ⟨hDone, hLocks⟩
  have hLocks := of_decide_eq_true hLocks
  refine ⟨_, (Option.some_get hDone).symm, ?_⟩
  apply LockState.exists_deadlocked
  refine ⟨{254}, fun _ => 3, ⟨254, rfl⟩, ?_, ?_, ?_⟩
  · rintro c rfl
    decide
  · rintro c rfl d rfl lvl lvl' hPos hLt hPos' hLt' hEq
    have hCases : (lvl = 1 ∨ lvl = 2) ∧ (lvl' = 1 ∨ lvl' = 2) := by
      simp only at hLt hLt'
      omega
    rcases hCases with ⟨rfl | rfl, rfl | rfl⟩
    · exact ⟨rfl, rfl⟩
    · rw [hLocks.1, hLocks.2.1] at hEq
      exact absurd hEq (by decide)
    · rw [hLocks.1, hLocks.2.1] at hEq
      exact absurd hEq (by decide)
    · exact ⟨rfl, rfl⟩
  · rintro c rfl
    exact ⟨254, rfl, 1, by decide, by decide, hLocks.2.2.trans hLocks.1.symm⟩

end Tfa.Psci
