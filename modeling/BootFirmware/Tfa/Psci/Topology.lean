import Mathlib.Data.List.Basic
import Mathlib.Data.Nat.Basic
import Mathlib.Logic.Function.Basic
import Mathlib.Tactic.Ring

/-
  The power-domain tree that `psci_setup` builds from the
  platform's topology description.

  `populatePowerDomainTree` fills the node arrays in breadth
  first order and `psciUpdatePwrlvlLimits` derives the range
  of CPUs below every node.  The results used elsewhere are
  collected in `PowerDomainTree.WellFormed`: the chain of
  parents of a CPU climbs one level at a time, and the CPUs
  below a node are exactly those in its range.

  Key definitions include:
    * `Platform`
    * `PowerDomainTree`
    * `populatePowerDomainTree`
    * `psciUpdatePwrlvlLimits`
    * `psciSetupTree`
    * `PowerDomainTree.domainAt`
    * `PowerDomainTree.WellFormed`

  The main result is:
    * `psciSetupTree_wellFormed`
-/

----
-- Platform Constants
----

namespace Tfa.Psci

open List Option

/-
  The constants a platform port provides, with the
  compile-time assertions of `psci_common.c` on them.
-/
structure Platform where
  maxPwrLvl : Nat
  maxRetState : Nat
  maxOffState : Nat
  coreCount : Nat
  numNonCpuPwrDomains : Nat
  topology : List Nat
  maxPwrLvl_le : maxPwrLvl ≤ 3
  ret_lt_off : maxRetState < maxOffState
  off_lt_byte : maxOffState < 2 ^ 8
  domains_lt_word : numNonCpuPwrDomains < 2 ^ 32
  topology_lt_byte : ∀ entry ∈ topology, entry < 2 ^ 8

-- The bounds of a platform with systems, clusters and CPUs
theorem two_le_three : 2 ≤ 3 := by
  decide

theorem two_lt_byte : 2 < 2 ^ 8 := by
  decide

theorem three_lt_word : 3 < 2 ^ 32 := by
  decide

/- `PSCI_CPU_PWR_LVL`. -/
def psciCpuPwrLvl : Nat := 0

/-
  The fields of `non_cpu_pd_node_t` that `psci_setup` writes
  while it populates the tree.
-/
structure NonCpuPdNode where
  parentNode : Nat
  level : Nat
  lockIndex : Nat
  deriving DecidableEq, Inhabited

/-
  The node arrays.  An array that is written at consecutive
  indices from 0 is the list of what was written; the CPU
  range of a node is indexed by the node.
-/
structure PowerDomainTree where
  nonCpuPdNodes : List NonCpuPdNode
  cpuParentNode : List Nat
  cpuStartIdx : Nat → Nat
  ncpus : Nat → Nat

----
-- Populating The Tree
----

/- The node arrays while the tree is being populated. -/
structure TreeBuild where
  nonCpuPdNodes : List NonCpuPdNode
  cpuParentNode : List Nat
  parentNodeIndex : Nat
  deriving DecidableEq

namespace TreeBuild

/- `parent_node_index - 1` in 32-bit unsigned arithmetic. -/
def parentIdx (b : TreeBuild) : Nat :=
  (b.parentNodeIndex + 2 ^ 32 - 1) % 2 ^ 32

/-
  `psci_init_pwr_domain_node` at the next free index.  The
  lock index is an `unsigned char`.  `none` is a write past
  the end of an array.
-/
def psciInitPwrDomainNode (p : Platform) (level : Nat)
    (b : TreeBuild) : Option TreeBuild :=
  let nodeIdx := b.nonCpuPdNodes.length
  if level > psciCpuPwrLvl then
    if nodeIdx < p.numNonCpuPwrDomains then
      some
        { b with
          nonCpuPdNodes :=
            b.nonCpuPdNodes ++
              [{ parentNode := b.parentIdx, level := level, lockIndex := nodeIdx % 2 ^ 8 }] }
    else
      none
  else if b.cpuParentNode.length < p.coreCount then
    some
      { b with
        cpuParentNode := b.cpuParentNode ++ [b.parentIdx] }
  else
    none

/- The inner loop: one node for each child. -/
def addChildren (p : Platform) (level : Nat) :
    Nat → TreeBuild → Option TreeBuild
  | 0, b => some b
  | numChildren + 1, b => (b.psciInitPwrDomainNode p level).bind (addChildren p level numChildren)

/-
  The middle loop: one topology entry for each parent.  The
  second component accumulates the number of nodes at the
  next level.
-/
def addLevel (p : Platform) (level : Nat) :
    Nat → TreeBuild → Nat → Option (TreeBuild × Nat)
  | 0, b, numNodesAtNextLvl => some (b, numNodesAtNextLvl)
  | numNodes + 1, b, numNodesAtNextLvl =>
    if b.parentNodeIndex ≤ p.numNonCpuPwrDomains then
      match p.topology[b.parentNodeIndex]? with
      | none => none
      | some numChildren =>
        (b.addChildren p level numChildren).bind
          fun b =>
            addLevel p level numNodes
              { b with
                parentNodeIndex := b.parentNodeIndex + 1 }
              (numNodesAtNextLvl + numChildren)
    else
      none

/-
  The outer loop, from level `remaining - 1` down to the CPU
  level.
-/
def addLevels (p : Platform) :
    Nat → TreeBuild → Nat → Option TreeBuild
  | 0, b, _ => some b
  | level + 1, b, numNodesAtLvl =>
    (b.addLevel p level numNodesAtLvl 0).bind
      fun result => addLevels p level result.1 result.2

end TreeBuild

/-
  `populate_power_domain_tree`.  The closing assertion is on
  the loop's `j`, which counts the CPU nodes unless no node
  is above them; a topology without CPUs is `none` here.
-/
def populatePowerDomainTree (p : Platform) : Option TreeBuild :=
  (TreeBuild.addLevels p (p.maxPwrLvl + 1)
    { nonCpuPdNodes := []
      cpuParentNode := []
      parentNodeIndex := 0 } 1).bind
    fun b =>
      if b.cpuParentNode.length = p.coreCount then some b
      else none

----
-- CPU Ranges
----

/-
  The node at a level `steps + 1` on the way up from a CPU,
  as `psci_get_parent_pwr_domain_nodes` finds it.
-/
def climb (nodes : List NonCpuPdNode) (parents : List Nat)
    (cpuIdx : Nat) : Nat → Nat
  | 0 => parents.getD cpuIdx 0
  | steps + 1 => (nodes.getD (climb nodes parents cpuIdx steps) default).parentNode

/- The local variables of `psci_update_pwrlvl_limits`. -/
structure Limits where
  nodesIdx : Nat → Nat
  cpuStartIdx : Nat → Nat
  ncpus : Nat → Nat

namespace Limits

/- The body of the inner loop, for the array index `j`. -/
def update (cpuIdx node j : Nat)
    (x : Limits) : Limits :=
  let x :=
    if node ≠ x.nodesIdx j then
      { x with
        nodesIdx := Function.update x.nodesIdx j node
        cpuStartIdx := Function.update x.cpuStartIdx node cpuIdx }
    else
      x
  { x with
    ncpus := Function.update x.ncpus (x.nodesIdx j) (x.ncpus (x.nodesIdx j) + 1) }

/- The inner loop, from index `j - 1` down to 0. -/
def updateChain (cpuIdx : Nat) (chain : Nat → Nat) :
    Nat → Limits → Limits
  | 0, x => x
  | j + 1, x => updateChain cpuIdx chain j (x.update cpuIdx (chain j) j)

/- The outer loop over the first `count` CPUs. -/
def updateCpus (maxPwrLvl : Nat) (chain : Nat → Nat → Nat) :
    Nat → Limits → Limits
  | 0, x => x
  | count + 1, x => updateChain count (chain count) maxPwrLvl (updateCpus maxPwrLvl chain count x)

end Limits

/- `psci_update_pwrlvl_limits`, from zeroed arrays. -/
def psciUpdatePwrlvlLimits (p : Platform)
    (b : TreeBuild) : Limits :=
  Limits.updateCpus p.maxPwrLvl (climb b.nonCpuPdNodes b.cpuParentNode) p.coreCount
    { nodesIdx := fun _ => 0
      cpuStartIdx := fun _ => 0
      ncpus := fun _ => 0 }

/- The tree that `psci_setup` leaves behind. -/
def psciSetupTree (p : Platform) : Option PowerDomainTree :=
  (populatePowerDomainTree p).map fun b =>
    let limits := psciUpdatePwrlvlLimits p b
    { nonCpuPdNodes := b.nonCpuPdNodes
      cpuParentNode := b.cpuParentNode
      cpuStartIdx := limits.cpuStartIdx
      ncpus := limits.ncpus }

namespace PowerDomainTree

/- The ancestor of a CPU at level `lvl`, for `1 ≤ lvl`. -/
def domainAt (t : PowerDomainTree)
    (cpuIdx lvl : Nat) : Nat :=
  climb t.nonCpuPdNodes t.cpuParentNode cpuIdx (lvl - 1)

/- The level of a node. -/
def levelOf (t : PowerDomainTree) (node : Nat) : Nat :=
  (t.nonCpuPdNodes.getD node default).level

/- The lock index of a node. -/
def lockIndexOf (t : PowerDomainTree) (node : Nat) : Nat :=
  (t.nonCpuPdNodes.getD node default).lockIndex

/- `parent_node` of a non-CPU node. -/
def parentOf (t : PowerDomainTree) (node : Nat) : Nat :=
  (t.nonCpuPdNodes.getD node default).parentNode

/- `parent_node` of a CPU node. -/
def cpuParentOf (t : PowerDomainTree) (cpuIdx : Nat) : Nat :=
  t.cpuParentNode.getD cpuIdx 0

end PowerDomainTree

----
-- Shape Of The Populated Arrays
----

/- Reading below and at the end of an extended array. -/
theorem getD_append_below {α : Type} {xs : List α} {x d : α} {i : Nat} (hLt : i < xs.length) :
    (xs ++ [x]).getD i d = xs.getD i d := by
  simp [List.getD, getElem?_append_left hLt]

theorem getD_append_end {α : Type} (xs : List α) (x d : α) :
    (xs ++ [x]).getD xs.length d = x := by
  simp [List.getD]

/-
  The non-CPU nodes lie in order of decreasing level, every
  node below the top points one level up, and the parents
  within a level ascend.
-/
structure NodesOk
    (maxPwrLvl : Nat)
    (nodes : List NonCpuPdNode) : Prop where
  level_pos : ∀ i < nodes.length, 0 < (nodes.getD i default).level
  level_le : ∀ i < nodes.length, (nodes.getD i default).level ≤ maxPwrLvl
  lockIndex : ∀ i < nodes.length, (nodes.getD i default).lockIndex = i % 2 ^ 8
  parent_lt :
    ∀ i < nodes.length,
      (nodes.getD i default).level < maxPwrLvl → (nodes.getD i default).parentNode < nodes.length
  parent_level :
    ∀ i < nodes.length, (nodes.getD i default).level < maxPwrLvl →
        (nodes.getD (nodes.getD i default).parentNode default).level =
          (nodes.getD i default).level + 1
  parent_mono :
    ∀ i j, i ≤ j → j < nodes.length → (nodes.getD i default).level = (nodes.getD j default).level →
      (nodes.getD j default).level < maxPwrLvl →
        (nodes.getD i default).parentNode ≤ (nodes.getD j default).parentNode

/- The CPUs hang below level-1 nodes, in order. -/
structure CpusOk
    (maxPwrLvl : Nat) (nodes : List NonCpuPdNode)
    (parents : List Nat) : Prop where
  parent_lt : 0 < maxPwrLvl → ∀ c < parents.length, parents.getD c 0 < nodes.length
  parent_level :
    0 < maxPwrLvl → ∀ c < parents.length, (nodes.getD (parents.getD c 0) default).level = 1
  parent_mono :
    0 < maxPwrLvl → ∀ c d, c ≤ d → d < parents.length → parents.getD c 0 ≤ parents.getD d 0

/-
  The state of the loops while a level is populated.  The
  parents of this level are the nodes from `first` up to
  `base`; the nodes of this level start at `base`.
-/
structure LevelInv
    (p : Platform) (level first base : Nat) (b : TreeBuild)
    (next : Nat) : Prop where
  nodes : NodesOk p.maxPwrLvl b.nonCpuPdNodes
  cpus : CpusOk p.maxPwrLvl b.nonCpuPdNodes b.cpuParentNode
  base_le : base ≤ b.nonCpuPdNodes.length
  fits : b.nonCpuPdNodes.length ≤ p.numNonCpuPwrDomains
  above : ∀ i < base, level < (b.nonCpuPdNodes.getD i default).level
  parents : ∀ i, first ≤ i → i < base → (b.nonCpuPdNodes.getD i default).level = level + 1
  here : ∀ i, base ≤ i → i < b.nonCpuPdNodes.length → (b.nonCpuPdNodes.getD i default).level = level
  node_parent :
    level < p.maxPwrLvl → ∀ i, base ≤ i → i < b.nonCpuPdNodes.length →
        (b.nonCpuPdNodes.getD i default).parentNode < b.parentNodeIndex
  cpu_parent :
    0 < p.maxPwrLvl → ∀ c < b.cpuParentNode.length, b.cpuParentNode.getD c 0 < b.parentNodeIndex
  index : level < p.maxPwrLvl → first < b.parentNodeIndex
  count : 0 < level → b.nonCpuPdNodes.length = base + next
  no_cpus : 0 < level → b.cpuParentNode = []

namespace LevelInv

variable {p : Platform}
variable {level first base next : Nat}
variable {b b' : TreeBuild}

theorem parentIdx_eq (hInv : LevelInv p level first base b next)
    (hOpen : level < p.maxPwrLvl → b.parentNodeIndex ≤ base) (hLevel : level < p.maxPwrLvl) :
    b.parentIdx = b.parentNodeIndex - 1 := by
  have hPos := hInv.index hLevel
  have hBase := hInv.base_le
  have hFits := hInv.fits
  have hWord := p.domains_lt_word
  have hSplit : b.parentNodeIndex + 2 ^ 32 - 1 = (b.parentNodeIndex - 1) + 2 ^ 32 := by omega
  rw [TreeBuild.parentIdx, hSplit, Nat.add_mod_right, Nat.mod_eq_of_lt (by omega)]

/- Appending a node of this level keeps the node order. -/
theorem nodesOk_append (hInv : LevelInv p level first base b next)
    (hOpen : level < p.maxPwrLvl → b.parentNodeIndex ≤ base)
    (hPos : 0 < level) (hLe : level ≤ p.maxPwrLvl) :
    NodesOk p.maxPwrLvl
      (b.nonCpuPdNodes ++
        [{ parentNode := b.parentIdx, level := level, lockIndex := b.nonCpuPdNodes.length % 2 ^ 8 }])
      := by
  have hNodes := hInv.nodes
  have hBase := hInv.base_le
  -- an index is either an old one or the new last one
  have hSplit :
      ∀ {i : Nat} {x : NonCpuPdNode}, i < (b.nonCpuPdNodes ++ [x]).length →
          i < b.nonCpuPdNodes.length ∨ i = b.nonCpuPdNodes.length := by
    intro i x hi
    simp only [length_append, length_singleton] at hi
    omega
  refine ⟨?_, ?_, ?_, ?_, ?_, ?_⟩
  · intro i hi
    rcases hSplit hi with hOld | rfl
    · rw [getD_append_below hOld]
      exact hNodes.level_pos i hOld
    · rw [getD_append_end]
      exact hPos
  · intro i hi
    rcases hSplit hi with hOld | rfl
    · rw [getD_append_below hOld]
      exact hNodes.level_le i hOld
    · rw [getD_append_end]
      exact hLe
  · intro i hi
    rcases hSplit hi with hOld | rfl
    · rw [getD_append_below hOld]
      exact hNodes.lockIndex i hOld
    · rw [getD_append_end]
  · intro i hi hLevel
    rw [length_append, length_singleton]
    rcases hSplit hi with hOld | rfl
    · rw [getD_append_below hOld] at hLevel ⊢
      have hParent := hNodes.parent_lt i hOld hLevel
      omega
    · rw [getD_append_end] at hLevel ⊢
      have hIdx := hInv.parentIdx_eq hOpen hLevel
      have hIndex := hOpen hLevel
      simp only [hIdx]
      omega
  · intro i hi hLevel
    rcases hSplit hi with hOld | rfl
    · rw [getD_append_below hOld] at hLevel ⊢
      rw [getD_append_below (hNodes.parent_lt i hOld hLevel)]
      exact hNodes.parent_level i hOld hLevel
    · rw [getD_append_end] at hLevel ⊢
      have hIdx := hInv.parentIdx_eq hOpen hLevel
      have hIndex := hOpen hLevel
      have hFirst := hInv.index hLevel
      simp only [hIdx]
      rw [getD_append_below (by omega)]
      exact hInv.parents _ (by omega) (by omega)
  · intro i j hij hj hEq hLevel
    rcases hSplit hj with hOld | rfl
    · have hOldI : i < b.nonCpuPdNodes.length := by omega
      rw [getD_append_below hOld] at hLevel hEq ⊢
      rw [getD_append_below hOldI] at hEq ⊢
      exact hNodes.parent_mono i j hij hOld hEq hLevel
    · rw [getD_append_end] at hLevel hEq ⊢
      have hIdx := hInv.parentIdx_eq hOpen hLevel
      rcases Nat.lt_or_eq_of_le hij with hLt | rfl
      · rw [getD_append_below hLt] at hEq ⊢
        -- a node of the same level was added in this round
        have hHere : base ≤ i := by
          by_contra hBelow
          have hAbove := hInv.above i (by omega)
          simp only at hEq
          omega
        have hParent := hInv.node_parent hLevel i hHere hLt
        simp only [hIdx]
        omega
      · rw [getD_append_end]

theorem cpusOk_append
    (hInv : LevelInv p 0 first base b next) (hOpen : 0 < p.maxPwrLvl → b.parentNodeIndex ≤ base) :
    CpusOk p.maxPwrLvl b.nonCpuPdNodes (b.cpuParentNode ++ [b.parentIdx]) := by
  have hCpus := hInv.cpus
  have hBase := hInv.base_le
  have hSplit :
      ∀ {c x : Nat}, c < (b.cpuParentNode ++ [x]).length →
          c < b.cpuParentNode.length ∨ c = b.cpuParentNode.length := by
    intro c x hc
    simp only [length_append, length_singleton] at hc
    omega
  refine ⟨?_, ?_, ?_⟩
  · intro hTop c hc
    rcases hSplit hc with hOld | rfl
    · rw [getD_append_below hOld]
      exact hCpus.parent_lt hTop c hOld
    · rw [getD_append_end, hInv.parentIdx_eq hOpen hTop]
      have hFirst := hInv.index hTop
      omega
  · intro hTop c hc
    rcases hSplit hc with hOld | rfl
    · rw [getD_append_below hOld]
      exact hCpus.parent_level hTop c hOld
    · rw [getD_append_end, hInv.parentIdx_eq hOpen hTop]
      have hFirst := hInv.index hTop
      exact hInv.parents _ (by omega) (by omega)
  · intro hTop c d hcd hd
    rcases hSplit hd with hOld | rfl
    · rw [getD_append_below hOld, getD_append_below (by omega)]
      exact hCpus.parent_mono hTop c d hcd hOld
    · rw [getD_append_end]
      rcases Nat.lt_or_eq_of_le hcd with hLt | rfl
      · rw [getD_append_below hLt, hInv.parentIdx_eq hOpen hTop]
        have hParent := hInv.cpu_parent hTop c hLt
        omega
      · rw [getD_append_end]

/- Facts about old nodes survive an append. -/
theorem cpusOk_of_append {maxPwrLvl : Nat} {nodes : List NonCpuPdNode} {x : NonCpuPdNode} :
    CpusOk maxPwrLvl (nodes ++ [x]) [] := by
  refine ⟨?_, ?_, ?_⟩
  · intro _ c hc
    exact absurd hc (Nat.not_lt_zero c)
  · intro _ c hc
    exact absurd hc (Nat.not_lt_zero c)
  · intro _ _ d _ hd
    exact absurd hd (Nat.not_lt_zero d)

/- One non-CPU node more keeps the loop invariant. -/
theorem append_node (hInv : LevelInv p level first base b next)
    (hOpen : level < p.maxPwrLvl → b.parentNodeIndex ≤ base)
    (hPos : 0 < level) (hLe : level ≤ p.maxPwrLvl)
    (hRoom : b.nonCpuPdNodes.length < p.numNonCpuPwrDomains) :
    LevelInv p level first base
      { b with
        nonCpuPdNodes :=
          b.nonCpuPdNodes ++
            [{ parentNode := b.parentIdx, level := level, lockIndex := b.nonCpuPdNodes.length % 2 ^ 8 }] }
      (next + 1) := by
  have hBase := hInv.base_le
  refine
    { nodes := hInv.nodesOk_append hOpen hPos hLe
      cpus := ?_
      base_le := ?_
      fits := ?_
      above := ?_
      parents := ?_
      here := ?_
      node_parent := ?_
      cpu_parent := hInv.cpu_parent
      index := hInv.index
      count := ?_
      no_cpus := hInv.no_cpus }
  · simp only [hInv.no_cpus hPos]
    exact cpusOk_of_append
  · simp only [length_append, length_singleton]
    omega
  · simp only [length_append, length_singleton]
    omega
  · intro i hi
    rw [getD_append_below (by omega)]
    exact hInv.above i hi
  · intro i hFirst hi
    rw [getD_append_below (by omega)]
    exact hInv.parents i hFirst hi
  · intro i hHere hi
    simp only [length_append, length_singleton] at hi
    rcases Nat.lt_or_eq_of_le (Nat.le_of_lt_succ hi) with
      hOld | rfl
    · rw [getD_append_below hOld]
      exact hInv.here i hHere hOld
    · rw [getD_append_end]
  · intro hLevel i hHere hi
    simp only [length_append, length_singleton] at hi
    rcases Nat.lt_or_eq_of_le (Nat.le_of_lt_succ hi) with
      hOld | rfl
    · rw [getD_append_below hOld]
      exact hInv.node_parent hLevel i hHere hOld
    · rw [getD_append_end]
      have hIdx := hInv.parentIdx_eq hOpen hLevel
      have hFirst := hInv.index hLevel
      simp only [hIdx]
      omega
  · intro _
    have hCount := hInv.count hPos
    simp only [length_append, length_singleton]
    omega

/- One CPU more keeps the loop invariant. -/
theorem append_cpu
    (hInv : LevelInv p 0 first base b next) (hOpen : 0 < p.maxPwrLvl → b.parentNodeIndex ≤ base) :
    LevelInv p 0 first base
      { b with
        cpuParentNode := b.cpuParentNode ++ [b.parentIdx] }
      (next + 1) := by
  refine
    { nodes := hInv.nodes
      cpus := hInv.cpusOk_append hOpen
      base_le := hInv.base_le
      fits := hInv.fits
      above := hInv.above
      parents := hInv.parents
      here := hInv.here
      node_parent := hInv.node_parent
      cpu_parent := ?_
      index := hInv.index
      count := fun h => absurd h (Nat.lt_irrefl 0)
      no_cpus := fun h => absurd h (Nat.lt_irrefl 0) }
  intro hTop c hc
  simp only [length_append, length_singleton] at hc
  rcases Nat.lt_or_eq_of_le (Nat.le_of_lt_succ hc) with
    hOld | rfl
  · rw [getD_append_below hOld]
    exact hInv.cpu_parent hTop c hOld
  · rw [getD_append_end, hInv.parentIdx_eq hOpen hTop]
    have hFirst := hInv.index hTop
    simp only
    omega

section

variable (hInv : LevelInv p level first base b next)
include hInv

/- Initialising one node keeps the loop invariant. -/
theorem init_node
    (hOpen : level < p.maxPwrLvl → b.parentNodeIndex ≤ base) (hLe : level ≤ p.maxPwrLvl)
    (hInit : b.psciInitPwrDomainNode p level = some b') :
    b'.parentNodeIndex = b.parentNodeIndex ∧ LevelInv p level first base b' (next + 1) := by
  simp only [TreeBuild.psciInitPwrDomainNode] at hInit
  split at hInit
  · rename_i hPos
    split at hInit
    · rename_i hRoom
      cases Option.some.inj hInit
      exact ⟨rfl, hInv.append_node hOpen hPos hLe hRoom⟩
    · cases hInit
  · rename_i hPos
    split at hInit
    · have hZero : level = 0 := Nat.eq_zero_of_not_pos hPos
      subst hZero
      cases Option.some.inj hInit
      exact ⟨rfl, hInv.append_cpu hOpen⟩
    · cases hInit

theorem addChildren {numChildren : Nat}
    (hOpen : level < p.maxPwrLvl → b.parentNodeIndex ≤ base) (hLe : level ≤ p.maxPwrLvl)
    (hAdd : b.addChildren p level numChildren = some b') :
    b'.parentNodeIndex = b.parentNodeIndex ∧
      LevelInv p level first base b' (next + numChildren) := by
  induction numChildren generalizing b next with
  | zero =>
    cases Option.some.inj hAdd
    exact ⟨rfl, hInv⟩
  | succ numChildren ih =>
    rcases bind_eq_some_iff.mp hAdd with ⟨mid, hMid, hRest⟩
    rcases hInv.init_node hOpen hLe hMid with ⟨hIndex, hInvMid⟩
    rw [← hIndex] at hOpen ⊢
    rcases ih hInvMid hOpen hRest with ⟨hEq, hInv'⟩
    refine ⟨hEq, ?_⟩
    have hSum :
        next + (numChildren + 1) = next + 1 + numChildren := by
      omega
    rw [hSum]
    exact hInv'

theorem advance :
    LevelInv p level first base
      { b with
        parentNodeIndex := b.parentNodeIndex + 1 }
      next where
  nodes := hInv.nodes
  cpus := hInv.cpus
  base_le := hInv.base_le
  fits := hInv.fits
  above := hInv.above
  parents := hInv.parents
  here := hInv.here
  node_parent := fun hLevel i hHere hi => Nat.lt_succ_of_lt (hInv.node_parent hLevel i hHere hi)
  cpu_parent := fun hTop c hc => Nat.lt_succ_of_lt (hInv.cpu_parent hTop c hc)
  index := fun hLevel => Nat.lt_succ_of_lt (hInv.index hLevel)
  count := hInv.count
  no_cpus := hInv.no_cpus

theorem addLevel
    {numNodes next' : Nat} (hOpen : level < p.maxPwrLvl → b.parentNodeIndex + numNodes ≤ base + 1)
    (hLe : level ≤ p.maxPwrLvl) (hAdd : b.addLevel p level numNodes next = some (b', next')) :
    b'.parentNodeIndex = b.parentNodeIndex + numNodes ∧ LevelInv p level first base b' next' := by
  induction numNodes generalizing b next with
  | zero =>
    rcases hAdd with ⟨rfl, rfl⟩
    exact ⟨rfl, hInv⟩
  | succ numNodes ih =>
    unfold TreeBuild.addLevel at hAdd
    split at hAdd
    · split at hAdd
      · cases hAdd
      · rcases bind_eq_some_iff.mp hAdd with ⟨mid, hMid, hRest⟩
        have hOpenNow : level < p.maxPwrLvl → b.parentNodeIndex ≤ base := by
          intro hLevel
          omega
        rcases hInv.addChildren hOpenNow hLe hMid with ⟨hIndex, hInvMid⟩
        have hOpenNext : level < p.maxPwrLvl → mid.parentNodeIndex + 1 + numNodes ≤ base + 1 := by
          intro hLevel
          omega
        rcases ih hInvMid.advance hOpenNext hRest with ⟨hEq, hInv'⟩
        refine ⟨?_, hInv'⟩
        simp only [hIndex] at hEq
        omega
    · cases hAdd

end

/- The loops enter the next level down. -/
theorem descend
    (hInv : LevelInv p (level + 1) first base b next) (hIndex : b.parentNodeIndex = base + 1) :
    LevelInv p level base b.nonCpuPdNodes.length b 0 where
  nodes := hInv.nodes
  cpus := hInv.cpus
  base_le := Nat.le_refl _
  fits := hInv.fits
  above := by
    intro i hi
    by_cases hBelow : i < base
    · have hAbove := hInv.above i hBelow
      omega
    · have hHere := hInv.here i (by omega) hi
      omega
  parents := hInv.here
  here := fun i hLe hLt => absurd hLt (Nat.not_lt.mpr hLe)
  node_parent := fun _ i hLe hLt => absurd hLt (Nat.not_lt.mpr hLe)
  cpu_parent := by
    intro _ c hc
    rw [hInv.no_cpus (Nat.succ_pos level)] at hc
    exact absurd hc (Nat.not_lt_zero c)
  index := by
    intro _
    omega
  count := fun _ => rfl
  no_cpus := fun _ => hInv.no_cpus (Nat.succ_pos level)

theorem addLevels {level numNodes first base : Nat} {b b' : TreeBuild}
    (hInv : LevelInv p level first base b 0) (hLe : level ≤ p.maxPwrLvl)
    (hNext : b.parentNodeIndex + numNodes = base + 1)
    (hAdd : TreeBuild.addLevels p (level + 1) b numNodes = some b') :
    NodesOk p.maxPwrLvl b'.nonCpuPdNodes ∧
      CpusOk p.maxPwrLvl b'.nonCpuPdNodes b'.cpuParentNode := by
  induction level generalizing numNodes first base b with
  | zero =>
    rcases bind_eq_some_iff.mp hAdd with ⟨⟨mid, next⟩, hMid, hRest⟩
    rcases hInv.addLevel (fun _ => hNext.le) hLe hMid with ⟨_, hInvMid⟩
    cases Option.some.inj hRest
    exact ⟨hInvMid.nodes, hInvMid.cpus⟩
  | succ level ih =>
    rcases bind_eq_some_iff.mp hAdd with ⟨⟨mid, next⟩, hMid, hRest⟩
    rcases hInv.addLevel (fun _ => hNext.le) hLe hMid with ⟨hIndex, hInvMid⟩
    have hIndexMid : mid.parentNodeIndex = base + 1 := by omega
    have hCount := hInvMid.count (Nat.succ_pos level)
    refine ih (hInvMid.descend hIndexMid) (by omega) ?_ hRest
    simp only
    omega

end LevelInv

/- The arrays that the platform's topology gives rise to. -/
theorem populatePowerDomainTree_ok
    {p : Platform} {b : TreeBuild} (hBuild : populatePowerDomainTree p = some b) :
    NodesOk p.maxPwrLvl b.nonCpuPdNodes ∧ CpusOk p.maxPwrLvl b.nonCpuPdNodes b.cpuParentNode ∧
      b.cpuParentNode.length = p.coreCount := by
  rcases bind_eq_some_iff.mp hBuild with ⟨built, hLevels, hAssert⟩
  split at hAssert
  · rename_i hCores
    cases Option.some.inj hAssert
    have hStart :
        LevelInv p p.maxPwrLvl 0 0
          { nonCpuPdNodes := []
            cpuParentNode := []
            parentNodeIndex := 0 } 0 := by
      constructor <;> try simp
      · constructor <;> simp
      · constructor <;> simp
    have hOk := hStart.addLevels (Nat.le_refl _) rfl hLevels
    exact ⟨hOk.1, hOk.2, hCores⟩
  · cases hAssert

----
-- Climbing From A CPU
----

section Climb

variable {maxPwrLvl : Nat}
variable {nodes : List NonCpuPdNode}
variable {parents : List Nat}

section

variable (hNodes : NodesOk maxPwrLvl nodes) (hCpus : CpusOk maxPwrLvl nodes parents)
include hNodes hCpus

theorem climb_ok {c steps : Nat} (hc : c < parents.length) (hSteps : steps < maxPwrLvl) :
    climb nodes parents c steps < nodes.length ∧
      (nodes.getD (climb nodes parents c steps) default).level = steps + 1 := by
  induction steps with
  | zero => exact ⟨hCpus.parent_lt hSteps c hc, hCpus.parent_level hSteps c hc⟩
  | succ steps ih =>
    rcases ih (by omega) with ⟨hLt, hLevel⟩
    have hBelow : (nodes.getD (climb nodes parents c steps) default).level < maxPwrLvl := by omega
    refine ⟨hNodes.parent_lt _ hLt hBelow, ?_⟩
    rw [climb, hNodes.parent_level _ hLt hBelow, hLevel]

/- Neighbouring CPUs have neighbouring ancestors. -/
theorem climb_mono
    {c d steps : Nat} (hcd : c ≤ d) (hd : d < parents.length) (hSteps : steps < maxPwrLvl) :
    climb nodes parents c steps ≤ climb nodes parents d steps := by
  induction steps with
  | zero => exact hCpus.parent_mono hSteps c d hcd hd
  | succ steps ih =>
    have hC := climb_ok hNodes hCpus (lt_of_le_of_lt hcd hd) (show steps < maxPwrLvl by omega)
    have hD := climb_ok hNodes hCpus hd (show steps < maxPwrLvl by omega)
    refine hNodes.parent_mono _ _ (ih (by omega)) hD.1 ?_
      ?_
    · rw [hC.2, hD.2]
    · omega

theorem climb_level_inj {c d j k : Nat}
    (hc : c < parents.length) (hd : d < parents.length) (hj : j < maxPwrLvl) (hk : k < maxPwrLvl)
    (hEq : climb nodes parents c j = climb nodes parents d k) :
    j = k := by
  have hC := (climb_ok hNodes hCpus hc hj).2
  have hD := (climb_ok hNodes hCpus hd hk).2
  rw [hEq] at hC
  omega

end

end Climb

----
-- Correctness Of The CPU Ranges
----

namespace Limits

section

variable (cpuIdx node j : Nat)

/- After the body the array holds the visited node. -/
theorem update_nodesIdx (x : Limits) :
    (x.update cpuIdx node j).nodesIdx = Function.update x.nodesIdx j node := by
  unfold update
  by_cases hEq : node = x.nodesIdx j
  · simp [hEq]
  · simp [hEq]

theorem update_ncpus (x : Limits) :
    (x.update cpuIdx node j).ncpus = Function.update x.ncpus node (x.ncpus node + 1) := by
  unfold update
  by_cases hEq : node = x.nodesIdx j
  · simp [hEq]
  · simp [hEq]

theorem update_cpuStartIdx (x : Limits) :
    (x.update cpuIdx node j).cpuStartIdx =
      if node ≠ x.nodesIdx j then
        Function.update x.cpuStartIdx node cpuIdx
      else
        x.cpuStartIdx := by
  unfold update
  by_cases hEq : node = x.nodesIdx j
  · simp [hEq]
  · simp [hEq]

end

/- The inner loop leaves the other nodes alone. -/
theorem updateChain_other (cpuIdx levels : Nat) (chain : Nat → Nat) (x : Limits) :
    (∀ j, levels ≤ j → (x.updateChain cpuIdx chain levels).nodesIdx j = x.nodesIdx j) ∧
    ∀ node, (∀ j < levels, chain j ≠ node) →
      (x.updateChain cpuIdx chain levels).ncpus node = x.ncpus node ∧
      (x.updateChain cpuIdx chain levels).cpuStartIdx node = x.cpuStartIdx node := by
  induction levels generalizing x with
  | zero => simp [updateChain]
  | succ levels ih =>
    rcases ih (x.update cpuIdx (chain levels) levels) with ⟨hIdx, hNode⟩
    refine ⟨?_, ?_⟩
    · intro j hj
      rw [updateChain, hIdx j (by omega), update_nodesIdx, Function.update_of_ne (by omega)]
    · intro node hNe
      have hLast := (hNe levels (by omega)).symm
      have hRest := hNode node (fun j hj => hNe j (by omega))
      rw [updateChain, hRest.1, hRest.2, update_ncpus, update_cpuStartIdx]
      refine ⟨Function.update_of_ne hLast _ _, ?_⟩
      split
      · exact Function.update_of_ne hLast _ _
      · rfl

/- The effect of the inner loop on the nodes it visits. -/
theorem updateChain_self {levels j : Nat} {chain : Nat → Nat}
    (cpuIdx : Nat) (x : Limits) (hInj : ∀ j k, j < levels → k < levels → chain j = chain k → j = k)
    (hj : j < levels) :
    (x.updateChain cpuIdx chain levels).nodesIdx j = chain j ∧
      (x.updateChain cpuIdx chain levels).ncpus (chain j) = x.ncpus (chain j) + 1 ∧
      (x.updateChain cpuIdx chain levels).cpuStartIdx (chain j) =
        if chain j ≠ x.nodesIdx j then cpuIdx
        else x.cpuStartIdx (chain j) := by
  induction levels generalizing x with
  | zero => exact absurd hj (Nat.not_lt_zero j)
  | succ levels ih =>
    by_cases hLast : j = levels
    · subst hLast
      have hFresh : ∀ k < j, chain k ≠ chain j := by
        intro k hk hEq
        have hSame := hInj k j (by omega) (by omega) hEq
        omega
      rcases updateChain_other cpuIdx j chain (x.update cpuIdx (chain j) j) with ⟨hIdx, hNode⟩
      have hKeep := hNode (chain j) hFresh
      rw [updateChain, hIdx j (Nat.le_refl j), hKeep.1, hKeep.2, update_nodesIdx, update_ncpus,
        update_cpuStartIdx]
      refine ⟨Function.update_self .., ?_, ?_⟩
      · exact Function.update_self ..
      · split
        · exact Function.update_self ..
        · rfl
    · have hBelow : j < levels := by omega
      have hNe : chain j ≠ chain levels := by
        intro hEq
        exact hLast (hInj j levels hj (by omega) hEq)
      have hRest :=
        ih (x.update cpuIdx (chain levels) levels)
          (fun j k hj hk => hInj j k (by omega) (by omega))
          hBelow
      rw [updateChain]
      refine ⟨hRest.1, ?_, ?_⟩
      · rw [hRest.2.1, update_ncpus, Function.update_of_ne hNe]
      · rw [hRest.2.2, update_nodesIdx, Function.update_of_ne hLast, update_cpuStartIdx]
        split
        · rfl
        · split
          · exact Function.update_of_ne hNe _ _
          · rfl

/-
  The arrays after the first `count` CPUs: every node seen
  has the range of the CPUs seen below it, and every other
  node is still zero.
-/
structure Inv
    (levels : Nat) (chain : Nat → Nat → Nat) (count : Nat)
    (x : Limits) : Prop where
  last :
    ∀ j < levels, x.nodesIdx j = if count = 0 then 0
        else chain (count - 1) j
  seen :
    ∀ j < levels, ∀ d < count, ∀ c, (c < count ∧ chain c j = chain d j) ↔
        x.cpuStartIdx (chain d j) ≤ c ∧ c < x.cpuStartIdx (chain d j) + x.ncpus (chain d j)
  unseen :
    ∀ node,
      (∀ d < count, ∀ j < levels, chain d j ≠ node) → x.ncpus node = 0 ∧ x.cpuStartIdx node = 0

variable {chain : Nat → Nat → Nat} {x : Limits}

variable {levels count total j : Nat}

/- A node whose CPUs all come later is still zero. -/
theorem Inv.unseen_of_first (hInj :
      ∀ c d, c < total → d < total → ∀ j k, j < levels → k < levels → chain c j = chain d k → j = k)
    (hTotal : count < total) (hj : j < levels) (hInv : x.Inv levels chain count)
    (hFirst : ∀ d < count, chain d j ≠ chain count j) :
    x.ncpus (chain count j) = 0 ∧ x.cpuStartIdx (chain count j) = 0 := by
  apply hInv.unseen
  intro d hd k hk hEq
  have hLevel := hInj d count (by omega) hTotal k j hk hj hEq
  subst hLevel
  exact hFirst d hd hEq

/-
  The range of the node above the new CPU.  If the previous
  CPU lies below the same node its range ends there and
  grows by one; otherwise no earlier CPU does, because
  ancestors ascend.
-/
theorem Inv.extend (hMono : ∀ j < levels, ∀ c d, c ≤ d → d < total → chain c j ≤ chain d j)
    (hInj :
      ∀ c d, c < total → d < total → ∀ j k, j < levels → k < levels → chain c j = chain d k → j = k)
    (hTotal : count < total) (hInv : x.Inv levels chain count) (hj : j < levels) (c : Nat) :
    (c < count + 1 ∧ chain c j = chain count j) ↔ (if chain count j ≠ x.nodesIdx j then count
        else x.cpuStartIdx (chain count j)) ≤ c ∧
      c < (if chain count j ≠ x.nodesIdx j then count
        else x.cpuStartIdx (chain count j)) + (x.ncpus (chain count j) + 1) := by
  have hLast := hInv.last j hj
  -- the case where the new CPU opens its node's range
  have hOpens :
      (∀ d < count, chain d j ≠ chain count j) → (if chain count j ≠ x.nodesIdx j then count
          else x.cpuStartIdx (chain count j)) = count →
        ((c < count + 1 ∧ chain c j = chain count j) ↔
          count ≤ c ∧ c < count + (x.ncpus (chain count j) + 1)) := by
    intro hFirst _
    have hZero := hInv.unseen_of_first hInj hTotal hj hFirst
    rw [hZero.1]
    constructor
    · rintro ⟨hc, hEq⟩
      have hNot : ¬ c < count := fun h => hFirst c h hEq
      omega
    · rintro ⟨hLe, hLt⟩
      have hEq : c = count := by omega
      exact ⟨by omega, by rw [hEq]⟩
  by_cases hZero : count = 0
  · have hFirst : ∀ d < count, chain d j ≠ chain count j := by
      intro d hd
      omega
    have hStart :
        (if chain count j ≠ x.nodesIdx j then count
          else x.cpuStartIdx (chain count j)) = count := by
      split
      · rfl
      · rw [(hInv.unseen_of_first hInj hTotal hj hFirst).2, hZero]
    rw [hStart]
    exact hOpens hFirst hStart
  · rw [if_neg hZero] at hLast
    by_cases hSame : chain count j = x.nodesIdx j
    · rw [if_neg (not_not.mpr hSame)]
      have hPrev : chain count j = chain (count - 1) j := by rw [hSame, hLast]
      have hSeen := hInv.seen j hj (count - 1) (by omega)
      rw [← hPrev] at hSeen
      have hIn := (hSeen (count - 1)).mp ⟨by omega, hPrev.symm⟩
      have hOut := mt (hSeen count).mpr (fun h => Nat.lt_irrefl count h.1)
      constructor
      · rintro ⟨hc, hEq⟩
        by_cases hOld : c < count
        · have hRange := (hSeen c).mp ⟨hOld, hEq⟩
          omega
        · omega
      · rintro ⟨hLe, hLt⟩
        by_cases hOld : c < count
        · have hBack := (hSeen c).mpr ⟨hLe, by omega⟩
          exact ⟨by omega, hBack.2⟩
        · have hEq : c = count := by omega
          exact ⟨by omega, by rw [hEq]⟩
    · have hFirst : ∀ d < count, chain d j ≠ chain count j := by
        intro d hd hEq
        apply hSame
        rw [hLast]
        have hLow := hMono j hj d (count - 1) (by omega) (by omega)
        have hHigh := hMono j hj (count - 1) count (by omega) hTotal
        omega
      have hStart :
          (if chain count j ≠ x.nodesIdx j then count
            else x.cpuStartIdx (chain count j)) = count :=
        if_pos hSame
      rw [hStart]
      exact hOpens hFirst hStart

/- One more CPU. -/
theorem Inv.succ {levels count total : Nat}
    (hMono : ∀ j < levels, ∀ c d, c ≤ d → d < total → chain c j ≤ chain d j)
    (hInj :
      ∀ c d, c < total → d < total → ∀ j k, j < levels → k < levels → chain c j = chain d k → j = k)
    (hTotal : count < total) (hInv : x.Inv levels chain count) :
    (x.updateChain count (chain count) levels).Inv levels chain (count + 1) := by
  have hSelf := fun j (hj : j < levels) =>
    updateChain_self count x (hInj count count hTotal hTotal) hj
  rcases updateChain_other count levels (chain count) x with ⟨-, hOther⟩
  refine ⟨?_, ?_, ?_⟩
  · intro j hj
    rw [(hSelf j hj).1]
    simp
  · intro j hj d hd c
    by_cases hSame : chain d j = chain count j
    · -- the node of the new CPU at this level
      rw [hSame, (hSelf j hj).2.1, (hSelf j hj).2.2]
      exact hInv.extend hMono hInj hTotal hj c
    · -- a node that only earlier CPUs lie below
      have hOld : d < count := by
        by_contra hNot
        have hEq : d = count := by omega
        exact hSame (by rw [hEq])
      have hKeep := hOther (chain d j) (by
        intro k hk hEq
        have hLevel := hInj count d hTotal (by omega) k j hk hj hEq
        subst hLevel
        exact hSame hEq.symm)
      rw [hKeep.1, hKeep.2, ← hInv.seen j hj d hOld c]
      constructor
      · rintro ⟨hc, hEq⟩
        refine ⟨?_, hEq⟩
        by_contra hNot
        have hLast : c = count := by omega
        exact hSame (by rw [← hEq, hLast])
      · rintro ⟨hc, hEq⟩
        exact ⟨by omega, hEq⟩
  · intro node hNever
    have hKeep := hOther node (fun j hj => hNever count (by omega) j hj)
    rw [hKeep.1, hKeep.2]
    exact hInv.unseen node (fun d hd j hj => hNever d (by omega) j hj)

theorem updateCpus_inv
    {levels total : Nat} (hMono : ∀ j < levels, ∀ c d, c ≤ d → d < total → chain c j ≤ chain d j)
    (hInj :
      ∀ c d, c < total → d < total → ∀ j k, j < levels → k < levels → chain c j = chain d k → j = k)
    {count : Nat} (hCount : count ≤ total) :
    (updateCpus levels chain count
      { nodesIdx := fun _ => 0
        cpuStartIdx := fun _ => 0
        ncpus := fun _ => 0 }).Inv levels chain count := by
  induction count with
  | zero =>
    refine ⟨?_, ?_, ?_⟩
    · intro j _
      rfl
    · intro j _ d hd
      exact absurd hd (Nat.not_lt_zero d)
    · intro node _
      exact ⟨rfl, rfl⟩
  | succ count ih => exact (ih (by omega)).succ hMono hInj (by omega)

end Limits

----
-- Well-Formed Trees
----

namespace PowerDomainTree

/-
  What the rest of the development uses about a tree.  The
  ancestors of a CPU climb one level at a time, the range of
  a node is the set of CPUs below it, and lock indices are
  node indices cut to a byte.
-/
structure WellFormed
    (p : Platform)
    (t : PowerDomainTree) : Prop where
  domain_lt :
    ∀ c < p.coreCount, ∀ lvl, 1 ≤ lvl →
      lvl ≤ p.maxPwrLvl → t.domainAt c lvl < t.nonCpuPdNodes.length
  domain_level :
    ∀ c < p.coreCount, ∀ lvl, 1 ≤ lvl → lvl ≤ p.maxPwrLvl → t.levelOf (t.domainAt c lvl) = lvl
  range :
    ∀ node < t.nonCpuPdNodes.length, ∀ c, (c < p.coreCount ∧ t.domainAt c (t.levelOf node) = node) ↔
      t.cpuStartIdx node ≤ c ∧ c < t.cpuStartIdx node + t.ncpus node
  level_pos : ∀ node < t.nonCpuPdNodes.length, 1 ≤ t.levelOf node
  level_le : ∀ node < t.nonCpuPdNodes.length, t.levelOf node ≤ p.maxPwrLvl
  lockIndex : ∀ node < t.nonCpuPdNodes.length, t.lockIndexOf node = node % 2 ^ 8

/- The next ancestor is the parent of the present one. -/
theorem domainAt_succ (t : PowerDomainTree) (c lvl : Nat) (hPos : 1 ≤ lvl) :
    t.domainAt c (lvl + 1) = t.parentOf (t.domainAt c lvl) := by
  have hSplit : lvl + 1 - 1 = (lvl - 1) + 1 := by omega
  rw [domainAt, hSplit, climb, domainAt, parentOf]

theorem cpuParentOf_eq (t : PowerDomainTree) (cpu : Nat) :
    t.cpuParentOf cpu = t.domainAt cpu 1 := by
  rfl

end PowerDomainTree

theorem psciSetupTree_wellFormed
    {p : Platform} {t : PowerDomainTree} (hSetup : psciSetupTree p = some t) :
    t.WellFormed p := by
  rcases map_eq_some_iff.mp hSetup with ⟨b, hBuild, rfl⟩
  rcases populatePowerDomainTree_ok hBuild with ⟨hNodes, hCpus, hCores⟩
  have hMono :
      ∀ j < p.maxPwrLvl, ∀ c d, c ≤ d → d < p.coreCount →
        climb b.nonCpuPdNodes b.cpuParentNode c j ≤ climb b.nonCpuPdNodes b.cpuParentNode d j := by
    intro j hj c d hcd hd
    exact climb_mono hNodes hCpus hcd (by omega) hj
  have hInj :
      ∀ c d, c < p.coreCount → d < p.coreCount → ∀ j k, j < p.maxPwrLvl → k < p.maxPwrLvl →
          climb b.nonCpuPdNodes b.cpuParentNode c j = climb b.nonCpuPdNodes b.cpuParentNode d k →
          j = k := by
    intro c d hc hd j k hj hk hEq
    exact climb_level_inj hNodes hCpus (by omega) (by omega) hj hk hEq
  have hLimits := Limits.updateCpus_inv hMono hInj (Nat.le_refl p.coreCount)
  have hClimb : ∀ c < p.coreCount, ∀ lvl, 1 ≤ lvl → lvl ≤ p.maxPwrLvl → _ :=
    fun c hc lvl hPos hLe =>
      climb_ok hNodes hCpus (show c < b.cpuParentNode.length by omega)
        (show lvl - 1 < p.maxPwrLvl by omega)
  refine ⟨?_, ?_, ?_, hNodes.level_pos, hNodes.level_le, hNodes.lockIndex⟩
  · intro c hc lvl hPos hLe
    exact (hClimb c hc lvl hPos hLe).1
  · intro c hc lvl hPos hLe
    have hLevel := (hClimb c hc lvl hPos hLe).2
    simp only [PowerDomainTree.levelOf, PowerDomainTree.domainAt]
    omega
  · intro node hNode c
    have hPos := hNodes.level_pos node hNode
    have hLe := hNodes.level_le node hNode
    by_cases hSome :
        ∃ d < p.coreCount,
          climb b.nonCpuPdNodes b.cpuParentNode d ((b.nonCpuPdNodes.getD node default).level - 1) =
            node
    · rcases hSome with ⟨d, hd, hEq⟩
      have hSeen := hLimits.seen ((b.nonCpuPdNodes.getD node default).level - 1) (by omega) d hd c
      rw [hEq] at hSeen
      exact hSeen
    · have hUnseen := hLimits.unseen node (by
        intro d hd k hk hEq
        apply hSome
        refine ⟨d, hd, ?_⟩
        have hLevel := (climb_ok hNodes hCpus (show d < b.cpuParentNode.length by omega) hk).2
        rw [hEq] at hLevel
        rw [hLevel]
        exact hEq)
      constructor
      · rintro ⟨hc, hEq⟩
        exact absurd ⟨c, hc, hEq⟩ hSome
      · rintro ⟨_, hLt⟩
        have hZero : (psciUpdatePwrlvlLimits p b).ncpus node = 0 := hUnseen.1
        have hStart : (psciUpdatePwrlvlLimits p b).cpuStartIdx node = 0 := hUnseen.2
        simp only [hZero, hStart] at hLt
        omega

end Tfa.Psci
