import BootFirmware.Tfa.Psci.Topology
import Mathlib.Data.List.Count

/-
  The tree that `psci_setup` builds from a descriptor whose
  counts describe a forest.

  The children of all entries up to one of them stand in one
  list, in the order of the entries, so that the children of
  a node are counted in the list of parents.

  Key definitions include:
    * `childrenOf` and `generation`
    * `Forest`
    * `Ancestor` and `BuiltFrom`

  The main results are:
    * `populatePowerDomainTree_of_forest`
    * `psciSetupTree_builtFrom_iff`
-/

----
-- The Descriptor
----

namespace Tfa.Psci

open List Option

/- The children that `n` entries from `entry` on have. -/
def total (topology : List Nat) (entry n : Nat) : Nat :=
  ((List.range' entry n).map fun e => topology.getD e 0).sum

/-
  The entries of a generation of nodes, as the first one and
  their number.  Generation 0 is the entry for the roots, and
  the children of a generation are the next one.
-/
def generation (topology : List Nat) : Nat → Nat × Nat
  | 0 => (0, 1)
  | k + 1 =>
    ((generation topology k).1 + (generation topology k).2,
      total topology (generation topology k).1 (generation topology k).2)

/-
  The descriptor has an entry for every inner node, the CPUs
  are the generation below the last level of these, and there
  are as many nodes as the platform says.
-/
structure Forest (p : Platform) : Prop where
  inner : (generation p.topology (p.maxPwrLvl + 1)).1 = p.numNonCpuPwrDomains + 1
  leaves : (generation p.topology (p.maxPwrLvl + 1)).2 = p.coreCount
  entries : p.numNonCpuPwrDomains < p.topology.length

/- The index that a root node has for a parent, -1. -/
def noParent : Nat := 2 ^ 32 - 1

/- `entry - 1` in 32-bit unsigned arithmetic. -/
def parentOfEntry (entry : Nat) : Nat :=
  (entry + 2 ^ 32 - 1) % 2 ^ 32

/- The parents of the children of `n` entries, in order. -/
def childrenOf (topology : List Nat)
    (entry n : Nat) : List Nat :=
  (List.range' entry n).flatMap fun e => List.replicate (topology.getD e 0) (parentOfEntry e)

section

variable (topology : List Nat)

theorem total_succ (entry n : Nat) :
    total topology entry (n + 1) = topology.getD entry 0 + total topology (entry + 1) n := by
  unfold total
  rw [List.range'_succ, map_cons, sum_cons]

theorem childrenOf_succ (entry n : Nat) :
    childrenOf topology entry (n + 1) =
      List.replicate (topology.getD entry 0) (parentOfEntry entry) ++
        childrenOf topology (entry + 1) n := by
  unfold childrenOf
  rw [List.range'_succ, flatMap_cons]

theorem childrenOf_add (entry m n : Nat) :
    childrenOf topology entry (m + n) =
      childrenOf topology entry m ++ childrenOf topology (entry + m) n := by
  unfold childrenOf
  rw [← List.range'_append_1, flatMap_append]

theorem length_childrenOf (entry n : Nat) :
    (childrenOf topology entry n).length = total topology entry n := by
  induction n generalizing entry with
  | zero => rfl
  | succ n ih => rw [childrenOf_succ, total_succ, length_append, length_replicate, ih]

end

theorem mem_childrenOf
    {topology : List Nat} {entry n parent : Nat} (hMem : parent ∈ childrenOf topology entry n) :
    ∃ e, entry ≤ e ∧ e < entry + n ∧ parent = parentOfEntry e := by
  rcases mem_flatMap.mp hMem with ⟨e, hEntry, hRep⟩
  have hRange := mem_range'_1.mp hEntry
  exact ⟨e, hRange.1, hRange.2, eq_of_mem_replicate hRep⟩

theorem parentOfEntry_succ {entry : Nat} (hEntry : entry < 2 ^ 32) :
    parentOfEntry (entry + 1) = entry := by
  have hSplit : entry + 1 + 2 ^ 32 - 1 = entry + 2 ^ 32 := by omega
  rw [parentOfEntry, hSplit, Nat.add_mod_right, Nat.mod_eq_of_lt hEntry]

theorem parentOfEntry_zero : parentOfEntry 0 = noParent := by
  decide

section

variable (topology : List Nat)

/- A node's children are those of the entry behind its own. -/
theorem count_childrenOf
    {node : Nat} (hNode : node < 2 ^ 32 - 1) {entry n : Nat} (hFits : entry + n ≤ 2 ^ 32) :
    (childrenOf topology entry n).count node =
      if entry ≤ node + 1 ∧ node + 1 < entry + n then
        topology.getD (node + 1) 0
      else 0 := by
  induction n generalizing entry with
  | zero =>
    rw [if_neg (by omega)]
    rfl
  | succ n ih =>
    rw [childrenOf_succ, count_append, ih (by omega), count_replicate]
    by_cases hHere : entry = node + 1
    · rw [hHere, parentOfEntry_succ (by omega), if_pos (beq_self_eq_true node), if_neg (by omega),
        if_pos (by omega), Nat.add_zero]
    · have hOther : parentOfEntry entry ≠ node := by
        unfold parentOfEntry
        omega
      rw [if_neg (by simpa using hOther), Nat.zero_add]
      by_cases hLater : entry + 1 ≤ node + 1 ∧ node + 1 < entry + 1 + n
      · rw [if_pos hLater, if_pos (by omega)]
      · rw [if_neg hLater, if_neg (by omega)]

/- The roots are the children of the first entry. -/
theorem count_noParent {n : Nat} (hFits : n + 1 ≤ 2 ^ 32) :
    (childrenOf topology 0 (n + 1)).count noParent = topology.getD 0 0 := by
  have hLater : (childrenOf topology 1 n).count noParent = 0 := by
    rw [count_eq_zero]
    intro hMem
    rcases mem_childrenOf hMem with ⟨e, hPos, hEntry, hParent⟩
    have hSplit : e - 1 + 1 = e := by omega
    rw [← hSplit, parentOfEntry_succ (by omega)] at hParent
    unfold noParent at hParent
    omega
  rw [childrenOf_succ, count_append, hLater, parentOfEntry_zero, count_replicate_self]
  rfl

theorem total_add (entry m n : Nat) :
    total topology entry (m + n) = total topology entry m + total topology (entry + m) n := by
  rw [← length_childrenOf, childrenOf_add, length_append, length_childrenOf, length_childrenOf]

/- There is an entry for every node, and one for the roots. -/
theorem total_generation (k : Nat) :
    total topology 0 (generation topology k).1 + 1 = (generation topology (k + 1)).1 := by
  induction k with
  | zero => rfl
  | succ k ih =>
    have hFirst : (generation topology (k + 1)).1 =
        (generation topology k).1 + (generation topology k).2 := rfl
    have hNext : (generation topology (k + 1 + 1)).1 = (generation topology (k + 1)).1 +
          total topology (generation topology k).1 (generation topology k).2 := rfl
    have hSum := total_add topology 0 (generation topology k).1 (generation topology k).2
    rw [Nat.zero_add] at hSum
    rw [hNext, hFirst, hSum]
    omega

theorem generation_le {k m : Nat} (hLe : k ≤ m) :
    (generation topology k).1 ≤ (generation topology m).1 := by
  induction hLe with
  | refl => exact Nat.le_refl _
  | step _ ih => exact Nat.le_trans ih (Nat.le_add_right _ _)

end

----
-- The Loops
----

/-
  What a loop over inner nodes adds: nodes of this level,
  with these parents.
-/
structure AddsNodes
    (level : Nat) (parents : List Nat)
    (b b' : TreeBuild) : Prop where
  nodes :
    ∃ l : List NonCpuPdNode, b'.nonCpuPdNodes = b.nonCpuPdNodes ++ l ∧
      l.map (·.parentNode) = parents ∧ ∀ node ∈ l, node.level = level
  cpus : b'.cpuParentNode = b.cpuParentNode

theorem AddsNodes.trans {level : Nat} {parents parents' : List Nat} {b b' b'' : TreeBuild}
    (hFirst : AddsNodes level parents b b') (hSecond : AddsNodes level parents' b' b'') :
    AddsNodes level (parents ++ parents') b b'' := by
  rcases hFirst.nodes with ⟨l, hNodes, hParents, hLevels⟩
  rcases hSecond.nodes with ⟨l', hNodes', hParents', hLevels'⟩
  refine ⟨⟨l ++ l', ?_, ?_, ?_⟩, ?_⟩
  · rw [hNodes', hNodes, append_assoc]
  · rw [map_append, hParents, hParents']
  · intro node hMem
    rcases mem_append.mp hMem with hIn | hIn
    · exact hLevels node hIn
    · exact hLevels' node hIn
  · rw [hSecond.cpus, hFirst.cpus]

theorem AddsNodes.length_eq
    {level : Nat} {parents : List Nat} {b b' : TreeBuild} (hAdds : AddsNodes level parents b b') :
    b'.nonCpuPdNodes.length = b.nonCpuPdNodes.length + parents.length := by
  rcases hAdds.nodes with ⟨l, hNodes, hParents, -⟩
  rw [hNodes, length_append, ← hParents, length_map]

namespace TreeBuild

variable {p : Platform} {numChildren : Nat}

/- One node for each child, while there is room. -/
theorem addChildren_nodes {level : Nat} (hLevel : psciCpuPwrLvl < level) {b : TreeBuild}
    (hRoom : b.nonCpuPdNodes.length + numChildren ≤ p.numNonCpuPwrDomains) :
    ∃ b', b.addChildren p level numChildren = some b' ∧ b'.parentNodeIndex = b.parentNodeIndex ∧
      AddsNodes level (List.replicate numChildren (parentOfEntry b.parentNodeIndex)) b b' := by
  induction numChildren generalizing b with
  | zero =>
    refine ⟨b, rfl, rfl, ⟨[], ?_, rfl, nofun⟩, rfl⟩
    rw [append_nil]
  | succ numChildren ih =>
    have hInit : b.psciInitPwrDomainNode p level = some { b with
          nonCpuPdNodes :=
            b.nonCpuPdNodes ++
              [{ parentNode := b.parentIdx, level := level, lockIndex := b.nonCpuPdNodes.length % 2 ^ 8 }] } := by
      unfold psciInitPwrDomainNode
      rw [if_pos hLevel, if_pos (by omega)]
    have hOne : AddsNodes level [parentOfEntry b.parentNodeIndex] b
        { b with
          nonCpuPdNodes :=
            b.nonCpuPdNodes ++
              [{ parentNode := b.parentIdx, level := level, lockIndex := b.nonCpuPdNodes.length % 2 ^ 8 }] } := by
      refine ⟨⟨_, rfl, rfl, ?_⟩, rfl⟩
      intro node hMem
      rw [mem_singleton.mp hMem]
    have hLength := hOne.length_eq
    rw [length_singleton] at hLength
    rcases ih (b := { b with
          nonCpuPdNodes :=
            b.nonCpuPdNodes ++
              [{ parentNode := b.parentIdx, level := level, lockIndex := b.nonCpuPdNodes.length % 2 ^ 8 }] })
        (by omega) with ⟨b', hRest, hIndex, hAdds⟩
    refine ⟨b', ?_, hIndex, ?_⟩
    · unfold addChildren
      rw [hInit]
      exact hRest
    · rw [replicate_succ, ← singleton_append]
      exact hOne.trans hAdds

theorem addChildren_cpus
    {b : TreeBuild} (hRoom : b.cpuParentNode.length + numChildren ≤ p.coreCount) :
    b.addChildren p 0 numChildren = some { b with
        cpuParentNode :=
          b.cpuParentNode ++ List.replicate numChildren (parentOfEntry b.parentNodeIndex) } := by
  induction numChildren generalizing b with
  | zero =>
    rw [replicate_zero, append_nil]
    rfl
  | succ numChildren ih =>
    have hInit : b.psciInitPwrDomainNode p 0 = some { b with
          cpuParentNode := b.cpuParentNode ++ [b.parentIdx] } := by
      have hCpu : ¬ 0 > psciCpuPwrLvl := Nat.lt_irrefl 0
      unfold psciInitPwrDomainNode
      rw [if_neg hCpu, if_pos (by omega)]
    unfold addChildren
    rw [hInit, bind_some, ih]
    · rw [append_assoc, replicate_succ]
      rfl
    · rw [length_append, length_singleton]
      omega

theorem entry_eq {topology : List Nat} {e : Nat} (hEntry : e < topology.length) :
    topology[e]? = some (topology.getD e 0) := by
  rw [getD_eq_getElem?_getD, getElem?_eq_getElem hEntry]
  rfl

theorem addLevel_nodes (hEntries : p.numNonCpuPwrDomains < p.topology.length) {level : Nat}
    (hLevel : psciCpuPwrLvl < level) {numNodes next : Nat} {b : TreeBuild}
    (hIndex : b.parentNodeIndex + numNodes ≤ p.numNonCpuPwrDomains + 1)
    (hRoom :
      b.nonCpuPdNodes.length + total p.topology b.parentNodeIndex numNodes ≤
        p.numNonCpuPwrDomains) :
    ∃ b', b.addLevel p level numNodes next =
        some (b', next + total p.topology b.parentNodeIndex numNodes) ∧
      b'.parentNodeIndex = b.parentNodeIndex + numNodes ∧
      AddsNodes level (childrenOf p.topology b.parentNodeIndex numNodes) b b' := by
  induction numNodes generalizing b next with
  | zero =>
    refine ⟨b, rfl, rfl, ⟨[], ?_, rfl, nofun⟩, rfl⟩
    rw [append_nil]
  | succ numNodes ih =>
    rw [total_succ] at hRoom
    rcases addChildren_nodes hLevel
      (Nat.le_trans (Nat.add_le_add_left
        (Nat.le_add_right _ _) _) hRoom) with ⟨mid, hMid, hSame, hAdds⟩
    have hLength := hAdds.length_eq
    rw [length_replicate] at hLength
    rcases @ih (next + p.topology.getD b.parentNodeIndex 0)
        { mid with
          parentNodeIndex := mid.parentNodeIndex + 1 }
        (by dsimp only; omega)
        (by dsimp only; rw [hSame]; omega) with ⟨b', hRest, hIndex', hAdds'⟩
    dsimp only at hRest hIndex' hAdds'
    rw [hSame] at hRest hIndex' hAdds'
    refine ⟨b', ?_, ?_, ?_⟩
    · unfold addLevel
      rw [if_pos (by omega), entry_eq (by omega)]
      dsimp only
      rw [hMid, bind_some, hSame, hRest, total_succ, Nat.add_assoc]
    · omega
    · rw [childrenOf_succ]
      exact hAdds.trans ⟨hAdds'.nodes, hAdds'.cpus⟩

theorem addLevel_cpus
    (hEntries : p.numNonCpuPwrDomains < p.topology.length) {numNodes next : Nat} {b : TreeBuild}
    (hIndex : b.parentNodeIndex + numNodes ≤ p.numNonCpuPwrDomains + 1)
    (hRoom : b.cpuParentNode.length + total p.topology b.parentNodeIndex numNodes ≤ p.coreCount) :
    b.addLevel p 0 numNodes next = some
        ({ b with
            cpuParentNode := b.cpuParentNode ++ childrenOf p.topology b.parentNodeIndex numNodes
            parentNodeIndex := b.parentNodeIndex + numNodes },
          next + total p.topology b.parentNodeIndex numNodes) := by
  induction numNodes generalizing b next with
  | zero =>
    unfold addLevel childrenOf total
    rw [List.range'_zero, flatMap_nil, append_nil]
    rfl
  | succ numNodes ih =>
    rw [total_succ] at hRoom
    unfold addLevel
    rw [if_pos (by omega), entry_eq (by omega)]
    dsimp only
    rw [addChildren_cpus (by omega), bind_some, ih]
    · rw [childrenOf_succ, total_succ, append_assoc,
        Nat.add_assoc, Nat.add_assoc, Nat.add_comm 1 numNodes]
    · dsimp only
      omega
    · dsimp only
      rw [length_append, length_replicate]
      omega

theorem addLevels_of_forest
    (hForest : Forest p) {level k : Nat} (hk : k + level = p.maxPwrLvl) {b : TreeBuild}
    (hIndex : b.parentNodeIndex = (generation p.topology k).1)
    (hLength : b.nonCpuPdNodes.length + 1 = (generation p.topology (k + 1)).1)
    (hCpus : b.cpuParentNode = []) :
    ∃ b', addLevels p (level + 1) b (generation p.topology k).2 = some b' ∧
      b'.nonCpuPdNodes.map (·.parentNode) = b.nonCpuPdNodes.map (·.parentNode) ++
          childrenOf p.topology (generation p.topology k).1
            ((generation p.topology p.maxPwrLvl).1 - (generation p.topology k).1) ∧
      b'.cpuParentNode = childrenOf p.topology (generation p.topology p.maxPwrLvl).1
          (generation p.topology p.maxPwrLvl).2 ∧
      ∀ node ∈ b'.nonCpuPdNodes, node ∈ b.nonCpuPdNodes ∨ node.level < level ∨ (node.level = level ∧
            node.parentNode ∈
              childrenOf p.topology (generation p.topology k).1 (generation p.topology k).2) := by
  induction level generalizing k b with
  | zero =>
    have hSame : k = p.maxPwrLvl := hk
    subst hSame
    have hInner : (generation p.topology p.maxPwrLvl).1 +
        (generation p.topology p.maxPwrLvl).2 = p.numNonCpuPwrDomains + 1 :=
      hForest.inner
    have hLeaves : total p.topology (generation p.topology p.maxPwrLvl).1
        (generation p.topology p.maxPwrLvl).2 = p.coreCount :=
      hForest.leaves
    have hLevel := @addLevel_cpus p hForest.entries (generation p.topology p.maxPwrLvl).2 0 b
      (by omega)
      (by rw [hIndex, hCpus, hLeaves]; simp)
    rw [hIndex, hCpus, nil_append] at hLevel
    refine ⟨{ b with
        cpuParentNode :=
          childrenOf p.topology (generation p.topology p.maxPwrLvl).1
            (generation p.topology p.maxPwrLvl).2
        parentNodeIndex :=
          (generation p.topology p.maxPwrLvl).1 + (generation p.topology p.maxPwrLvl).2 },
      ?_, ?_, rfl, ?_⟩
    · unfold addLevels
      rw [hLevel, bind_some]
      rfl
    · rw [Nat.sub_self]
      exact (append_nil _).symm
    · exact fun node hMem => Or.inl hMem
  | succ level ih =>
    have hNext : k + 1 + level = p.maxPwrLvl := by omega
    have hInner := hForest.inner
    have hFirst := generation_le p.topology (show k + 1 ≤ p.maxPwrLvl + 1 by omega)
    have hSecond := generation_le p.topology (show k + 1 + 1 ≤ p.maxPwrLvl + 1 by omega)
    have hTop := generation_le p.topology (show k + 1 ≤ p.maxPwrLvl by omega)
    have hSum : (generation p.topology (k + 1)).1 =
        (generation p.topology k).1 + (generation p.topology k).2 := rfl
    have hSum' : (generation p.topology (k + 1 + 1)).1 =
        (generation p.topology (k + 1)).1 + (generation p.topology (k + 1)).2 := rfl
    have hTotal : (generation p.topology (k + 1)).2 =
        total p.topology (generation p.topology k).1 (generation p.topology k).2 := rfl
    rcases @addLevel_nodes p hForest.entries (level + 1)
      (Nat.succ_pos level) (generation p.topology k).2 0 b
      (by omega) (by rw [hIndex, ← hTotal]; omega) with ⟨mid, hMid, hMidIndex, hAdds⟩
    have hMidLength := hAdds.length_eq
    rw [length_childrenOf, hIndex, ← hTotal] at hMidLength
    rw [hIndex] at hMid hMidIndex hAdds
    rcases ih hNext (b := mid) (by omega) (by omega)
      (by rw [hAdds.cpus, hCpus]) with ⟨b', hRest, hParents, hCpus', hMem⟩
    rcases hAdds.nodes with ⟨l, hNodes, hMap, hLevels⟩
    refine ⟨b', ?_, ?_, hCpus', ?_⟩
    · unfold addLevels
      rw [hMid, bind_some, Nat.zero_add, ← hTotal]
      exact hRest
    · have hSplit : (generation p.topology p.maxPwrLvl).1 -
          (generation p.topology k).1 = (generation p.topology k).2 +
              ((generation p.topology p.maxPwrLvl).1 - (generation p.topology (k + 1)).1) := by
        omega
      rw [hParents, hNodes, map_append, hMap, append_assoc, hSplit, childrenOf_add, ← hSum]
    · intro node hIn
      rcases hMem node hIn with hMid' | hLow | hParent
      · rw [hNodes] at hMid'
        rcases mem_append.mp hMid' with hOld | hNew
        · exact Or.inl hOld
        · refine Or.inr (Or.inr ⟨hLevels node hNew, ?_⟩)
          rw [← hMap]
          exact mem_map_of_mem hNew
      · exact Or.inr (Or.inl (Nat.lt_succ_of_lt hLow))
      · refine Or.inr (Or.inl ?_)
        rw [hParent.1]
        exact Nat.lt_succ_self level

end TreeBuild

variable {p : Platform}

theorem populatePowerDomainTree_of_forest (hForest : Forest p) :
    ∃ b, populatePowerDomainTree p = some b ∧ b.nonCpuPdNodes.map (·.parentNode) =
        childrenOf p.topology 0 (generation p.topology p.maxPwrLvl).1 ∧
      b.cpuParentNode = childrenOf p.topology (generation p.topology p.maxPwrLvl).1
          (generation p.topology p.maxPwrLvl).2 ∧
      ∀ node ∈ b.nonCpuPdNodes, node.level = p.maxPwrLvl → node.parentNode = noParent := by
  rcases TreeBuild.addLevels_of_forest hForest (Nat.zero_add p.maxPwrLvl)
    (b :=
      { nonCpuPdNodes := []
        cpuParentNode := []
        parentNodeIndex := 0 }) rfl rfl rfl with
      ⟨b, hLevels, hParents, hCpus, hMem⟩
  have hCores : b.cpuParentNode.length = p.coreCount := by
    rw [hCpus, length_childrenOf]
    exact hForest.leaves
  refine ⟨b, ?_, hParents, hCpus, ?_⟩
  · unfold populatePowerDomainTree
    have hStart : (generation p.topology 0).2 = 1 := rfl
    rw [hStart] at hLevels
    rw [hLevels, bind_some, if_pos hCores]
  · intro node hIn hTop
    rcases hMem node hIn with hOld | hLow | ⟨-, hParent⟩
    · cases hOld
    · omega
    · -- The only entry of generation 0 is entry 0.
      rcases mem_childrenOf hParent with ⟨e, -, hLt, hEq⟩
      have hZero : e = 0 := by
        change e < 0 + 1 at hLt
        omega
      rw [hEq, hZero, parentOfEntry_zero]

----
-- The Tree
----

/- The node is the ancestor of the CPU at some level. -/
def Ancestor (p : Platform) (t : PowerDomainTree)
    (cpu node : Nat) : Prop :=
  ∃ lvl, 1 ≤ lvl ∧ lvl ≤ p.maxPwrLvl ∧ t.domainAt cpu lvl = node

/-
  The tree is the one that the descriptor describes: the
  chain of parents of a CPU climbs through the levels to a
  root, a node has the children that its entry says, no two
  nodes share a lock, and the CPUs below a node are those of
  its range.
-/
structure BuiltFrom
    (p : Platform)
    (t : PowerDomainTree) : Prop where
  nodes : t.nonCpuPdNodes.length = p.numNonCpuPwrDomains
  cpus : t.cpuParentNode.length = p.coreCount
  chain :
    ∀ cpu < p.coreCount, ∀ lvl, 1 ≤ lvl → lvl ≤ p.maxPwrLvl →
      t.domainAt cpu lvl < p.numNonCpuPwrDomains ∧ t.levelOf (t.domainAt cpu lvl) = lvl ∧
        (t.parentOf (t.domainAt cpu lvl) = noParent ↔ lvl = p.maxPwrLvl)
  roots : (t.nonCpuPdNodes.map (·.parentNode)).count noParent = p.topology.getD 0 0
  children :
    ∀ node < p.numNonCpuPwrDomains,
      (t.nonCpuPdNodes.map (·.parentNode)).count node + t.cpuParentNode.count node =
        p.topology.getD (node + 1) 0
  locks :
    ∀ node < p.numNonCpuPwrDomains,
      ∀ node' < p.numNonCpuPwrDomains, t.lockIndexOf node = t.lockIndexOf node' → node = node'
  range :
    ∀ node < p.numNonCpuPwrDomains, (∃ cpu < p.coreCount, Ancestor p t cpu node) → ∀ cpu,
          (cpu < p.coreCount ∧ Ancestor p t cpu node) ↔
            t.cpuStartIdx node ≤ cpu ∧ cpu < t.cpuStartIdx node + t.ncpus node

variable {t : PowerDomainTree}

theorem ancestor_iff (hWell : t.WellFormed p) {cpu node : Nat}
    (hCpu : cpu < p.coreCount) (hNode : node < t.nonCpuPdNodes.length) :
    Ancestor p t cpu node ↔ t.domainAt cpu (t.levelOf node) = node := by
  constructor
  · rintro ⟨lvl, hPos, hLe, rfl⟩
    rw [hWell.domain_level cpu hCpu lvl hPos hLe]
  · intro hAt
    exact ⟨t.levelOf node, hWell.level_pos node hNode, hWell.level_le node hNode, hAt⟩

/-
  The tree of a forest, but for the locks: node `i` has lock
  `i`, cut to a byte.
-/
theorem psciSetupTree_of_forest (hForest : Forest p) (hLvl : 1 ≤ p.maxPwrLvl) :
    ∃ t, psciSetupTree p = some t ∧ t.WellFormed p ∧
      t.nonCpuPdNodes.length = p.numNonCpuPwrDomains ∧ ((∀ node < p.numNonCpuPwrDomains,
        ∀ node' < p.numNonCpuPwrDomains,
          t.lockIndexOf node = t.lockIndexOf node' → node = node') → BuiltFrom p t) := by
  rcases populatePowerDomainTree_of_forest hForest with ⟨b, hBuild, hParents, hCpus, hRoots⟩
  have hSetup : psciSetupTree p = some
      { nonCpuPdNodes := b.nonCpuPdNodes
        cpuParentNode := b.cpuParentNode
        cpuStartIdx := (psciUpdatePwrlvlLimits p b).cpuStartIdx
        ncpus := (psciUpdatePwrlvlLimits p b).ncpus } := by
    unfold psciSetupTree
    rw [hBuild]
    rfl
  have hWell := psciSetupTree_wellFormed hSetup
  have hOk := populatePowerDomainTree_ok hBuild
  have hWord := p.domains_lt_word
  have hInner : (generation p.topology p.maxPwrLvl).1 +
      (generation p.topology p.maxPwrLvl).2 = p.numNonCpuPwrDomains + 1 :=
    hForest.inner
  have hFirst := generation_le p.topology hLvl
  have hOne : (generation p.topology 1).1 = 1 := rfl
  have hLength : b.nonCpuPdNodes.length = p.numNonCpuPwrDomains := by
    have hCount := congrArg List.length hParents
    have hTotal := total_generation p.topology p.maxPwrLvl
    rw [hForest.inner] at hTotal
    rw [length_map, length_childrenOf] at hCount
    omega
  refine ⟨_, hSetup, hWell, hLength, ?_⟩
  intro hLocks
  refine ⟨hLength, hOk.2.2, ?_, ?_, ?_, hLocks, ?_⟩
  · intro cpu hCpu lvl hPos hLe
    have hLt := hWell.domain_lt cpu hCpu lvl hPos hLe
    have hAt := hWell.domain_level cpu hCpu lvl hPos hLe
    refine ⟨Nat.lt_of_lt_of_eq hLt hLength, hAt, ?_⟩
    constructor
    · intro hRoot
      by_contra hLow
      have hParent := hOk.1.parent_lt _ hLt (lt_of_eq_of_lt hAt (by omega))
      have hSame := hRoot.symm
      unfold PowerDomainTree.parentOf noParent at hSame
      rw [← hSame, hLength] at hParent
      omega
    · intro hTop
      refine hRoots _ ?_ (hAt.trans hTop)
      rw [getD_eq_getElem?_getD, getElem?_eq_getElem hLt]
      exact getElem_mem hLt
  · rw [hParents]
    have hSplit : (generation p.topology p.maxPwrLvl).1 =
        (generation p.topology p.maxPwrLvl).1 - 1 + 1 := by
      omega
    rw [hSplit]
    exact count_noParent p.topology (by omega)
  · intro node hNode
    rw [hParents, hCpus, count_childrenOf p.topology (by omega) (by omega),
      count_childrenOf p.topology (by omega) (by omega), hInner]
    by_cases hUpper : node + 1 < (generation p.topology p.maxPwrLvl).1
    · rw [if_pos (by omega), if_neg (by omega), Nat.add_zero]
    · rw [if_neg (by omega), if_pos (by omega), Nat.zero_add]
  · intro node hNode _ cpu
    have hIn : node < b.nonCpuPdNodes.length := by omega
    rw [← hWell.range node hIn cpu]
    constructor
    · rintro ⟨hCpu, hAnc⟩
      exact ⟨hCpu, (ancestor_iff hWell hCpu hIn).mp hAnc⟩
    · rintro ⟨hCpu, hAt⟩
      exact ⟨hCpu, (ancestor_iff hWell hCpu hIn).mpr hAt⟩

/- With more inner nodes than a byte counts, two share one. -/
theorem few_of_builtFrom (hSetup : psciSetupTree p = some t) (hBuilt : BuiltFrom p t) :
    p.numNonCpuPwrDomains ≤ 2 ^ 8 := by
  have hWell := psciSetupTree_wellFormed hSetup
  have hLength := hBuilt.nodes
  by_contra hMany
  have hSame : t.lockIndexOf 0 = t.lockIndexOf (2 ^ 8) := by
    rw [hWell.lockIndex 0 (by omega), hWell.lockIndex (2 ^ 8) (by omega), Nat.zero_mod,
      Nat.mod_self]
  have hEq := hBuilt.locks 0 (by omega) (2 ^ 8) (by omega) hSame
  omega

/-
  A forest is built as it is described if and only if its
  inner nodes have lock indices of their own in a byte.
-/
theorem psciSetupTree_builtFrom_iff {p : Platform} (hForest : Forest p) (hLvl : 1 ≤ p.maxPwrLvl) :
    (∃ t, psciSetupTree p = some t ∧ BuiltFrom p t) ↔ p.numNonCpuPwrDomains ≤ 2 ^ 8 := by
  rcases psciSetupTree_of_forest hForest hLvl with ⟨t, hSetup, hWell, hLength, hBuilt⟩
  constructor
  · rintro ⟨t', hSetup', hBuilt'⟩
    exact few_of_builtFrom hSetup' hBuilt'
  · intro hFew
    refine ⟨t, hSetup, hBuilt ?_⟩
    intro node hNode node' hNode' hSame
    rw [hWell.lockIndex node (by omega), hWell.lockIndex node' (by omega),
      Nat.mod_eq_of_lt (by omega), Nat.mod_eq_of_lt (by omega)] at hSame
    exact hSame

/- Two systems, one of them without a cluster. -/
def emptySystem : Platform where
  maxPwrLvl := 2
  maxRetState := 1
  maxOffState := 2
  coreCount := 2
  numNonCpuPwrDomains := 3
  topology := [2, 1, 0, 2]
  maxPwrLvl_le := two_le_three
  ret_lt_off := Nat.one_lt_two
  off_lt_byte := two_lt_byte
  domains_lt_word := three_lt_word
  topology_lt_byte := by decide

theorem psciSetupTree_builtFrom_iff_emptySystem :
    (∃ t, psciSetupTree emptySystem = some t ∧ BuiltFrom emptySystem t) ↔ 3 ≤ 2 ^ 8 :=
  psciSetupTree_builtFrom_iff ⟨by decide, by decide, by decide⟩ (by decide)

/- Two systems of 128 clusters each, and a single CPU. -/
def wideSystems : Platform where
  maxPwrLvl := 2
  maxRetState := 1
  maxOffState := 2
  coreCount := 1
  numNonCpuPwrDomains := 258
  topology := [2, 128, 128, 1] ++ List.replicate 255 0
  maxPwrLvl_le := two_le_three
  ret_lt_off := Nat.one_lt_two
  off_lt_byte := two_lt_byte
  domains_lt_word := by decide
  topology_lt_byte := by decide +kernel

/- It is a forest, and the nodes 0 and 256 share a lock. -/
theorem wideSystems_share_lock :
    Forest wideSystems ∧ ¬ ∃ t, psciSetupTree wideSystems = some t ∧ BuiltFrom wideSystems t := by
  refine ⟨⟨by decide +kernel, by decide +kernel, by decide +kernel⟩, ?_⟩
  rintro ⟨t, hSetup, hBuilt⟩
  exact absurd (few_of_builtFrom hSetup hBuilt) (by decide)

end Tfa.Psci
