import Mathlib.Algebra.Group.Nat.Defs
import Mathlib.Data.Nat.Basic
import Mathlib.Order.Basic

/-
  Walks through radix tables kept in memory.

  A memory holds tables of entries.  An entry may refer to a
  table one level further down, and every table but the root
  has `fan` entries.  The entries of one level are numbered
  through the whole level, so that the entries of the table
  that entry `n` refers to are those with `n' / fan = n`.

  Key definitions include:
    * `RadixTable.write`
    * `RadixTable.slot`
    * `RadixTable.NoSharing`
    * `RadixTable.StrictlyUnder`

  The main results are:
    * `slot_under_eq_none` and `slot_under_empty`
    * `slot_write_of_not_under`
    * `slot_of_slot_write` and `slot_of_slot_link`
    * `NoSharing.write`
    * `NoSharing.link`
-/

namespace RadixTable

open Option

variable {R D : Type}

----
-- Memory
----

/- Overwrite one entry of one table. -/
def write [DecidableEq R]
    (m : R → Nat → D) (t : R) (i : Nat)
    (d : D) : R → Nat → D :=
  fun t' i' => if t' = t ∧ i' = i then d else m t' i'

@[simp] theorem write_same [DecidableEq R]
    (m : R → Nat → D) (t : R) (i : Nat) (d : D) :
    write m t i d t i = d := by
  simp [write]

theorem write_other [DecidableEq R]
    (m : R → Nat → D) {t t' : R} {i i' : Nat} (d : D) (hOther : ¬ (t' = t ∧ i' = i)) :
    write m t i d t' i' = m t' i' := by
  simp [write, hOther]

theorem write_self [DecidableEq R]
    (m : R → Nat → D) (t : R) (i : Nat) :
    write m t i (m t i) = m := by
  funext t' i'
  by_cases hHere : t' = t ∧ i' = i
  · rcases hHere with ⟨rfl, rfl⟩
    rw [write_same]
  · rw [write_other m _ hHere]

----
-- Walks
----

/-
  Where the walk from the root finds entry `n` of the level
  `k` below it: the table and the index in the table.
-/
def slot
    (root : R) (fan : Nat) (next : D → Option R) (m : R → Nat → D) : Nat → Nat → Option (R × Nat)
  | 0, n => some (root, n)
  | k + 1, n =>
    (slot root fan next m k (n / fan)).bind fun x => (next (m x.1 x.2)).map fun c => (c, n % fan)

/- No entry is reached by two walks. -/
def NoSharing (root : R) (fan : Nat) (next : D → Option R)
    (m : R → Nat → D) : Prop :=
  ∀ k n k' n' x,
    slot root fan next m k n = some x → slot root fan next m k' n' = some x → k = k' ∧ n = n'

/- Entry `n'` of level `k'` lies below entry `n` of level `k`. -/
def StrictlyUnder (fan k n k' n' : Nat) : Prop :=
  k < k' ∧ n' / fan ^ (k' - k) = n

variable {root : R} {fan : Nat} {next : D → Option R}
variable {m m' : R → Nat → D}

@[simp] theorem slot_zero (n : Nat) :
    slot root fan next m 0 n = some (root, n) :=
  rfl

variable {k n i : Nat}

theorem slot_succ {t : R} (hSlot : slot root fan next m k (n / fan) = some (t, i)) :
    slot root fan next m (k + 1) n = (next (m t i)).map fun c => (c, n % fan) := by
  simp [slot, hSlot]

theorem slot_succ_eq_some
    {k n : Nat} {x : R × Nat} (hSlot : slot root fan next m (k + 1) n = some x) :
    ∃ t i,
      slot root fan next m k (n / fan) = some (t, i) ∧ next (m t i) = some x.1 ∧ x.2 = n % fan := by
  simp only [slot, bind_eq_some_iff, map_eq_some_iff] at hSlot
  rcases hSlot with ⟨⟨t, i⟩, hParent, c, hNext, rfl⟩
  exact ⟨t, i, hParent, hNext, rfl⟩

/- Walks survive in a memory that keeps every reference. -/
theorem slot_mono
    (hKeep : ∀ t i c, next (m t i) = some c → next (m' t i) = some c) {k n : Nat} {x : R × Nat}
    (hSlot : slot root fan next m k n = some x) :
    slot root fan next m' k n = some x := by
  induction k generalizing n x with
  | zero => exact hSlot
  | succ k ih =>
    rcases slot_succ_eq_some hSlot with ⟨t, i, hParent, hNext, hIndex⟩
    rw [slot_succ (ih hParent), hKeep t i x.1 hNext, map_some, ← hIndex]

theorem strictlyUnder_succ {k n k' n' : Nat} (hUnder : StrictlyUnder fan k n k' (n' / fan)) :
    StrictlyUnder fan k n (k' + 1) n' := by
  rcases hUnder with ⟨hLt, hDiv⟩
  refine ⟨Nat.lt_succ_of_lt hLt, ?_⟩
  have hSub : k' + 1 - k = (k' - k) + 1 := by omega
  rw [hSub, Nat.pow_succ', ← Nat.div_div_eq_div_mul]
  exact hDiv

theorem strictlyUnder_succ_iff {k n k' n' : Nat} :
    StrictlyUnder fan k n (k' + 1) n' ↔
      StrictlyUnder fan k n k' (n' / fan) ∨ (k' = k ∧ n' / fan = n) := by
  constructor
  · intro hUnder
    rcases hUnder with ⟨hLt, hDiv⟩
    rcases Nat.lt_succ_iff_lt_or_eq.mp hLt with
      hBelow | hHere
    · left
      refine ⟨hBelow, ?_⟩
      have hSub : k' + 1 - k = (k' - k) + 1 := by omega
      rw [hSub, Nat.pow_succ', ← Nat.div_div_eq_div_mul] at hDiv
      exact hDiv
    · right
      subst hHere
      refine ⟨rfl, ?_⟩
      simpa using hDiv
  · intro hUnder
    rcases hUnder with hBelow | ⟨rfl, hHere⟩
    · exact strictlyUnder_succ hBelow
    · exact ⟨Nat.lt_succ_self _, by simpa using hHere⟩

theorem not_strictlyUnder_zero {k n n' : Nat} :
    ¬ StrictlyUnder fan k n 0 n' :=
  fun hUnder => Nat.not_lt_zero _ hUnder.1

/- Two tables reached by walks are told apart by their place. -/
theorem NoSharing.same_child
    (hNo : NoSharing root fan next m) (hFan : 0 < fan) {k n k' n' i i' : Nat} {t t' c : R}
    (hSlot : slot root fan next m k n = some (t, i))
    (hSlot' : slot root fan next m k' n' = some (t', i'))
    (hNext : next (m t i) = some c) (hNext' : next (m t' i') = some c) :
    k = k' ∧ n = n' := by
  have hDiv : ∀ a, a * fan / fan = a := fun a => Nat.mul_div_cancel a hFan
  have hChild : slot root fan next m (k + 1) (n * fan) = some (c, 0) := by
    rw [← hDiv n] at hSlot
    rw [slot_succ hSlot, hNext, map_some, Nat.mul_mod_left]
  have hChild' : slot root fan next m (k' + 1) (n' * fan) = some (c, 0) := by
    rw [← hDiv n'] at hSlot'
    rw [slot_succ hSlot', hNext', map_some, Nat.mul_mod_left]
  have hSame := hNo _ _ _ _ _ hChild hChild'
  exact ⟨Nat.succ.inj hSame.1, Nat.eq_of_mul_eq_mul_right hFan hSame.2⟩

/- Nothing is reached through an entry that refers nowhere. -/
theorem slot_under_eq_none
    {t : R} (hSlot : slot root fan next m k n = some (t, i)) (hNext : next (m t i) = none)
    {k' n' : Nat} (hUnder : StrictlyUnder fan k n k' n') :
    slot root fan next m k' n' = none := by
  induction k' generalizing n' with
  | zero => exact absurd hUnder not_strictlyUnder_zero
  | succ k' ih =>
    rcases strictlyUnder_succ_iff.mp hUnder with
      hBelow | ⟨rfl, rfl⟩
    · simp only [slot, ih hBelow, bind_none]
    · rw [slot_succ hSlot, hNext, map_none]

/- Walks end in a table none of whose entries refers anywhere. -/
theorem slot_under_empty {t c : R} (hSlot : slot root fan next m k n = some (t, i))
    (hNext : next (m t i) = some c) (hFan : 0 < fan) (hEmpty : ∀ i' < fan, next (m c i') = none)
    {k' n' : Nat} (hUnder : StrictlyUnder fan k n k' n') :
    slot root fan next m k' n' =
      if k' = k + 1 then some (c, n' % fan) else none := by
  induction k' generalizing n' with
  | zero => exact absurd hUnder not_strictlyUnder_zero
  | succ k' ih =>
    rcases strictlyUnder_succ_iff.mp hUnder with
      hBelow | ⟨rfl, rfl⟩
    · have hLt : k < k' := hBelow.1
      rw [if_neg (by omega)]
      simp only [slot, ih hBelow]
      split
      · simp only [bind_some, map_none, hEmpty _ (Nat.mod_lt _ hFan)]
      · rfl
    · rw [slot_succ hSlot, hNext, map_some, if_pos rfl]

----
-- Writing One Entry
----

section Write

variable [DecidableEq R]
variable {k n i : Nat} {t : R} {d : D}

section

variable (hNo : NoSharing root fan next m) (hSlot : slot root fan next m k n = some (t, i))
include hNo hSlot

/- Only the walks through the written entry can change. -/
theorem slot_write_of_not_under {k' n' : Nat} (hNot : ¬ StrictlyUnder fan k n k' n') :
    slot root fan next (write m t i d) k' n' = slot root fan next m k' n' := by
  induction k' generalizing n' with
  | zero => rfl
  | succ k' ih =>
    rw [strictlyUnder_succ_iff, not_or] at hNot
    rcases hNot with ⟨hBelow, hHere⟩
    simp only [slot, ih hBelow]
    cases hParent : slot root fan next m k' (n' / fan) with
    | none => rfl
    | some x =>
      have hRead : write m t i d x.1 x.2 = m x.1 x.2 := by
        apply write_other
        rintro ⟨hT, hI⟩
        have hEq : x = (t, i) := Prod.ext hT hI
        rw [hEq] at hParent
        have hSame := hNo _ _ _ _ _ hParent hSlot
        exact hHere hSame
      simp only [bind_some, hRead]

/- The written entry itself is found where it was. -/
theorem slot_write_self : slot root fan next (write m t i d) k n = some (t, i) := by
  rw [slot_write_of_not_under hNo hSlot (fun h => Nat.lt_irrefl _ h.1)]
  exact hSlot

/-
  Once the entry refers nowhere, what is still reached was
  reached before.
-/
theorem slot_of_slot_write (hNext : next d = none) {k' n' : Nat} {x : R × Nat}
    (hAfter : slot root fan next (write m t i d) k' n' = some x) :
    slot root fan next m k' n' = some x ∧ ¬ StrictlyUnder fan k n k' n' := by
  by_cases hUnder : StrictlyUnder fan k n k' n'
  · rw [slot_under_eq_none (slot_write_self hNo hSlot)
      (by rw [write_same]; exact hNext) hUnder] at hAfter
    cases hAfter
  · rw [slot_write_of_not_under hNo hSlot hUnder] at hAfter
    exact ⟨hAfter, hUnder⟩

theorem NoSharing.write (hNext : next d = none) :
    NoSharing root fan next (write m t i d) := by
  intro k₁ n₁ k₂ n₂ x h₁ h₂
  exact hNo _ _ _ _ _ (slot_of_slot_write hNo hSlot hNext h₁).1
    (slot_of_slot_write hNo hSlot hNext h₂).1

/-
  When the entry is made to refer to a table that no walk
  reaches and whose entries refer nowhere, a walk is an old
  one or enters that table.
-/
theorem slot_of_slot_link {c : R}
    (hNext : next d = some c) (hFresh : ∀ k' n' i', slot root fan next m k' n' ≠ some (c, i'))
    (hFan : 0 < fan) (hEmpty : ∀ i' < fan, next (m c i') = none) {k' n' : Nat} {x : R × Nat}
    (hAfter : slot root fan next (write m t i d) k' n' = some x) :
    (slot root fan next m k' n' = some x ∧ ¬ StrictlyUnder fan k n k' n') ∨
    (k' = k + 1 ∧ n' / fan = n ∧ x = (c, n' % fan)) := by
  have hNe : t ≠ c := by
    intro hEq
    exact hFresh k n i (hEq ▸ hSlot)
  have hStill : ∀ i' < fan, next (write m t i d c i') = none := by
    intro i' hLt
    rw [write_other m d (fun h => hNe h.1.symm)]
    exact hEmpty i' hLt
  by_cases hUnder : StrictlyUnder fan k n k' n'
  · right
    rw [slot_under_empty (slot_write_self hNo hSlot)
      (by rw [write_same]; exact hNext) hFan hStill hUnder]
      at hAfter
    split at hAfter
    · rename_i hLevel
      subst hLevel
      refine ⟨rfl, ?_, (Option.some.inj hAfter).symm⟩
      have hDiv := hUnder.2
      simpa using hDiv
    · cases hAfter
  · left
    rw [slot_write_of_not_under hNo hSlot hUnder] at hAfter
    exact ⟨hAfter, hUnder⟩

theorem NoSharing.link {c : R}
    (hNext : next d = some c) (hFresh : ∀ k' n' i', slot root fan next m k' n' ≠ some (c, i'))
    (hFan : 0 < fan) (hEmpty : ∀ i' < fan, next (m c i') = none) :
    NoSharing root fan next (RadixTable.write m t i d) := by
  intro k₁ n₁ k₂ n₂ x h₁ h₂
  rcases slot_of_slot_link hNo hSlot hNext hFresh hFan hEmpty h₁ with ⟨hOld₁, _⟩ | ⟨rfl, hDiv₁, rfl⟩
  · rcases slot_of_slot_link hNo hSlot hNext hFresh hFan
        hEmpty h₂ with ⟨hOld₂, _⟩ | ⟨rfl, hDiv₂, rfl⟩
    · exact hNo _ _ _ _ _ hOld₁ hOld₂
    · exact absurd hOld₁ (hFresh _ _ _)
  · rcases slot_of_slot_link hNo hSlot hNext hFresh hFan
        hEmpty h₂ with ⟨hOld₂, _⟩ | ⟨rfl, hDiv₂, hMod⟩
    · exact absurd hOld₂ (hFresh _ _ _)
    · refine ⟨rfl, ?_⟩
      have hRem : n₁ % fan = n₂ % fan := congrArg Prod.snd hMod
      calc
        n₁ = fan * (n₁ / fan) + n₁ % fan := (Nat.div_add_mod _ _).symm
        _ = fan * (n₂ / fan) + n₂ % fan := by
          rw [hDiv₁, hDiv₂, hRem]
        _ = n₂ := Nat.div_add_mod _ _

end

end Write

end RadixTable
