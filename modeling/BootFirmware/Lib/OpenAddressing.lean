import Mathlib.Logic.Function.Basic
import Mathlib.Data.Nat.Basic

/-
  Open addressing: tables in which each key has a path of
  slots to look at, and deleted entries leave a mark.

  A table is sound if each key is in one slot only, and no
  slot on the path to it is free.  Where the search for a
  key comes to a free slot, the key is not in the table.

  Key definitions include:
    * `OpenAddressing.Slot`
    * `OpenAddressing.Holds`
    * `OpenAddressing.Sound`

  The rules used by the developments built on top are:
    * `Sound.not_holds_of_free`
    * `Sound.not_holds_of_all`
    * `Sound.put`, `Sound.overwrite` and `Sound.bury`
-/

----
-- Tables
----

namespace OpenAddressing

open Function

inductive Slot (K V : Type) where
  | free
  | deleted
  | live (key : K) (value : V)
deriving DecidableEq, Repr

variable {ι K V : Type}

/- A slot of the table has the key and the value. -/
def Holds (t : ι → Slot K V) (k : K) (v : V) : Prop :=
  ∃ i, t i = .live k v

/-
  Each key is live in one slot only, and its path comes to
  that slot within `n` steps without meeting a free one.
-/
structure Sound
    (path : K → Nat → ι) (n : Nat)
    (t : ι → Slot K V) : Prop where
  unique : ∀ i j k v w, t i = .live k v → t j = .live k w → i = j
  reachable :
    ∀ i k v, t i = .live k v → ∃ j, j < n ∧ path k j = i ∧ ∀ j', j' < j → t (path k j') ≠ .free

variable {path : K → Nat → ι} {n : Nat} {t : ι → Slot K V} {k k' : K} {v w : V}

theorem Sound.empty : Sound path n (fun _ => (Slot.free : Slot K V)) where
  unique _ _ _ _ _ h := nomatch h
  reachable _ _ _ h := nomatch h

theorem Sound.holds_unique (hSound : Sound path n t) (hv : Holds t k v) (hw : Holds t k w) :
    v = w := by
  rcases hv with ⟨i, hi⟩
  rcases hw with ⟨j, hj⟩
  rw [hSound.unique i j k v w hi hj, hj] at hi
  exact (Slot.live.inj hi).2.symm

/- A key is not behind a free slot on its path. -/
theorem Sound.not_holds_of_free {j : Nat} (hSound : Sound path n t) (hFree : t (path k j) = .free)
    (hBefore : ∀ j', j' < j → ∀ v, t (path k j') ≠ .live k v) :
    ¬ Holds t k v := by
  rintro ⟨i, hi⟩
  rcases hSound.reachable i k v hi with ⟨j₀, -, hPath, hNot⟩
  rcases Nat.lt_trichotomy j₀ j with hLt | rfl | hGt
  · exact hBefore j₀ hLt v (hPath ▸ hi)
  · rw [hPath, hi] at hFree
    cases hFree
  · exact hNot j hGt hFree

/- A key is not in the table if it is not on its path. -/
theorem Sound.not_holds_of_all
    (hSound : Sound path n t) (hAll : ∀ j, j < n → ∀ v, t (path k j) ≠ .live k v) :
    ¬ Holds t k v := by
  rintro ⟨i, hi⟩
  rcases hSound.reachable i k v hi with ⟨j, hj, hPath, -⟩
  exact hAll j hj v (hPath ▸ hi)

----
-- Changes
----

variable [DecidableEq ι]

theorem update_ne_free {i i' : ι} {s : Slot K V} (hSlot : s ≠ .free) (hNot : t i' ≠ .free) :
    update t i s i' ≠ .free := by
  by_cases hi : i' = i
  · rw [hi, update_self]
    exact hSlot
  · rwa [update_of_ne hi]

variable {i : ι}

/- A new key in a slot of its path that is not live. -/
theorem Sound.put {j : Nat}
    (hSound : Sound path n t) (hAbsent : ∀ v, ¬ Holds t k v) (hj : j < n) (hPath : path k j = i)
    (hBefore : ∀ j', j' < j → t (path k j') ≠ .free) (hDead : ∀ k' v', t i ≠ .live k' v') :
    Sound path n (update t i (.live k v)) ∧
      ∀ k' w, Holds (update t i (.live k v)) k' w ↔ (k' = k ∧ w = v) ∨ (k' ≠ k ∧ Holds t k' w) := by
  have hOld :
      ∀ {i' k' w}, update t i (.live k v) i' = .live k' w →
          (i' = i ∧ k' = k ∧ w = v) ∨ (i' ≠ i ∧ k' ≠ k ∧ t i' = .live k' w) := by
    intro i' k' w h
    by_cases hi : i' = i
    · rw [hi, update_self] at h
      cases h
      exact Or.inl ⟨hi, rfl, rfl⟩
    · rw [update_of_ne hi] at h
      refine Or.inr ⟨hi, ?_, h⟩
      rintro rfl
      exact hAbsent w ⟨i', h⟩
  refine ⟨⟨?_, ?_⟩, ?_⟩
  · intro i₁ i₂ k' v' w' h₁ h₂
    rcases hOld h₁ with ⟨rfl, rfl, -⟩ | ⟨-, hk, h₁⟩
    · rcases hOld h₂ with ⟨rfl, -⟩ | ⟨-, hk, -⟩
      · rfl
      · exact absurd rfl hk
    · rcases hOld h₂ with ⟨-, rfl, -⟩ | ⟨-, -, h₂⟩
      · exact absurd rfl hk
      · exact hSound.unique i₁ i₂ k' v' w' h₁ h₂
  · intro i' k' w' h
    rcases hOld h with ⟨rfl, rfl, -⟩ | ⟨-, -, h⟩
    · exact ⟨j, hj, hPath, fun j' hj' => update_ne_free nofun (hBefore j' hj')⟩
    · rcases hSound.reachable i' k' w' h with ⟨j', hj', hPath', hNot⟩
      exact ⟨j', hj', hPath', fun j'' hj'' => update_ne_free nofun (hNot j'' hj'')⟩
  · intro k' w'
    constructor
    · rintro ⟨i', h⟩
      rcases hOld h with ⟨-, hk, hw⟩ | ⟨-, hk, h⟩
      · exact Or.inl ⟨hk, hw⟩
      · exact Or.inr ⟨hk, i', h⟩
    · rintro (⟨rfl, rfl⟩ | ⟨-, i', h⟩)
      · exact ⟨i, update_self i _ t⟩
      · have hi : i' ≠ i := by
          rintro rfl
          exact hDead k' w' h
        exact ⟨i', by rwa [update_of_ne hi]⟩

/- Another value for a key of the table. -/
theorem Sound.overwrite (hSound : Sound path n t) (hLive : t i = .live k v) :
    Sound path n (update t i (.live k w)) ∧ ∀ k' w', Holds (update t i (.live k w)) k' w' ↔
        (k' = k ∧ w' = w) ∨ (k' ≠ k ∧ Holds t k' w') := by
  have hOld :
      ∀ {i' k' w'}, update t i (.live k w) i' = .live k' w' →
          ∃ w'', t i' = .live k' w'' ∧ (k' = k → w' = w) ∧ (k' ≠ k → w'' = w') := by
    intro i' k' w' h
    by_cases hi : i' = i
    · rw [hi, update_self] at h
      cases h
      exact ⟨v, hi ▸ hLive, fun _ => rfl, fun hk => absurd rfl hk⟩
    · rw [update_of_ne hi] at h
      refine ⟨w', h, ?_, fun _ => rfl⟩
      rintro rfl
      exact absurd (hSound.unique i' i k' w' v h hLive) hi
  refine ⟨⟨?_, ?_⟩, ?_⟩
  · intro i₁ i₂ k' v' w' h₁ h₂
    rcases hOld h₁ with ⟨v'', h₁, -⟩
    rcases hOld h₂ with ⟨w'', h₂, -⟩
    exact hSound.unique i₁ i₂ k' v'' w'' h₁ h₂
  · intro i' k' w' h
    rcases hOld h with ⟨w'', h, -⟩
    rcases hSound.reachable i' k' w'' h with ⟨j, hj, hPath, hNot⟩
    exact ⟨j, hj, hPath, fun j' hj' => update_ne_free nofun (hNot j' hj')⟩
  · intro k' w'
    constructor
    · rintro ⟨i', h⟩
      rcases hOld h with ⟨w'', h, hSame, hOther⟩
      by_cases hk : k' = k
      · exact Or.inl ⟨hk, hSame hk⟩
      · exact Or.inr ⟨hk, i', hOther hk ▸ h⟩
    · rintro (⟨rfl, rfl⟩ | ⟨hk, i', h⟩)
      · exact ⟨i, update_self i _ t⟩
      · have hi : i' ≠ i := by
          rintro rfl
          rw [hLive] at h
          exact hk (Slot.live.inj h).1.symm
        exact ⟨i', by rwa [update_of_ne hi]⟩

/- A deleted key leaves a mark in its slot. -/
theorem Sound.bury (hSound : Sound path n t) (hLive : t i = .live k v) :
    Sound path n (update t i .deleted) ∧
      ∀ k' w, Holds (update t i .deleted) k' w ↔ k' ≠ k ∧ Holds t k' w := by
  have hOld :
      ∀ {i' k' w}, update t i .deleted i' = .live k' w → i' ≠ i ∧ t i' = .live k' w := by
    intro i' k' w h
    by_cases hi : i' = i
    · rw [hi, update_self] at h
      cases h
    · rw [update_of_ne hi] at h
      exact ⟨hi, h⟩
  refine ⟨⟨?_, ?_⟩, ?_⟩
  · intro i₁ i₂ k' v' w' h₁ h₂
    exact hSound.unique i₁ i₂ k' v' w' (hOld h₁).2 (hOld h₂).2
  · intro i' k' w' h
    rcases hSound.reachable i' k' w' (hOld h).2 with ⟨j, hj, hPath, hNot⟩
    exact ⟨j, hj, hPath, fun j' hj' => update_ne_free nofun (hNot j' hj')⟩
  · intro k' w'
    constructor
    · rintro ⟨i', h⟩
      rcases hOld h with ⟨hi, h⟩
      refine ⟨?_, i', h⟩
      rintro rfl
      exact hi (hSound.unique i' i k' w' v h hLive)
    · rintro ⟨hk, i', h⟩
      have hi : i' ≠ i := by
        rintro rfl
        rw [hLive] at h
        exact hk (Slot.live.inj h).1.symm
      exact ⟨i', by rwa [update_of_ne hi]⟩

end OpenAddressing
