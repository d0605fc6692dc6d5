import BootFirmware.Uboot.Dm.Tree
import Mathlib.Data.List.Nodup
import Mathlib.Data.List.Perm.Subperm

/-
  The sequence numbers and the private data of devices.

  A device that is being probed has private data before it is
  activated, so the invariant leaves out the devices that are
  waiting for their parents.

  Key definitions include:
    * `Numbered`
    * `FewDevices` and `SequenceNumbers`

  The main results are:
    * `uclassResolveSeq_free`
    * `probeWithin_numbered`
    * `sequence_numbers`
    * `freed_device_is_read`
-/

----
-- The Invariant
----

namespace Uboot.Dm

open List Function

/-
  The devices on the lists of their uclasses, some of which
  are being probed.
-/
structure Numbered (w : World) (isProbed : DevId → Prop) (s : State) : Prop where
  hOn : ∀ d ∈ s.listed, (s.dev d).activated = true → 0 ≤ (s.dev d).seq ∧ d ∈ s.live
  hOff : ∀ d ∈ s.listed, (s.dev d).activated = false → (s.dev d).seq = -1
  hUnique : ∀ d ∈ s.listed, ∀ e ∈ s.listed,
    (s.dev d).activated = true → (s.dev e).activated = true →
      (s.dev d).driver.id = (s.dev e).driver.id → (s.dev d).seq = (s.dev e).seq → d = e
  hSize : ∀ d ∈ s.listed, ∀ part, (s.dev d).priv part = true → privSize w s d part ≠ 0
  hFreed : ∀ d ∈ s.listed, ¬isProbed d →
    (s.dev d).activated = false → ∀ part, (s.dev d).priv part = false
  hAssert : s.asserted = false

section Numbers

variable {w : World} {isProbed : DevId → Prop} {s t : State} {d : DevId}

/- The device is being probed as well. -/
def AndProbed (isProbed : DevId → Prop) (d : DevId) : DevId → Prop :=
  fun x => x = d ∨ isProbed x

theorem Numbered.more (hNumbered : Numbered w isProbed s) (d : DevId) :
    Numbered w (AndProbed isProbed d) s where
  hOn := hNumbered.hOn
  hOff := hNumbered.hOff
  hUnique := hNumbered.hUnique
  hSize := hNumbered.hSize
  hFreed x hx hNot := hNumbered.hFreed x hx (hNot ∘ .inr)
  hAssert := hNumbered.hAssert

theorem keptByCalls_numbered (w : World) (isProbed : DevId → Prop) :
    KeptByCalls w (Numbered w isProbed) :=
  fun _ _ _ hNumbered =>
    ⟨hNumbered.hOn, hNumbered.hOff, hNumbered.hUnique,
      hNumbered.hSize, hNumbered.hFreed, hNumbered.hAssert⟩

theorem SameBut.numbered (hSame : SameBut s t) (hNumbered : Numbered w isProbed s) :
    Numbered w isProbed t := by
  rcases hSame with ⟨trace, faulted, rfl⟩
  exact ⟨hNumbered.hOn, hNumbered.hOff, hNumbered.hUnique,
    hNumbered.hSize, hNumbered.hFreed, hNumbered.hAssert⟩

/- Sizes do not change while the devices stay. -/
theorem Kept.privSize (hKept : Kept s t) (d : DevId) (part : Priv) :
    privSize w t d part = privSize w s d part := by
  cases part with
  | priv =>
    simp only [Dm.privSize]
    rw [hKept.hDriver]
  | uclassPriv =>
    simp only [Dm.privSize]
    rw [hKept.hDriver]
  | parentPriv =>
    simp only [Dm.privSize]
    rw [hKept.hParent]
    cases (s.dev d).parent with
    | none => rfl
    | some p =>
      simp only
      rw [hKept.hDriver]

/- The device after either of the two ways to clean up. -/
def cleanedUp (w : World) (d : DevId) (s : State) : Udevice :=
  { s.dev d with
    seq := -1
    activated := false
    priv := fun part =>
      if privSize w s d part ≠ 0 then false
      else (s.dev d).priv part }

theorem deactivate_dev (w : World) (d : DevId) (s : State) :
    (deactivate w d s).dev d = cleanedUp w d s := by
  unfold deactivate deviceFree State.modify cleanedUp
  simp only [update_self]

theorem probeFail_dev (w : World) (d : DevId) (ret : Int) (s : State) :
    (probeFail w d ret s).2.dev d = cleanedUp w d s := by
  have hKept : Kept s (s.modify d fun x =>
      { x with activated := false, seq := -1 }) :=
    kept_modify s d fun _ => ⟨rfl, rfl, rfl⟩
  have hSize := hKept.privSize (w := w) d
  unfold probeFail deviceFree cleanedUp
  simp only [hSize]
  unfold State.modify
  simp only [update_self]

/- Clean-up leaves nothing that is not activated behind. -/
theorem Numbered.cleanUp (hNumbered : Numbered w (AndProbed isProbed d) s)
    (hOnly : OnlyAt d s t) (hDev : t.dev d = cleanedUp w d s)
    (hAsserted : t.asserted = s.asserted) :
    Numbered w isProbed t := by
  have hKept := hOnly.hKept
  have hOther : ∀ x, (t.dev x).activated = true → t.dev x = s.dev x := by
    intro x hx
    by_cases hEq : x = d
    · subst hEq
      rw [hDev] at hx
      exact absurd hx Bool.false_ne_true
    · exact hOnly.hDev x hEq
  constructor
  · rw [hKept.hListed, hKept.hLive]
    intro x hx hOn
    have hSame := hOther x hOn
    rw [hSame] at hOn ⊢
    exact hNumbered.hOn x hx hOn
  · rw [hKept.hListed]
    intro x hx hOff
    by_cases hEq : x = d
    · rw [hEq, hDev]
      rfl
    · rw [hOnly.hDev x hEq] at hOff ⊢
      exact hNumbered.hOff x hx hOff
  · rw [hKept.hListed]
    intro x hx y hy hxOn hyOn
    have hSameX := hOther x hxOn
    have hSameY := hOther y hyOn
    rw [hSameX] at hxOn ⊢
    rw [hSameY] at hyOn ⊢
    exact hNumbered.hUnique x hx y hy hxOn hyOn
  · rw [hKept.hListed]
    intro x hx part hPart
    rw [hKept.privSize]
    by_cases hEq : x = d
    · subst hEq
      rw [hDev] at hPart
      unfold cleanedUp at hPart
      simp only at hPart
      split_ifs at hPart
      exact hNumbered.hSize x hx part hPart
    · rw [hOnly.hDev x hEq] at hPart
      exact hNumbered.hSize x hx part hPart
  · rw [hKept.hListed]
    intro x hx hNot hOff part
    by_cases hEq : x = d
    · subst hEq
      rw [hDev]
      unfold cleanedUp
      simp only
      split_ifs with hZero
      · rfl
      · exact Bool.eq_false_iff.mpr fun hPart => hZero (hNumbered.hSize x hx part hPart)
    · rw [hOnly.hDev x hEq] at hOff ⊢
      refine hNumbered.hFreed x hx ?_ hOff part
      rintro (hSelf | hOld)
      · exact hEq hSelf
      · exact hNot hOld
  · rw [hAsserted]
    exact hNumbered.hAssert

theorem Numbered.deactivate (hNumbered : Numbered w isProbed s) (d : DevId) :
    Numbered w isProbed (deactivate w d s) :=
  (hNumbered.more d).cleanUp (onlyAt_deactivate w d s) (deactivate_dev w d s) rfl

theorem Numbered.fail (hNumbered : Numbered w (AndProbed isProbed d) s) (ret : Int) :
    Numbered w isProbed (probeFail w d ret s).2 :=
  hNumbered.cleanUp (onlyAt_probeFail w d ret s) (probeFail_dev w d ret s) rfl

/- The flag that is cleared before does not matter. -/
theorem probeFail_cleared (w : World) (d : DevId) (ret : Int) (s : State) :
    probeFail w d ret (s.modify d fun x => { x with activated := false }) =
      probeFail w d ret s := by
  unfold probeFail State.modify
  simp only [update_self, update_idem]

theorem Numbered.remove (hNumbered : Numbered w isProbed s) (d : DevId) (flags : BitVec 32) :
    Numbered w isProbed (deviceRemove w d flags s).2 :=
  deviceRemove_keeps flags (keptByCalls_numbered w isProbed)
    (fun e _ hOld => hOld.deactivate e) hNumbered

/- Private data of a device that is being probed. -/
theorem Numbered.hold {part : Priv}
    (hNumbered : Numbered w (AndProbed isProbed d) s) (hSize : privSize w s d part ≠ 0) :
    Numbered w (AndProbed isProbed d)
      (s.modify d fun x => { x with priv := update x.priv part true }) := by
  have hOnly : OnlyAt d s (s.modify d fun x =>
      { x with priv := update x.priv part true }) :=
    onlyAt_modify s d fun _ => ⟨rfl, rfl, rfl⟩
  have hKept := hOnly.hKept
  have hSame : ∀ x, ((s.modify d fun x =>
        { x with
          priv := update x.priv part true }).dev x).activated = (s.dev x).activated ∧
      ((s.modify d fun x =>
        { x with
          priv := update x.priv part true }).dev x).seq = (s.dev x).seq := by
    intro x
    by_cases hEq : x = d
    · subst hEq
      unfold State.modify
      simp only [update_self]
      exact ⟨trivial, trivial⟩
    · rw [hOnly.hDev x hEq]
      exact ⟨rfl, rfl⟩
  constructor
  · intro x hx hOn
    rw [(hSame x).1] at hOn
    rw [(hSame x).2]
    exact hNumbered.hOn x hx hOn
  · intro x hx hOff
    rw [(hSame x).1] at hOff
    rw [(hSame x).2]
    exact hNumbered.hOff x hx hOff
  · intro x hx y hy hxOn hyOn hId hSeq
    rw [(hSame x).1] at hxOn
    rw [(hSame y).1] at hyOn
    rw [(hSame x).2, (hSame y).2] at hSeq
    rw [hKept.hDriver, hKept.hDriver] at hId
    exact hNumbered.hUnique x hx y hy hxOn hyOn hId hSeq
  · intro x hx q hPart
    rw [hKept.privSize]
    by_cases hEq : x = d
    · subst hEq
      unfold State.modify at hPart
      simp only [update_self] at hPart
      by_cases hq : q = part
      · rw [hq]
        exact hSize
      · rw [update_of_ne hq] at hPart
        exact hNumbered.hSize x hx q hPart
    · rw [hOnly.hDev x hEq] at hPart
      exact hNumbered.hSize x hx q hPart
  · intro x hx hNot hOff q
    have hEq : x ≠ d := fun hSelf => hNot (.inl hSelf)
    rw [hOnly.hDev x hEq] at hOff ⊢
    exact hNumbered.hFreed x hx hNot hOff q
  · exact hNumbered.hAssert

theorem Numbered.alloc (part : Priv) (hNumbered : Numbered w (AndProbed isProbed d) s) :
    Numbered w (AndProbed isProbed d) (allocPriv w part d s).2
    := by
  have hCall := (keptByCalls_numbered w
    (AndProbed isProbed d)).callHook (.allocPriv part) d hNumbered
  unfold allocPriv
  split_ifs with hWanted
  · by_cases hZero : (callHook w (.allocPriv part) d s).1 = 0
    · simp only [hZero, if_true]
      exact hCall.hold hWanted.1
    · simp only [hZero, if_false]
      exact hCall
  · exact hNumbered

----
-- Sequence Numbers
----

def FewDevices (s : State) (_ : Op) : Prop :=
  s.live.length < DM_MAX_SEQ

/- And those that are not bound leave their lists. -/
def FewThatGo (w : World) (s : State) (op : Op) : Prop :=
  FewDevices s op ∧ LetsGo w s op

/-
  The devices that are activated are those that have a number,
  no two of one uclass have the same, the assertion has not
  failed, the others have no private data, and all this is not
  by chance, since no device has been read that is freed.
-/
structure SequenceNumbers (s : State) : Prop where
  hIntact : s.faulted = false
  hSeq : ∀ d ∈ s.live, (0 ≤ (s.dev d).seq ↔ (s.dev d).activated = true)
  hUnique : ∀ d ∈ s.live, ∀ e ∈ s.live, (s.dev d).activated = true → (s.dev e).activated = true →
      (s.dev d).driver.id = (s.dev e).driver.id → (s.dev d).seq = (s.dev e).seq → d = e
  hAssert : s.asserted = false
  hFreed : ∀ d ∈ s.live, (s.dev d).activated = false → ∀ part, (s.dev d).priv part = false

theorem uclassFindDeviceBySeq_none
    {id : UclassId} {seq : Int} (hNone : uclassFindDeviceBySeq s id seq = none) (hSeq : seq ≠ -1) :
    ∀ e ∈ s.listed, (s.dev e).driver.id = id → (s.dev e).seq ≠ seq := by
  unfold uclassFindDeviceBySeq at hNone
  rw [if_neg hSeq, find?_eq_none] at hNone
  intro e he hId hEq
  exact hNone e he (decide_eq_true ⟨hId, hEq⟩)

/- A number is free, or those before the limit are in use. -/
theorem uclassFreeSeq_cases {id : UclassId} (left seq : Nat) :
    (uclassFindDeviceBySeq s id (uclassFreeSeq s id left seq)).isNone = true ∨
      ∀ k, seq ≤ k → k < seq + left → (uclassFindDeviceBySeq s id k).isNone = false := by
  induction left generalizing seq with
  | zero => exact .inr fun k hLow hHigh => by omega
  | succ left ih =>
    unfold uclassFreeSeq
    cases hFree : (uclassFindDeviceBySeq s id seq).isNone with
    | true =>
      rw [if_pos rfl]
      exact .inl hFree
    | false =>
      rw [if_neg Bool.false_ne_true]
      refine (ih (seq + 1)).imp_right fun hUsed k hLow hHigh => ?_
      by_cases hEq : k = seq
      · rw [hEq]
        exact hFree
      · exact hUsed k (by omega) (by omega)

section

variable (hNumbered : Numbered w isProbed s)
include hNumbered

theorem Numbered.used
    {id : UclassId} {k : Nat} (hUsed : (uclassFindDeviceBySeq s id k).isNone = false) :
    ∃ e ∈ s.live, (s.dev e).seq = k := by
  unfold uclassFindDeviceBySeq at hUsed
  rw [if_neg (by omega)] at hUsed
  cases hFind : s.listed.find? fun e => (s.dev e).driver.id = id ∧ (s.dev e).seq = k with
  | none =>
    rw [hFind] at hUsed
    exact absurd hUsed (by decide)
  | some e =>
    have hMem := mem_of_find?_eq_some hFind
    have hFound := find?_some hFind
    have hSeq := (of_decide_eq_true hFound).2
    cases hOn : (s.dev e).activated with
    | true => exact ⟨e, (hNumbered.hOn e hMem hOn).2, hSeq⟩
    | false =>
      have hNone := hNumbered.hOff e hMem hOn
      omega

/- With few devices some number below the limit is free. -/
theorem Numbered.free (hFew : s.live.length < DM_MAX_SEQ) (id : UclassId) :
    (uclassFindDeviceBySeq s id (uclassFreeSeq s id DM_MAX_SEQ 0)).isNone = true := by
  refine (uclassFreeSeq_cases DM_MAX_SEQ 0).resolve_right ?_
  intro hUsed
  have hSub : (List.range DM_MAX_SEQ).map Int.ofNat ⊆ s.live.map fun e => (s.dev e).seq := by
    intro k hk
    rcases mem_map.mp hk with ⟨n, hn, rfl⟩
    rcases hNumbered.used
        (hUsed n (Nat.zero_le n) (by
          rw [Nat.zero_add]
          exact mem_range.mp hn)) with
      ⟨e, he, hSeq⟩
    exact mem_map.mpr ⟨e, he, hSeq⟩
  have hNodup : ((List.range DM_MAX_SEQ).map Int.ofNat).Nodup :=
    List.Nodup.map (fun _ _ hEq => Int.ofNat.inj hEq) nodup_range
  have hLength := (subperm_of_subset hNodup hSub).length_le
  rw [length_map, length_range, length_map] at hLength
  omega

/- The number of a device is not that of another one. -/
theorem uclassResolveSeq_free
    (hFew : s.live.length < DM_MAX_SEQ) (hSeq : 0 ≤ uclassResolveSeq s d) :
    ∀ e ∈ s.listed,
      (s.dev e).driver.id = (s.dev d).driver.id → (s.dev e).seq ≠ uclassResolveSeq s d := by
  unfold uclassResolveSeq at hSeq ⊢
  simp only at hSeq ⊢
  split_ifs at hSeq ⊢ with hReq
  · exact uclassFindDeviceBySeq_none (Option.isNone_iff_eq_none.mp hReq.1) hReq.2
  · refine uclassFindDeviceBySeq_none (Option.isNone_iff_eq_none.mp ?_) (by omega)
    exact hNumbered.free hFew _

end

----
-- Probing
----

/- A device that is activated is not being probed any more. -/
theorem Numbered.done
    (hNumbered : Numbered w (AndProbed isProbed d) s) (hOn : (s.dev d).activated = true) :
    Numbered w isProbed s where
  hOn := hNumbered.hOn
  hOff := hNumbered.hOff
  hUnique := hNumbered.hUnique
  hSize := hNumbered.hSize
  hFreed x hx hNot hOff := by
    refine hNumbered.hFreed x hx ?_ hOff
    rintro (rfl | hOld)
    · exact Bool.false_ne_true (hOff.symm.trans hOn)
    · exact hNot hOld
  hAssert := hNumbered.hAssert

/- A device that takes a number which no other one has. -/
theorem Numbered.take
    {seq : Int} (hNumbered : Numbered w isProbed s) (hLive : d ∈ s.live) (hSeq : 0 ≤ seq)
    (hFree : ∀ e ∈ s.listed, (s.dev e).driver.id = (s.dev d).driver.id → (s.dev e).seq ≠ seq) :
    Numbered w isProbed
      (s.modify d fun x => { x with seq := seq, activated := true }) := by
  have hOnly : OnlyAt d s (s.modify d fun x =>
      { x with seq := seq, activated := true }) :=
    onlyAt_modify s d fun _ => ⟨rfl, rfl, rfl⟩
  have hKept := hOnly.hKept
  have hSelf :
      (s.modify d fun x =>
        { x with seq := seq, activated := true }).dev d =
        { s.dev d with seq := seq, activated := true } := by
    unfold State.modify
    simp only [update_self]
  constructor
  · intro x hx hOn
    by_cases hEq : x = d
    · subst hEq
      rw [hSelf]
      exact ⟨hSeq, hLive⟩
    · rw [hOnly.hDev x hEq] at hOn ⊢
      exact hNumbered.hOn x hx hOn
  · intro x hx hOff
    by_cases hEq : x = d
    · subst hEq
      rw [hSelf] at hOff
      exact absurd hOff.symm Bool.false_ne_true
    · rw [hOnly.hDev x hEq] at hOff ⊢
      exact hNumbered.hOff x hx hOff
  · intro x hx y hy hxOn hyOn hId hSame
    rw [hKept.hDriver, hKept.hDriver] at hId
    by_cases hxEq : x = d
    · by_cases hyEq : y = d
      · exact hxEq.trans hyEq.symm
      · rw [hxEq, hSelf, hOnly.hDev y hyEq] at hSame
        rw [hxEq] at hId
        exact absurd hSame.symm (hFree y hy hId.symm)
    · by_cases hyEq : y = d
      · rw [hyEq, hSelf, hOnly.hDev x hxEq] at hSame
        rw [hyEq] at hId
        exact absurd hSame (hFree x hx hId)
      · rw [hOnly.hDev x hxEq] at hxOn hSame
        rw [hOnly.hDev y hyEq] at hyOn hSame
        exact hNumbered.hUnique x hx y hy hxOn hyOn hId hSame
  · intro x hx part hPart
    rw [hKept.privSize]
    by_cases hEq : x = d
    · subst hEq
      rw [hSelf] at hPart
      exact hNumbered.hSize x hx part hPart
    · rw [hOnly.hDev x hEq] at hPart
      exact hNumbered.hSize x hx part hPart
  · intro x hx hNot hOff
    by_cases hEq : x = d
    · subst hEq
      rw [hSelf] at hOff
      exact absurd hOff.symm Bool.false_ne_true
    · rw [hOnly.hDev x hEq] at hOff ⊢
      exact hNumbered.hFreed x hx hNot hOff
  · exact hNumbered.hAssert

section

variable (hNumbered : Numbered w (AndProbed isProbed d) s)
include hNumbered

/- What remains of a device that was activated by itself. -/
theorem probeActivated_numbered (hOn : (s.dev d).activated = true) :
    Numbered w isProbed (probeActivated w d s).2 := by
  have hCalls := keptByCalls_numbered w (AndProbed isProbed d)
  have hDev := keptByCalls_dev w d (s.dev d)
  have hHooks := hCalls.probeHooks d hNumbered
  have hProbe := hCalls.callHook .probe d hHooks
  have hPost := hCalls.callHook .postProbe d hProbe
  unfold probeActivated
  simp only
  split_ifs
  · exact hHooks.fail _
  · rw [probeFail_cleared]
    exact hProbe.fail _
  · exact (hPost.remove d _).fail _
  · refine hPost.done ?_
    have hSame := hDev.callHook .postProbe d (hDev.callHook .probe d (hDev.probeHooks d rfl))
    rw [hSame]
    exact hOn

/- The assertion holds, as the device has no number before. -/
theorem probeNumbered_numbered
    (hLive : d ∈ s.live) (hListed : d ∈ s.listed) (hOff : (s.dev d).activated = false)
    (hFew : s.live.length < DM_MAX_SEQ) :
    Numbered w isProbed (probeNumbered w d s).2 := by
  have hNone := hNumbered.hOff d hListed hOff
  have hAssert :
      ({ s with
        asserted := s.asserted || (s.dev d).seq ≠ -1 } : State) = s := by
    rw [hNone]
    simp only [ne_eq, not_true_eq_false, decide_false, Bool.or_false]
  unfold probeNumbered
  simp only [hAssert]
  generalize walkResolveSeq s d = nodes
  have hTouched : Numbered w (AndProbed isProbed d) (s.touch nodes) :=
    SameBut.numbered ⟨s.trace, _, rfl⟩ hNumbered
  split_ifs with hError
  · exact hTouched.fail _
  · have hSeq : 0 ≤ uclassResolveSeq s d := Int.not_lt.mp hError
    have hFree := uclassResolveSeq_free hNumbered hFew hSeq
    generalize uclassResolveSeq s d = seq at hSeq hFree
    refine probeActivated_numbered (hTouched.take hLive hSeq hFree) ?_
    unfold State.modify
    simp only [update_self]

theorem probeAlloc_numbered : Numbered w (AndProbed isProbed d) (probeAlloc w d s).2 := by
  apply callAll_keeps _ hNumbered
  intro call hCall t ht
  simp only [mem_cons, not_mem_nil, or_false] at hCall
  rcases hCall with rfl | rfl
  · exact ht.alloc _
  · exact ht.alloc _

theorem probeBelow_numbered {probeParent : State → Outcome}
    (hTree : Tree s) (hLive : d ∈ s.live) (hFew : s.live.length < DM_MAX_SEQ)
    (hProbe : ∀ u, Kept s u → Numbered w (AndProbed isProbed d) u →
        Kept u (probeParent u).2 ∧ Numbered w (AndProbed isProbed d) (probeParent u).2) :
    Numbered w isProbed (probeBelow w probeParent d s).2 := by
  have hAlloc := hNumbered.alloc .parentPriv
  have hKept : Kept s (allocPriv w .parentPriv d s).2 :=
    allocPriv_keeps (keptByCalls_kept w s) ((keptByProbe_kept w s).hPriv .parentPriv d)
      (Kept.refl s)
  rcases hProbe _ hKept hAlloc with ⟨hNext, hProbed⟩
  have hAll := hKept.trans hNext
  unfold probeBelow
  simp only
  split_ifs with hNoRoom hError hOn
  · exact hAlloc.fail _
  · exact hProbed.fail _
  · exact hProbed.done hOn
  · refine probeNumbered_numbered hProbed ?_ ?_ (Bool.eq_false_iff.mpr hOn) ?_
    · rw [hAll.hLive]
      exact hLive
    · rw [hAll.hListed]
      exact hTree.hOnList d hLive
    · rw [hAll.hLive]
      exact hFew

end

/-
  Probing a device while others are waiting for it, by
  induction on the levels.
-/
theorem probeWithin_numbered (levels : Nat) (hNumbered : Numbered w isProbed s) (hTree : Tree s)
    (hLive : d ∈ s.live) (hFew : s.live.length < DM_MAX_SEQ) :
    Numbered w isProbed (probeWithin w levels d s).2 := by
  induction levels generalizing d s isProbed with
  | zero => exact hNumbered
  | succ levels ih =>
    unfold probeWithin
    cases hOn : (s.dev d).activated with
    | true =>
      rw [if_pos rfl]
      exact hNumbered
    | false =>
      rw [if_neg Bool.false_ne_true]
      have hAlloc := probeAlloc_numbered (hNumbered.more d)
      rcases probeAlloc_off w hOn with ⟨hOnly, hOff⟩
      have hKept := hOnly.hKept
      have hTree' := hKept.tree hTree
      rw [← hKept.hLive] at hLive hFew
      simp only
      split_ifs with hNoRoom
      · exact hAlloc.fail _
      cases hParent : (s.dev d).parent with
      | none => exact probeNumbered_numbered hAlloc hLive (hTree'.hOnList d hLive) hOff hFew
      | some p =>
        rw [← hKept.hParent] at hParent
        have hpLive := (hTree'.hParent d hLive p hParent).1
        refine probeBelow_numbered hAlloc hTree' hLive hFew fun u hu hWaiting => ?_
        have hProbe : Kept u (probeWithin w levels p u).2 :=
          probeWithin_keeps levels (keptByProbe_kept w u) (Kept.refl u)
        refine ⟨hProbe, ih hWaiting (hu.tree hTree') ?_ ?_⟩
        · rw [hu.hLive]
          exact hpLive
        · rw [hu.hLive]
          exact hFew

----
-- The Runs
----

/- Between the operations no device is being probed. -/
def Unprobed (_ : DevId) : Prop := False

/- A device that holds nothing, and has no number. -/
structure Idle (x : Udevice) : Prop where
  hOff : x.activated = false
  hSeq : x.seq = -1
  hPriv : ∀ part, x.priv part = false

theorem idle_newDevice (parent : Option DevId) (drv : Driver) (reqSeq : Int) :
    Idle (newDevice parent drv reqSeq) :=
  ⟨rfl, rfl, fun _ => rfl⟩

/- Devices come and go, but only those that are idle. -/
theorem Numbered.same
    (hNumbered : Numbered w Unprobed s) (hTree : Tree s) (hDev : ∀ x ∈ s.listed, t.dev x = s.dev x)
    (hListed : ∀ x ∈ t.listed, x ∈ s.listed ∨ Idle (t.dev x))
    (hStay : ∀ x ∈ s.live, (s.dev x).activated = true → x ∈ t.live)
    (hAsserted : t.asserted = s.asserted) :
    Numbered w Unprobed t := by
  have hOld : ∀ x ∈ t.listed, (t.dev x).activated = true → x ∈ s.listed ∧ t.dev x = s.dev x := by
    intro x hx hOn
    rcases hListed x hx with hxListed | hIdle
    · exact ⟨hxListed, hDev x hxListed⟩
    · exact absurd (hIdle.hOff.symm.trans hOn) Bool.false_ne_true
  have hNone : ∀ x ∈ t.listed, (t.dev x).activated = false →
      ∀ part, (t.dev x).priv part = false := by
    intro x hx hOff
    rcases hListed x hx with hxListed | hIdle
    · rw [hDev x hxListed] at hOff ⊢
      exact hNumbered.hFreed x hxListed id hOff
    · exact hIdle.hPriv
  constructor
  · intro x hx hOn
    rcases hOld x hx hOn with ⟨hxListed, hEq⟩
    rw [hEq] at hOn ⊢
    rcases hNumbered.hOn x hxListed hOn with ⟨hSeq, hLive⟩
    exact ⟨hSeq, hStay x hLive hOn⟩
  · intro x hx hOff
    rcases hListed x hx with hxListed | hIdle
    · rw [hDev x hxListed] at hOff ⊢
      exact hNumbered.hOff x hxListed hOff
    · exact hIdle.hSeq
  · intro x hx y hy hxOn hyOn
    rcases hOld x hx hxOn with ⟨hxListed, hxEq⟩
    rcases hOld y hy hyOn with ⟨hyListed, hyEq⟩
    rw [hxEq] at hxOn ⊢
    rw [hyEq] at hyOn ⊢
    exact hNumbered.hUnique x hxListed y hyListed hxOn hyOn
  · intro x hx part hPart
    cases hOn : (t.dev x).activated with
    | false => exact absurd ((hNone x hx hOn part).symm.trans hPart) Bool.false_ne_true
    | true =>
      rcases hOld x hx hOn with ⟨hxListed, hEq⟩
      rw [hEq] at hOn hPart
      have hLive := (hNumbered.hOn x hxListed hOn).2
      have hSize := hNumbered.hSize x hxListed part hPart
      cases part with
      | priv =>
        simp only [Dm.privSize] at hSize ⊢
        rwa [hEq]
      | uclassPriv =>
        simp only [Dm.privSize] at hSize ⊢
        rwa [hEq]
      | parentPriv =>
        simp only [Dm.privSize] at hSize ⊢
        rw [hEq]
        cases hParent : (s.dev x).parent with
        | none =>
          rw [hParent] at hSize
          exact hSize
        | some p =>
          rw [hParent] at hSize
          have hpLive := (hTree.hParent x hLive p hParent).1
          simp only [hDev p (hTree.hOnList p hpLive)]
          exact hSize
  · exact fun x hx _ => hNone x hx
  · rw [hAsserted]
    exact hNumbered.hAssert

theorem deviceBind_numbered (parent : Option DevId) (drv : Driver) (reqSeq : Int)
    (hasPlatdata : Bool) (hNumbered : Numbered w Unprobed s) (hTree : Tree s) :
    Numbered w Unprobed (deviceBind w parent drv reqSeq hasPlatdata s).2 := by
  have hResult := deviceBind_result w parent drv reqSeq hasPlatdata s
  generalize deviceBind w parent drv reqSeq hasPlatdata s = r at hResult ⊢
  have hIdle := idle_newDevice parent drv reqSeq
  have hOld : ∀ (x : Udevice), ∀ y ∈ s.listed, (addDevice x s).dev y = s.dev y := fun x y hy =>
    addDevice_other x (hTree.ne_fresh hy)
  cases hResult with
  | noRoom _ hSame => exact hSame.numbered hNumbered
  | notBound _ hListed hSame =>
    rcases hTree.notBound hListed with ⟨-, hLive, hBelow⟩
    refine hSame.numbered (hNumbered.same hTree (hOld _) ?_ ?_ rfl)
    · intro y hy
      refine (hBelow y hy).imp_right ?_
      rintro rfl
      have hNew : Idle ((addDevice (newDevice parent drv reqSeq) s).dev s.fresh) := by
        rw [addDevice_self]
        exact hIdle
      exact hNew
    · exact fun y hy _ => hLive ▸ hy
  | bound hSame =>
    refine hSame.numbered (hNumbered.same hTree (hOld _) ?_ ?_ rfl)
    · intro y hy
      refine (listed_addDevice.mp hy).imp_right ?_
      rintro rfl
      rw [addDevice_self]
      exact ⟨hIdle.hOff, hIdle.hSeq, hIdle.hPriv⟩
    · exact fun y hy _ => mem_addDevice.mpr (.inl hy)

theorem perform_numbered {op : Op} (hNumbered : Numbered w Unprobed s) (hTree : Tree s)
    (hValid : op.Valid s) (hFew : s.live.length < DM_MAX_SEQ) :
    Numbered w Unprobed (perform w s op).2 := by
  cases op with
  | bind parent drv reqSeq hasPlatdata =>
    exact deviceBind_numbered parent drv reqSeq hasPlatdata hNumbered hTree
  | probe d => exact probeWithin_numbered s.fresh hNumbered hTree hValid hFew
  | remove d flags => exact hNumbered.remove d flags
  | unbind d =>
    have hUnbound := unbindWithin_tree (d := d) w s.fresh hTree
    exact hNumbered.same hTree (fun x _ => congrFun hUnbound.hDev x)
      (fun x hx => .inl (hUnbound.hListed x hx))
      hUnbound.hActivated hUnbound.hAsserted

theorem empty_numbered (w : World) (drv : Driver) :
    Numbered w Unprobed (empty drv) :=
  ⟨nofun, nofun, nofun, nofun, nofun, rfl⟩

theorem dmInit_few {rootDriver : Driver}
    (hBound : (deviceBind w none rootDriver (-1) false (empty rootDriver)).1 = 0) :
    Tree (dmInit w rootDriver).2 ∧ Numbered w Unprobed (dmInit w rootDriver).2 := by
  have hInit := dmInit_keeps
    (I := fun s => Tree s ∧ Numbered w Unprobed s ∧ s.live.length ≤ 1) hBound ?_ ?_
  · exact ⟨hInit.1, hInit.2.1⟩
  · have hEmpty := empty_tree rootDriver
    refine ⟨perform_tree w _ hEmpty trivial, perform_numbered (empty_numbered w rootDriver) hEmpty
        trivial (show 0 < DM_MAX_SEQ by decide), ?_⟩
    have hResult := deviceBind_result w none rootDriver (-1) false (empty rootDriver)
    simp only [perform]
    generalize deviceBind w none rootDriver (-1) false (empty rootDriver) = r at hResult ⊢
    cases hResult with
    | noRoom _ hSame =>
      rcases hSame with ⟨trace, faulted, rfl⟩
      exact Nat.zero_le 1
    | notBound _ hListed hSame =>
      rcases hSame with ⟨trace, faulted, rfl⟩
      exact Nat.zero_le 1
    | bound hSame =>
      rcases hSame with ⟨trace, faulted, rfl⟩
      exact Nat.le_refl 1
  · rintro s ⟨hTree, hNumbered, hOne⟩ d hLive
    refine ⟨perform_tree w _ hTree hLive,
      perform_numbered hNumbered hTree hLive (Nat.lt_of_le_of_lt hOne (by decide)), ?_⟩
    have hKept := kept_deviceProbe w d s
    simp only [perform]
    rw [hKept.hLive]
    exact hOne

/-
  In every run with fewer devices than there are numbers, in
  which the devices that are not bound leave their lists, the
  numbers and the private data are as they should be.
-/
theorem sequence_numbers (w : World) (rootDriver : Driver) (s : State)
    (hReach : (driverModel w rootDriver).ReachableBy (FewThatGo w) s) :
    SequenceNumbers s := by
  have hInv : Tree s ∧ Numbered w Unprobed s ∧ Intact s := by
    refine hReach.invariant (I := fun s => Tree s ∧ Numbered w Unprobed s ∧ Intact s) ?_ ?_
    · rintro s ⟨hBound, rfl⟩
      rcases dmInit_few hBound with ⟨hTree, hNumbered⟩
      exact ⟨hTree, hNumbered, dmInit_intact hBound⟩
    · rintro s op t ⟨hTree, hNumbered, hIntact⟩ ⟨hFew, hLetsGo⟩ ⟨hValid, rfl⟩
      exact
        ⟨perform_tree w op hTree hValid, perform_numbered hNumbered hTree hValid hFew,
          perform_intact w op hIntact hLetsGo⟩
  rcases hInv with ⟨hTree, hNumbered, hIntact⟩
  constructor
  case hIntact => exact hIntact.2
  case hSeq =>
    intro d hLive
    have hListed := hTree.hOnList d hLive
    constructor
    · intro hSeq
      cases hOn : (s.dev d).activated with
      | true => rfl
      | false =>
        have hNone := hNumbered.hOff d hListed hOn
        omega
    · exact fun hOn => (hNumbered.hOn d hListed hOn).1
  case hUnique =>
    exact fun d hd e he => hNumbered.hUnique d (hTree.hOnList d hd) e (hTree.hOnList e he)
  case hAssert => exact hNumbered.hAssert
  case hFreed => exact fun d hd => hNumbered.hFreed d (hTree.hOnList d hd) id

end Numbers

----
-- Two Devices That Ask For One Number
----

/- Every hook succeeds. -/
def quietWorld : World where
  uclassDriver _ :=
    { perDeviceAutoAllocSize := 8
      perDevicePlatdataAutoAllocSize := 0
      perChildAutoAllocSize := 0
      perChildPlatdataAutoAllocSize := 0 }
  answer _ _ := 0

def smallDriver : Driver where
  id := 0
  flags := 0
  privAutoAllocSize := 4
  platdataAutoAllocSize := 0
  perChildAutoAllocSize := 16
  perChildPlatdataAutoAllocSize := 0

/- Two children of the root device are bound. -/
def twoBound : State :=
  (perform quietWorld
    (perform quietWorld (dmInit quietWorld smallDriver).2 (.bind (some 0) smallDriver 3 false)).2
    (.bind (some 0) smallDriver 3 false)).2

def twoProbed : State :=
  (perform quietWorld (perform quietWorld twoBound (.probe 1)).2 (.probe 2)).2

/- They have different numbers after they are probed. -/
theorem sequence_numbers_two :
    1 ∈ twoProbed.live ∧ 2 ∈ twoProbed.live ∧ (twoProbed.dev 1).activated = true ∧
      (twoProbed.dev 2).activated = true ∧ (twoProbed.dev 1).seq ≠ (twoProbed.dev 2).seq := by
  have hReach : (driverModel quietWorld smallDriver).ReachableBy (FewThatGo quietWorld) twoProbed :=
    .next (l := .probe 2)
      (.next (l := .probe 1)
        (.next (l := .bind (some 0) smallDriver 3 false)
          (.next (l := .bind (some 0) smallDriver 3 false)
            (.start ⟨by decide, rfl⟩)
            ⟨show _ < _ by decide, by decide⟩
            ⟨by unfold Op.Valid; decide, rfl⟩)
          ⟨show _ < _ by decide, by decide⟩
          ⟨by unfold Op.Valid; decide, rfl⟩)
        ⟨show _ < _ by decide, trivial⟩
        ⟨by unfold Op.Valid; decide, rfl⟩)
      ⟨show _ < _ by decide, trivial⟩
      ⟨by unfold Op.Valid; decide, rfl⟩
  have hUnique := (sequence_numbers quietWorld smallDriver twoProbed hReach).hUnique
  refine ⟨by decide, by decide, by decide, by decide, ?_⟩
  intro hSame
  exact absurd (hUnique 1 (by decide) 2 (by decide) (by decide)
    (by decide) (by decide) hSame) (by decide)

----
-- A Device That Is Freed On Its List
----

/- The second child is not bound, and its uclass keeps it. -/
def keepingWorld : World where
  uclassDriver := quietWorld.uclassDriver
  answer _ call := if call = ⟨.bind, 2⟩ ∨ call = ⟨.preUnbind, 2⟩ then -EINVAL else 0

/- Two children are to be bound. -/
def keptBound : State :=
  (perform keepingWorld
    (perform keepingWorld (dmInit keepingWorld smallDriver).2
      (.bind (some 0) smallDriver (-1) false)).2
    (.bind (some 0) smallDriver (-1) false)).2

/-
  The second one is freed and stays on the list of its uclass,
  which `uclass_resolve_seq` walks for a number of the first.
-/
theorem freed_device_is_read :
    ∃ s, (driverModel keepingWorld smallDriver).ReachableBy FewDevices s ∧
      2 ∈ s.listed ∧ 2 ∉ s.live ∧ ¬ SequenceNumbers s := by
  refine ⟨(perform keepingWorld keptBound (.probe 1)).2, ?_, by decide, by decide,
    fun hNumbers => absurd hNumbers.hIntact (by decide)⟩
  exact .next (l := .probe 1)
    (.next (l := .bind (some 0) smallDriver (-1) false)
      (.next (l := .bind (some 0) smallDriver (-1) false)
        (.start ⟨by decide, rfl⟩)
        (show _ < _ by decide) ⟨by unfold Op.Valid; decide, rfl⟩)
      (show _ < _ by decide) ⟨by unfold Op.Valid; decide, rfl⟩)
    (show _ < _ by decide) ⟨by unfold Op.Valid; decide, rfl⟩

end Uboot.Dm
