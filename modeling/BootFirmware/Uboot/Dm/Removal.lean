import BootFirmware.Uboot.Dm.Tree

/-
  Removing devices, and the devices below them.

  The error path of a removal ends with the `post_probe` of
  the uclass, whose result takes the place of the error.  As
  long as it is an error too, removal is truthful.

  Key definitions include:
    * `ParentsActivated`
    * `ErrorPathsFail`, `RemoveFailed` and `Orderly`
    * `Removes` and `OnlyAt`

  The main results are:
    * `removeWithin_removes`
    * `probeWithin_parents`
    * `removal_truthful`
    * `removal_reports_success`
-/

----
-- Activation
----

namespace Uboot.Dm

open List

/- The parent of a device that is activated is so as well. -/
def ParentsActivated (s : State) : Prop :=
  ∀ x ∈ s.live, ∀ p, (s.dev x).parent = some p →
    (s.dev x).activated = true → (s.dev p).activated = true

/- The calls of a step. -/
def newCalls (s s' : State) : Trace :=
  s'.trace.take (s'.trace.length - s.trace.length)

/-
  A `post_probe` of these calls fails.  Removal only calls it
  on its error paths.
-/
def ErrorPathsFail (calls : Trace) : Prop :=
  ∀ e ∈ calls, e.1.hook = .postProbe → e.2 ≠ 0

instance (calls : Trace) : Decidable (ErrorPathsFail calls) :=
  inferInstanceAs (Decidable (∀ e ∈ calls, _ → _))

/- A hook that removes a device has failed. -/
def RemoveFailed (calls : Trace) (x : DevId) : Prop :=
  ∃ ret : Int, ret ≠ 0 ∧ ((⟨.remove, x⟩, ret) ∈ calls ∨ (⟨.preRemove, x⟩, ret) ∈ calls)

section Activation

variable {s s' : State} {d x : DevId} {calls calls' : Trace}

theorem newCalls_eq (hTrace : s'.trace = calls ++ s.trace) :
    newCalls s s' = calls := by
  unfold newCalls
  rw [hTrace, length_append, Nat.add_sub_cancel, take_left]

theorem ErrorPathsFail.append (hFail : ErrorPathsFail (calls ++ calls')) :
    ErrorPathsFail calls ∧ ErrorPathsFail calls' :=
  ⟨fun e he => hFail e (mem_append_left _ he), fun e he => hFail e (mem_append_right _ he)⟩

theorem removeFailed_append :
    RemoveFailed (calls ++ calls') x ↔ RemoveFailed calls x ∨ RemoveFailed calls' x := by
  unfold RemoveFailed
  simp only [mem_append]
  constructor
  · rintro ⟨ret, hRet, (h | h) | (h | h)⟩
    · exact .inl ⟨ret, hRet, .inl h⟩
    · exact .inr ⟨ret, hRet, .inl h⟩
    · exact .inl ⟨ret, hRet, .inr h⟩
    · exact .inr ⟨ret, hRet, .inr h⟩
  · rintro (⟨ret, hRet, h⟩ | ⟨ret, hRet, h⟩)
    · exact ⟨ret, hRet, h.imp .inl .inl⟩
    · exact ⟨ret, hRet, h.imp .inr .inr⟩

theorem removeFailed_cons {e : Call × Int} :
    RemoveFailed (e :: calls) x ↔ RemoveFailed [e] x ∨ RemoveFailed calls x := by
  rw [← removeFailed_append]
  rfl

theorem removeFailed_single
    {hook : Hook} {ret : Int} (hFailed : RemoveFailed [(⟨hook, d⟩, ret)] x) :
    x = d ∧ ret ≠ 0 ∧ (hook = .remove ∨ hook = .preRemove) := by
  rcases hFailed with ⟨ret', hRet, hMem | hMem⟩
  · cases mem_singleton.mp hMem
    exact ⟨rfl, hRet, .inl rfl⟩
  · cases mem_singleton.mp hMem
    exact ⟨rfl, hRet, .inr rfl⟩

theorem keptByCalls_parents (w : World) :
    KeptByCalls w ParentsActivated :=
  fun _ _ _ hParents => hParents

theorem ParentsActivated.below (hParents : ParentsActivated s) (hBelow : Below s d x)
    (hActivated : (s.dev x).activated = true) :
    (s.dev d).activated = true := by
  induction hBelow with
  | here => exact hActivated
  | child _ hLive hParent ih => exact ih (hParents _ hLive _ hParent hActivated)

end Activation

----
-- Removing A Tree
----

/-
  Devices are removed, with all that is below them, or one of
  them is found to fail.
-/
structure Removes
    (s : State) (roots : List DevId) (calls : Trace)
    (r : Outcome) : Prop where
  hKept : Kept s r.2
  hFrame : ∀ x, (∀ c ∈ roots, x < c) → r.2.dev x = s.dev x
  hMono : ∀ x, (r.2.dev x).activated = true → (s.dev x).activated = true
  hParents : ParentsActivated r.2
  hZero : r.1 = 0 → ∀ c ∈ roots, ∀ x, Below s c x → (r.2.dev x).activated = false
  hFailed : ∀ x, RemoveFailed calls x → r.1 ≠ 0 ∧ (r.2.dev x).activated = true

/- The calls that are made, and what holds if they fail. -/
def RemovesBy (s : State) (roots : List DevId) (r : Outcome) :
    Prop :=
  ∃ calls, r.2.trace = calls ++ s.trace ∧ (ErrorPathsFail calls → Removes s roots calls r)

section Removing

variable {w : World} {s : State} {d c : DevId} {rest : List DevId}

theorem removesBy_nil (hParents : ParentsActivated s) :
    RemovesBy s [] (0, s) :=
  ⟨[], rfl, fun _ =>
    ⟨Kept.refl s, fun _ _ => rfl, fun _ hx => hx, hParents, fun _ _ hc => absurd hc not_mem_nil, by
        rintro x ⟨ret, -, hMem | hMem⟩
        · exact absurd hMem not_mem_nil
        · exact absurd hMem not_mem_nil⟩⟩

variable {r : Outcome}

/- One device after the other, up to an error. -/
theorem removesBy_cons {f : State → Outcome} (hFirst : RemovesBy s [c] r)
    (hRest : r.1 = 0 → Kept s r.2 → ParentsActivated r.2 → RemovesBy r.2 rest (f r.2))
    (hTrace : ∃ calls, (f r.2).2.trace = calls ++ r.2.trace) :
    RemovesBy s (c :: rest) (r.andThen f) := by
  rcases hFirst with ⟨calls, hCalls, hFirst⟩
  rcases andThen_cases r f with ⟨hError, hEq⟩ | ⟨hZero, hEq⟩
  · rw [hEq]
    refine ⟨calls, hCalls, fun hFail => ?_⟩
    have hRemoves := hFirst hFail
    refine ⟨hRemoves.hKept, ?_, hRemoves.hMono, hRemoves.hParents, fun hNone => absurd hNone hError,
      hRemoves.hFailed⟩
    intro x hx
    refine hRemoves.hFrame x fun y hy => ?_
    rw [mem_singleton.mp hy]
    exact hx c mem_cons_self
  · rw [hEq]
    rcases hTrace with ⟨calls', hCalls'⟩
    refine ⟨calls' ++ calls, ?_, fun hFail => ?_⟩
    · rw [hCalls', hCalls, append_assoc]
    have hRemoves := hFirst hFail.append.2
    rcases hRest hZero hRemoves.hKept hRemoves.hParents with ⟨calls'', hCalls'', hNext⟩
    have hSame : calls'' = calls' := append_cancel_right (hCalls''.symm.trans hCalls')
    subst hSame
    have hNext := hNext hFail.append.1
    constructor
    · exact hRemoves.hKept.trans hNext.hKept
    · intro x hx
      rw [hNext.hFrame x fun y hy => hx y (mem_cons_of_mem c hy)]
      refine hRemoves.hFrame x fun y hy => ?_
      rw [mem_singleton.mp hy]
      exact hx c mem_cons_self
    · exact fun x hx => hRemoves.hMono x (hNext.hMono x hx)
    · exact hNext.hParents
    · intro hNone y hy x hBelow
      rcases mem_cons.mp hy with rfl | hy
      · refine Bool.eq_false_iff.mpr fun hActivated => ?_
        have hBefore := hNext.hMono x hActivated
        rw [hRemoves.hZero hZero y mem_cons_self x hBelow] at hBefore
        exact Bool.false_ne_true hBefore
      · exact hNext.hZero hNone y hy x (hBelow.kept hRemoves.hKept)
    · intro x hFailed
      rcases removeFailed_append.mp hFailed with hLate | hEarly
      · exact hNext.hFailed x hLate
      · exact absurd hZero (hRemoves.hFailed x hEarly).1

/- The calls are only ever added to. -/
def Extends (s t : State) : Prop :=
  ∃ calls, t.trace = calls ++ s.trace

theorem keptByCalls_extends (w : World) (s : State) :
    KeptByCalls w (Extends s) := by
  rintro hook d t ⟨calls, hTrace⟩
  refine ⟨(⟨hook, d⟩, w.answer t.trace ⟨hook, d⟩) :: calls, ?_⟩
  rw [cons_append, ← hTrace]
  rfl

variable {flags : BitVec 32}

theorem removeWithin_extends {levels : Nat} {t : State} (hExtends : Extends s t) :
    Extends s (removeWithin w flags levels d t).2 :=
  removeWithin_keeps flags levels (keptByCalls_extends w s) (fun _ _ hCalls => hCalls) hExtends

theorem deviceChldRemove_removes {levels : Nat} {children : List DevId}
    (hRemove : ∀ c ∈ children, ∀ t, Kept s t →
      ParentsActivated t → RemovesBy t [c] (removeWithin w flags levels c t))
    (hParents : ParentsActivated s) :
    RemovesBy s children (deviceChldRemove (removeWithin w flags levels) children s) := by
  induction children generalizing s with
  | nil => exact removesBy_nil hParents
  | cons c rest ih =>
    have hFirst := hRemove c mem_cons_self s (Kept.refl s) hParents
    refine removesBy_cons hFirst ?_ ?_
    · intro _ hKept hParents'
      refine ih ?_ hParents'
      exact fun y hy t ht => hRemove y (mem_cons_of_mem c hy) t (hKept.trans ht)
    · exact deviceChldRemove_keeps rest (fun _ _ hExtends => removeWithin_extends hExtends)
        ⟨[], rfl⟩

theorem deactivate_parents (w : World) (hParents : ParentsActivated s)
    (hChildren : ∀ c ∈ s.children d, (s.dev c).activated = false) :
    ParentsActivated (deactivate w d s) := by
  have hKept := kept_deactivate w d s
  intro x hx p hp hActivated
  rw [hKept.hLive] at hx
  rw [hKept.hParent] at hp
  have hBefore := deactivate_mono w hActivated
  have hParent := hParents x hx p hp hBefore
  by_cases hEq : p = d
  · subst hEq
    rw [hChildren x (mem_children.mpr ⟨hx, hp⟩)] at hBefore
    exact absurd hBefore Bool.false_ne_true
  · rw [deactivate_other w hEq]
    exact hParent

variable {roots : List DevId}

/- A hook that was called before, and did not fail. -/
theorem RemovesBy.called {hook : Hook}
    (hZero : (callHook w hook d s).1 = 0) (hRemoves : RemovesBy (callHook w hook d s).2 roots r) :
    RemovesBy s roots r := by
  rcases hRemoves with ⟨calls, hTrace, hRemoves⟩
  refine ⟨calls ++ [(⟨hook, d⟩, (callHook w hook d s).1)], ?_, fun hFail => ?_⟩
  · rw [hTrace, append_assoc]
    rfl
  have hNext := hRemoves hFail.append.1
  have hKept := hNext.hKept
  refine ⟨⟨hKept.hLive, hKept.hListed, hKept.hFresh, hKept.hParent, hKept.hDriver, hKept.hBound⟩,
    hNext.hFrame, hNext.hMono, hNext.hParents, ?_, ?_⟩
  · have hSame := (keptByCalls_kept w s).callHook hook d (Kept.refl s)
    exact fun hNone c hc x hBelow => hNext.hZero hNone c hc x (hBelow.kept hSame)
  · intro x hFailed
    rcases removeFailed_append.mp hFailed with hLate | hEarly
    · exact hNext.hFailed x hLate
    · exact absurd hZero (removeFailed_single hEarly).2.1

section

variable (hRemoves : RemovesBy s roots r)
include hRemoves

/- One call more, which is not a removal that fails. -/
theorem RemovesBy.extend
    {hook : Hook} (hHook : hook = .childPostRemove ∨ (callHook w hook d r.2).1 = 0) :
    RemovesBy s roots (r.1, (callHook w hook d r.2).2) := by
  rcases hRemoves with ⟨calls, hTrace, hRemoves⟩
  refine ⟨(⟨hook, d⟩, (callHook w hook d r.2).1) :: calls,
    congrArg (_ :: ·) hTrace, fun hFail => ?_⟩
  have hBefore := hRemoves fun e he => hFail e (mem_cons_of_mem _ he)
  have hKept := hBefore.hKept
  refine ⟨⟨hKept.hLive, hKept.hListed, hKept.hFresh, hKept.hParent, hKept.hDriver, hKept.hBound⟩,
    hBefore.hFrame, hBefore.hMono, hBefore.hParents, hBefore.hZero, ?_⟩
  intro x hFailed
  rcases removeFailed_cons.mp hFailed with hSelf | hOld
  · rcases removeFailed_single hSelf with ⟨-, hRet, hRemove⟩
    rcases hHook with rfl | hZero
    · rcases hRemove with hEq | hEq
      · exact absurd hEq (by decide)
      · exact absurd hEq (by decide)
    · exact absurd hZero hRet
  · exact hBefore.hFailed x hOld

theorem RemovesBy.errorPath (hAbove : ∀ c ∈ roots, d < c) :
    RemovesBy s [d] (callHook w .postProbe d r.2) := by
  rcases hRemoves with ⟨calls, hTrace, hRemoves⟩
  refine ⟨(⟨.postProbe, d⟩, (callHook w .postProbe d r.2).1) ::
    calls, congrArg (_ :: ·) hTrace, fun hFails => ?_⟩
  have hBefore := hRemoves fun e he => hFails e (mem_cons_of_mem _ he)
  have hFail := hFails _ mem_cons_self rfl
  have hKept := hBefore.hKept
  refine ⟨⟨hKept.hLive, hKept.hListed, hKept.hFresh, hKept.hParent, hKept.hDriver, hKept.hBound⟩,
    ?_, hBefore.hMono, hBefore.hParents, fun hNone => absurd hNone hFail, ?_⟩
  · intro x hx
    refine hBefore.hFrame x fun c hc => ?_
    exact Nat.lt_trans (hx d mem_cons_self) (hAbove c hc)
  · intro x hFailed
    rcases removeFailed_cons.mp hFailed with hSelf | hOld
    · rcases (removeFailed_single hSelf).2.2 with hHook | hHook
      · exact absurd hHook (by decide)
      · exact absurd hHook (by decide)
    · exact ⟨hFail, (hBefore.hFailed x hOld).2⟩

/- The driver's own hook fails, after the children. -/
theorem RemovesBy.removeHook
    (hAbove : ∀ c ∈ roots, d < c) (hActivated : (s.dev d).activated = true) (hZero : r.1 = 0)
    (hFail : (callHook w .remove d r.2).1 ≠ 0) :
    RemovesBy s roots (callHook w .remove d r.2) := by
  rcases hRemoves with ⟨calls, hTrace, hRemoves⟩
  refine ⟨(⟨.remove, d⟩, (callHook w .remove d r.2).1) ::
    calls, congrArg (_ :: ·) hTrace, fun hFails => ?_⟩
  have hBefore := hRemoves fun e he => hFails e (mem_cons_of_mem _ he)
  have hKept := hBefore.hKept
  refine ⟨⟨hKept.hLive, hKept.hListed, hKept.hFresh, hKept.hParent, hKept.hDriver, hKept.hBound⟩,
    hBefore.hFrame, hBefore.hMono, hBefore.hParents, fun hNone => absurd hNone hFail, ?_⟩
  intro x hFailed
  rcases removeFailed_cons.mp hFailed with hSelf | hOld
  · rw [(removeFailed_single hSelf).1]
    refine ⟨hFail, ?_⟩
    have hFrame := hBefore.hFrame d hAbove
    rw [← hFrame] at hActivated
    exact hActivated
  · exact absurd hZero (hBefore.hFailed x hOld).1

end

/- The device is not activated any more, as its children. -/
theorem RemovesBy.deactivated
    (hTree : Tree s) (hRemoves : RemovesBy s (s.children d) r) (hZero : r.1 = 0) (ret : Int) :
    RemovesBy s [d] (ret, deactivate w d r.2) := by
  rcases hRemoves with ⟨calls, hTrace, hRemoves⟩
  refine ⟨calls, hTrace, fun hFails => ?_⟩
  have hBefore := hRemoves hFails
  have hKept := kept_deactivate w d r.2
  have hAbove : ∀ c ∈ s.children d, d < c := by
    intro c hc
    rcases mem_children.mp hc with ⟨hLive, hParent⟩
    exact (hTree.hParent c hLive d hParent).2
  constructor
  · exact hBefore.hKept.trans hKept
  · intro x hx
    have hLess := hx d mem_cons_self
    rw [deactivate_other w (Nat.ne_of_lt hLess)]
    exact hBefore.hFrame x fun c hc => Nat.lt_trans hLess (hAbove c hc)
  · exact fun x hx => hBefore.hMono x (deactivate_mono w hx)
  · refine deactivate_parents w hBefore.hParents fun c hc => ?_
    rw [hBefore.hKept.children] at hc
    exact hBefore.hZero hZero c hc c .here
  · intro _ c hc x hx
    rw [mem_singleton.mp hc] at hx
    by_cases hEq : x = d
    · rw [hEq]
      exact deactivate_self w d r.2
    · simp only
      rw [deactivate_other w hEq]
      rcases hx.cases_child with rfl | ⟨c, hc, hx⟩
      · exact absurd rfl hEq
      · exact hBefore.hZero hZero c hc x hx
  · exact fun x hFailed => absurd hZero (hBefore.hFailed x hFailed).1

theorem flagsRemove_normal (flags : BitVec 32) :
    flagsRemove DM_REMOVE_NORMAL flags = true := by
  exact decide_eq_true (.inl (by decide))

/- The device itself, once its children are removed. -/
theorem removeSelf_removes (hTree : Tree s) (hActivated : (s.dev d).activated = true)
    (hChildren : RemovesBy s (s.children d) r) (hZero : r.1 = 0) :
    RemovesBy s [d] (removeSelf w DM_REMOVE_NORMAL d r.2) := by
  have hAbove : ∀ c ∈ s.children d, d < c := by
    intro c hc
    rcases mem_children.mp hc with ⟨hLive, hParent⟩
    exact (hTree.hParent c hLive d hParent).2
  unfold removeSelf
  rw [flagsRemove_normal]
  simp only [if_true]
  by_cases hFail : (callHook w .remove d r.2).1 ≠ 0
  · rw [if_pos hFail]
    exact (hChildren.removeHook hAbove hActivated hZero hFail).errorPath hAbove
  · rw [if_neg hFail]
    have hRemoved := hChildren.extend (.inr (not_not.mp hFail))
    unfold callParent
    split_ifs
    · exact (hRemoved.extend (.inl rfl)).deactivated hTree hZero _
    · exact hRemoved.deactivated hTree hZero _

/-
  A device is removed, by induction on the levels.  The
  device itself is above its children, and is changed only
  once all of them are removed.
-/
theorem removeWithin_removes (levels : Nat) (hTree : Tree s) (hLive : d ∈ s.live)
    (hLevels : s.fresh ≤ levels + d) (hParents : ParentsActivated s) :
    RemovesBy s [d] (removeWithin w DM_REMOVE_NORMAL levels d s)
    := by
  induction levels generalizing d s with
  | zero =>
    rw [Nat.zero_add] at hLevels
    exact absurd (hTree.hLive d hLive) (Nat.not_lt.mpr hLevels)
  | succ levels ih =>
    unfold removeWithin
    by_cases hActivated : (s.dev d).activated = false
    · rw [if_pos hActivated]
      refine ⟨[], rfl, fun _ => ⟨Kept.refl s, fun _ _ => rfl, fun _ hx => hx, hParents, ?_, ?_⟩⟩
      · intro _ c hc x hx
        rw [mem_singleton.mp hc] at hx
        refine Bool.eq_false_iff.mpr fun hOn => ?_
        rw [hParents.below hx hOn] at hActivated
        exact Bool.false_ne_true hActivated.symm
      · rintro x ⟨ret, -, hMem | hMem⟩
        · exact absurd hMem not_mem_nil
        · exact absurd hMem not_mem_nil
    rw [if_neg hActivated]
    rw [Bool.not_eq_false] at hActivated
    rcases andThen_cases (callHook w .preRemove d s) _ with ⟨hError, hEq⟩ | ⟨hZero, hEq⟩
    · rw [hEq]
      refine ⟨[(⟨.preRemove, d⟩, _)], rfl, fun _ => ⟨
        (keptByCalls_kept w s).callHook _ d (Kept.refl s), fun _ _ => rfl, fun _ hx => hx, hParents,
        fun hNone => absurd hNone hError, ?_⟩⟩
      intro x hFailed
      rw [(removeFailed_single hFailed).1]
      exact ⟨hError, hActivated⟩
    · rw [hEq]
      refine RemovesBy.called hZero ?_
      have hTree' := (keptByCalls_tree w).callHook .preRemove d hTree
      have hParents' := (keptByCalls_parents w).callHook .preRemove d hParents
      have hOn : ((callHook w .preRemove d s).2.dev d).activated = true := hActivated
      have hMore : (callHook w .preRemove d s).2.fresh ≤ levels + 1 + d := hLevels
      generalize (callHook w .preRemove d s).2 = t at hTree' hParents' hOn hMore
      have hAbove : ∀ c ∈ t.children d, c ∈ t.live ∧ d < c := by
        intro c hc
        rcases mem_children.mp hc with ⟨hcLive, hParent⟩
        exact ⟨hcLive, (hTree'.hParent c hcLive d hParent).2⟩
      have hChildren : RemovesBy t (t.children d)
          (deviceChldRemove (removeWithin w DM_REMOVE_NORMAL levels) (t.children d) t) := by
        refine deviceChldRemove_removes ?_ hParents'
        intro c hc u hKept hu
        rcases hAbove c hc with ⟨hcLive, hLess⟩
        refine ih (hKept.tree hTree') ?_ ?_ hu
        · rw [hKept.hLive]
          exact hcLive
        · rw [hKept.hFresh]
          exact Nat.le_trans hMore (by
            rw [Nat.add_assoc, Nat.add_comm 1]
            exact Nat.add_le_add_left hLess levels)
      simp only
      split_ifs with hError
      · exact hChildren.errorPath fun c hc => (hAbove c hc).2
      · exact removeSelf_removes hTree' hOn hChildren (not_not.mp hError)

end Removing

----
-- Probing
----

/- None of the children of a device is activated. -/
def Alone (s : State) (d : DevId) : Prop :=
  ∀ c ∈ s.children d, c ≠ d ∧ (s.dev c).activated = false

section Probing

variable {w : World} {s t u : State} {d : DevId}

theorem OnlyAt.alone (hOnly : OnlyAt d s t) (hAlone : Alone s d) :
    Alone t d := by
  intro c hc
  rw [hOnly.hKept.children] at hc
  rcases hAlone c hc with ⟨hNe, hOff⟩
  refine ⟨hNe, ?_⟩
  rw [hOnly.hDev c hNe]
  exact hOff

theorem ParentsActivated.alone
    (hTree : Tree s) (hParents : ParentsActivated s) (hOff : (s.dev d).activated = false) :
    Alone s d := by
  intro c hc
  rcases mem_children.mp hc with ⟨hLive, hParent⟩
  refine ⟨Nat.ne_of_gt (hTree.hParent c hLive d hParent).2, ?_⟩
  refine Bool.eq_false_iff.mpr fun hOn => ?_
  rw [hParents c hLive d hParent hOn] at hOff
  exact Bool.false_ne_true hOff.symm

/- A change of a device whose children are not activated. -/
theorem OnlyAt.parents
    (hTree : Tree s) (hOnly : OnlyAt d s t) (hAlone : Alone s d) (hParents : ParentsActivated s)
    (hOwn : (t.dev d).activated = true → ∀ p,
      (s.dev d).parent = some p → (s.dev p).activated = true) :
    ParentsActivated t := by
  intro x hx p hp hOn
  rw [hOnly.hKept.hLive] at hx
  rw [hOnly.hKept.hParent] at hp
  have hLess := (hTree.hParent x hx p hp).2
  by_cases hxd : x = d
  · subst hxd
    rw [hOnly.hDev p (Nat.ne_of_lt hLess)]
    exact hOwn hOn p hp
  · rw [hOnly.hDev x hxd] at hOn
    by_cases hpd : p = d
    · subst hpd
      have hOff := (hAlone x (mem_children.mpr ⟨hx, hp⟩)).2
      exact absurd (hOff.symm.trans hOn) Bool.false_ne_true
    · rw [hOnly.hDev p hpd]
      exact hParents x hx p hp hOn

/- Removing children that are not activated does nothing. -/
theorem deviceChldRemove_alone
    (w : World) (flags : BitVec 32) (levels : Nat) {children : List DevId}
    (hOff : ∀ c ∈ children, (s.dev c).activated = false) :
    (deviceChldRemove (removeWithin w flags levels) children s).2 = s := by
  have hOne : ∀ c ∈ children, (removeWithin w flags levels c s).2 = s := by
    intro c hc
    cases levels with
    | zero => rfl
    | succ levels =>
      unfold removeWithin
      rw [if_pos (hOff c hc)]
  induction children with
  | nil => rfl
  | cons c rest ih =>
    have hFirst := hOne c mem_cons_self
    unfold deviceChldRemove
    rcases andThen_cases (removeWithin w flags levels c s)
        (deviceChldRemove (removeWithin w flags levels) rest) with
      ⟨-, hEq⟩ | ⟨-, hEq⟩
    · rw [hEq, hFirst]
    · rw [hEq, hFirst]
      exact ih (fun y hy => hOff y (mem_cons_of_mem c hy))
        fun y hy => hOne y (mem_cons_of_mem c hy)

theorem removeWithin_alone {flags : BitVec 32} {levels : Nat} (hAlone : Alone s d) :
    OnlyAt d s (removeWithin w flags levels d s).2 := by
  cases levels with
  | zero => exact OnlyAt.refl d s
  | succ levels =>
    have hCalls := keptByCalls_onlyAt w d s
    have hPre := hCalls.callHook .preRemove d (OnlyAt.refl d s)
    unfold removeWithin
    split_ifs
    · exact OnlyAt.refl d s
    refine andThen_keeps hPre fun _ => ?_
    have hState := deviceChldRemove_alone w flags levels (fun c hc => (hPre.alone hAlone c hc).2)
    simp only [hState]
    split_ifs
    · exact hCalls.callHook .postProbe d hPre
    · exact removeSelf_keeps flags hCalls (fun u hu => hu.trans (onlyAt_deactivate w d u)) hPre

theorem probeActivated_onlyAt (w : World) (hAlone : Alone s d) (hOn : (s.dev d).activated = true) :
    OnlyAt d s (probeActivated w d s).2 ∧
      ((probeActivated w d s).1 = 0 → ((probeActivated w d s).2.dev d).activated = true) := by
  have hCalls := keptByCalls_onlyAt w d s
  have hHooks := hCalls.probeHooks d (OnlyAt.refl d s)
  have hProbe := hCalls.callHook .probe d hHooks
  have hPost := hCalls.callHook .postProbe d hProbe
  unfold probeActivated
  simp only
  split_ifs with hFirst hSecond hThird
  · exact ⟨hHooks.trans (onlyAt_probeFail w d _ _), fun hZero => absurd hZero hFirst⟩
  · refine ⟨(hProbe.trans ?_).trans (onlyAt_probeFail w d _ _), fun hZero => absurd hZero hSecond⟩
    exact onlyAt_modify _ d fun _ => ⟨rfl, rfl, rfl⟩
  · refine ⟨(hPost.trans ?_).trans (onlyAt_probeFail w d _ _), fun hZero => absurd hZero hThird⟩
    exact removeWithin_alone (hPost.alone hAlone)
  · refine ⟨hPost, fun _ => ?_⟩
    have hSame := (keptByCalls_dev w d (s.dev d)).probeHooks d
      rfl
    exact (congrArg Udevice.activated hSame).trans hOn

theorem probeNumbered_onlyAt (w : World) (hAlone : Alone s d) :
    OnlyAt d s (probeNumbered w d s).2 ∧
      ((probeNumbered w d s).1 = 0 → ((probeNumbered w d s).2.dev d).activated = true) := by
  unfold probeNumbered
  simp only
  generalize uclassResolveSeq _ d = seq
  generalize hTouch : State.touch _ _ = t
  have hStart : OnlyAt d s t := by
    rw [← hTouch]
    exact ⟨⟨rfl, rfl, rfl, fun _ => rfl, fun _ => rfl, fun _ => rfl⟩, fun _ _ => rfl⟩
  split_ifs with hNegative
  · refine ⟨hStart.trans (onlyAt_probeFail w d _ _), ?_⟩
    intro hZero
    exact absurd hZero (Int.ne_of_lt hNegative)
  · have hNumber := hStart.trans (onlyAt_modify t d
      (f := fun x => { x with seq := seq, activated := true }) fun _ => ⟨rfl, rfl, rfl⟩)
    have hActivated := probeActivated_onlyAt w
      (hNumber.alone hAlone) (by
        unfold State.modify
        simp only [Function.update_self])
    exact ⟨hNumber.trans hActivated.1, hActivated.2⟩

/- What probing a device leaves activated. -/
structure Probed (d : DevId) (s : State) (r : Outcome) : Prop where
  hKept : Kept s r.2
  hParents : ParentsActivated r.2
  hZero : r.1 = 0 → (r.2.dev d).activated = true
  hFrame : ∀ x, d < x → r.2.dev x = s.dev x

/- An error, after which the device is not activated. -/
theorem Probed.fail {r : Outcome} (hTree : Tree s) (hParents : ParentsActivated s)
    (hOff : (s.dev d).activated = false) (hOnly : OnlyAt d s r.2) (hError : r.1 ≠ 0) :
    Probed d s (probeFail w d r.1 r.2) := by
  have hFail := hOnly.trans (onlyAt_probeFail w d r.1 r.2)
  refine ⟨hFail.hKept, ?_, fun hZero => absurd hZero hError,
    fun x hx => hFail.hDev x (Nat.ne_of_gt hx)⟩
  refine hFail.parents hTree (hParents.alone hTree hOff) hParents fun hOn => ?_
  rw [probeFail_off] at hOn
  exact absurd hOn Bool.false_ne_true

theorem Probed.number (hTree : Tree s) (hParents : ParentsActivated s)
    (hOff : (s.dev d).activated = false) (hOnly : OnlyAt d s t)
    (hAbove : ∀ p, (s.dev d).parent = some p → (s.dev p).activated = true) :
    Probed d s (probeNumbered w d t) := by
  have hAlone := hParents.alone hTree hOff
  have hNumber := probeNumbered_onlyAt w (hOnly.alone hAlone)
  have hAll := hOnly.trans hNumber.1
  exact ⟨hAll.hKept, hAll.parents hTree hAlone hParents fun _ => hAbove,
    hNumber.2, fun x hx => hAll.hDev x (Nat.ne_of_gt hx)⟩

theorem Probed.trans
    {p : DevId} {r r' : Outcome} (hLess : p < d) (hFirst : Probed p s r) (hNext : Probed d r.2 r') :
    Probed d s r' :=
  ⟨hFirst.hKept.trans hNext.hKept, hNext.hParents, hNext.hZero,
    fun x hx => (hNext.hFrame x hx).trans (hFirst.hFrame x (Nat.lt_trans hLess hx))⟩

theorem Probed.after {r : Outcome} (hOnly : OnlyAt d s t) (hProbed : Probed d t r) :
    Probed d s r :=
  ⟨hOnly.hKept.trans hProbed.hKept, hProbed.hParents,
    hProbed.hZero, fun x hx => (hProbed.hFrame x hx).trans (hOnly.hDev x (Nat.ne_of_gt hx))⟩

/- Allocating does not matter to what is activated. -/
theorem OnlyAt.off_parents (hTree : Tree s) (hOnly : OnlyAt d s t)
    (hParents : ParentsActivated s) (hOff : (s.dev d).activated = false)
    (hOff' : (t.dev d).activated = false) :
    ParentsActivated t := by
  refine hOnly.parents hTree (hParents.alone hTree hOff) hParents fun hOn => ?_
  exact absurd (hOff'.symm.trans hOn) Bool.false_ne_true

theorem probeBelow_probed {p : DevId} {probeParent : State → Outcome}
    (hTree : Tree s) (hLive : d ∈ s.live) (hParent : (s.dev d).parent = some p)
    (hOff : (s.dev d).activated = false) (hParents : ParentsActivated s)
    (hProbe : ∀ u, Kept s u → ParentsActivated u → Probed p u (probeParent u)) :
    Probed d s (probeBelow w probeParent d s) := by
  have hLess := (hTree.hParent d hLive p hParent).2
  rcases allocPriv_off w .parentPriv hOff (OnlyAt.refl d s) with ⟨hAlloc, hAllocOff⟩
  unfold probeBelow
  simp only
  split_ifs with hNoRoom hError hOn
  · exact Probed.fail hTree hParents hOff hAlloc hNoRoom
  all_goals
    have hFirst := hProbe _ hAlloc.hKept (hAlloc.off_parents hTree hParents hOff hAllocOff)
    have hTree' := hFirst.hKept.tree (hAlloc.hKept.tree hTree)
    have hSame := congrArg Udevice.activated (hFirst.hFrame d hLess)
    rw [hAllocOff] at hSame
    refine Probed.after hAlloc (hFirst.trans hLess ?_)
  · exact Probed.fail hTree' hFirst.hParents hSame (OnlyAt.refl d _) hError
  · exact absurd (hSame.symm.trans hOn) Bool.false_ne_true
  · refine Probed.number hTree' hFirst.hParents hSame (OnlyAt.refl d _) fun q hq => ?_
    rw [hFirst.hKept.hParent, hAlloc.hKept.hParent, hParent] at hq
    rw [← Option.some.inj hq]
    exact hFirst.hZero (not_not.mp hError)

/-
  Probing keeps what is activated below what is, by induction
  on the levels.  Only the device and those above it change.
-/
theorem probeWithin_probed (levels : Nat) (hTree : Tree s) (hLive : d ∈ s.live)
    (hLevels : d < levels) (hParents : ParentsActivated s) :
    Probed d s (probeWithin w levels d s) := by
  induction levels generalizing d s with
  | zero => exact absurd hLevels (Nat.not_lt_zero d)
  | succ levels ih =>
    unfold probeWithin
    cases hOn : (s.dev d).activated with
    | true =>
      rw [if_pos rfl]
      exact ⟨Kept.refl s, hParents, fun _ => hOn, fun _ _ => rfl⟩
    | false =>
      rw [if_neg Bool.false_ne_true]
      rcases probeAlloc_off w hOn with ⟨hAlloc, hOff⟩
      simp only
      split_ifs with hNoRoom
      · exact Probed.fail hTree hParents hOn hAlloc hNoRoom
      cases hParent : (s.dev d).parent with
      | none =>
        refine Probed.number hTree hParents hOn hAlloc ?_
        intro p hp
        rw [hParent] at hp
        exact absurd hp nofun
      | some p =>
        rcases hTree.hParent d hLive p hParent with ⟨hpLive, hLess⟩
        have hTree' := hAlloc.hKept.tree hTree
        rw [← hAlloc.hKept.hParent] at hParent
        refine Probed.after hAlloc
          (probeBelow_probed hTree' ?_ hParent hOff (hAlloc.off_parents hTree hParents hOn hOff)
            fun u hKept hu => ?_)
        · rw [hAlloc.hKept.hLive]
          exact hLive
        · refine ih (hKept.tree hTree') ?_ (Nat.lt_of_lt_of_le hLess (Nat.le_of_lt_succ hLevels)) hu
          rw [hKept.hLive, hAlloc.hKept.hLive]
          exact hpLive

end Probing

----
-- The Runs
----

/-
  A removal is a normal one, and whenever it takes its error
  path the `post_probe` that it calls there fails as well.
-/
def ReportsErrors (w : World) (s : State) (op : Op) : Prop :=
  match op with
  | .remove _ flags =>
    flags = DM_REMOVE_NORMAL ∧ ErrorPathsFail (newCalls s (perform w s op).2)
  | .bind _ _ _ _ | .probe _ | .unbind _ => True

/- And its devices that are not bound leave their lists. -/
def Orderly (w : World) (s : State) (op : Op) : Prop :=
  ReportsErrors w s op ∧ LetsGo w s op

section Runs

variable {w : World} {rootDriver : Driver} {s : State}

theorem ParentsActivated.same {t : State}
    (hTree : Tree s) (hParents : ParentsActivated s) (hDev : ∀ y ∈ s.live, t.dev y = s.dev y)
    (hLive : ∀ y ∈ t.live, y ∈ s.live ∨ (t.dev y).activated = false) :
    ParentsActivated t := by
  intro x hx p hp hOn
  rcases hLive x hx with hxLive | hOff
  · rw [hDev x hxLive] at hp hOn
    rw [hDev p (hTree.hParent x hxLive p hp).1]
    exact hParents x hxLive p hp hOn
  · exact absurd (hOff.symm.trans hOn) Bool.false_ne_true

theorem SameBut.parents {t : State} (hSame : SameBut s t) (hParents : ParentsActivated s) :
    ParentsActivated t := by
  rcases hSame with ⟨trace, faulted, rfl⟩
  exact hParents

theorem deviceBind_parents
    {parent : Option DevId} {drv : Driver} {reqSeq : Int} {hasPlatdata : Bool}
    (hTree : Tree s) (hParents : ParentsActivated s) :
    ParentsActivated (deviceBind w parent drv reqSeq hasPlatdata s).2 := by
  have hResult := deviceBind_result w parent drv reqSeq hasPlatdata s
  generalize deviceBind w parent drv reqSeq hasPlatdata s = r at hResult ⊢
  have hOld : ∀ (x : Udevice), ∀ y ∈ s.live, (addDevice x s).dev y = s.dev y := fun x y hy =>
    addDevice_other x (hTree.ne_fresh (hTree.hOnList y hy))
  cases hResult with
  | noRoom _ hSame => exact hSame.parents hParents
  | notBound _ hListed hSame =>
    refine hSame.parents (hParents.same hTree (hOld _) ?_)
    exact fun y hy => .inl ((hTree.notBound hListed).2.1 ▸ hy)
  | bound hSame =>
    refine hSame.parents (hParents.same hTree (hOld _) ?_)
    intro y hy
    rcases mem_addDevice.mp hy with hy | rfl
    · exact .inl hy
    · rw [addDevice_self]
      exact .inr rfl

theorem deviceRemove_removes
    {d : DevId} (hTree : Tree s) (hLive : d ∈ s.live) (hParents : ParentsActivated s)
    (hFail : ErrorPathsFail (newCalls s (deviceRemove w d DM_REMOVE_NORMAL s).2)) :
    Removes s [d] (newCalls s (deviceRemove w d DM_REMOVE_NORMAL s).2)
      (deviceRemove w d DM_REMOVE_NORMAL s) := by
  rcases removeWithin_removes (w := w) s.fresh hTree hLive
      (Nat.le_add_right _ _) hParents with
    ⟨calls, hTrace, hRemoves⟩
  have hCalls : newCalls s (deviceRemove w d DM_REMOVE_NORMAL s).2 = calls := newCalls_eq hTrace
  rw [hCalls] at hFail ⊢
  exact hRemoves hFail

theorem perform_parents {op : Op} (hTree : Tree s) (hParents : ParentsActivated s)
    (hValid : op.Valid s) (hReports : ReportsErrors w s op) :
    ParentsActivated (perform w s op).2 := by
  cases op with
  | bind parent drv reqSeq hasPlatdata => exact deviceBind_parents hTree hParents
  | probe d =>
    exact (probeWithin_probed s.fresh hTree hValid (hTree.hLive d hValid) hParents).hParents
  | remove d flags =>
    rcases hReports with ⟨rfl, hFail⟩
    exact (deviceRemove_removes hTree hValid hParents hFail).hParents
  | unbind d =>
    have hUnbound := unbindWithin_tree (d := d) w s.fresh hTree
    exact hParents.same hTree (fun y _ => congrFun hUnbound.hDev y)
      fun y hy => .inl (hUnbound.hLive y hy)

/-
  In every run that reports the errors of its removals, and
  whose devices that are not bound leave their lists, no
  device is touched that is freed, and the parent of a device
  that is activated is so as well.  What is removed next is
  not activated afterwards, with all that is below it, unless
  there is an error; and a device is still activated if the
  removal of one below it has failed.
-/
theorem removal_truthful (w : World) (rootDriver : Driver) (s : State)
    (hReach : (driverModel w rootDriver).ReachableBy (Orderly w) s) :
    s.faulted = false ∧ ParentsActivated s ∧ ∀ d ∈ s.live,
        ReportsErrors w s (.remove d DM_REMOVE_NORMAL) →
          let r := deviceRemove w d DM_REMOVE_NORMAL s
          (r.1 = 0 → ∀ x, Below s d x → (r.2.dev x).activated = false) ∧
          ∀ x, RemoveFailed (newCalls s r.2) x →
            r.1 ≠ 0 ∧ ∀ a, Below s a x → (r.2.dev a).activated = true := by
  have hInv : Tree s ∧ ParentsActivated s ∧ Intact s := by
    refine hReach.invariant (I := fun s => Tree s ∧ ParentsActivated s ∧ Intact s) ?_ ?_
    · rintro s ⟨hBound, rfl⟩
      have hInit : Tree (dmInit w rootDriver).2 ∧ ParentsActivated (dmInit w rootDriver).2 := by
        refine dmInit_keeps (I := fun s => Tree s ∧ ParentsActivated s) hBound ?_ ?_
        · have hEmpty := empty_tree rootDriver
          exact ⟨perform_tree w _ hEmpty trivial, perform_parents hEmpty nofun trivial trivial⟩
        · exact fun t ht d hd => ⟨perform_tree w _ ht.1 hd, perform_parents ht.1 ht.2 hd trivial⟩
      exact ⟨hInit.1, hInit.2, dmInit_intact hBound⟩
    · rintro s op t ⟨hTree, hParents, hIntact⟩ ⟨hReports, hLetsGo⟩ ⟨hValid, rfl⟩
      exact
        ⟨perform_tree w op hTree hValid, perform_parents hTree hParents hValid hReports,
          perform_intact w op hIntact hLetsGo⟩
  rcases hInv with ⟨hTree, hParents, hIntact⟩
  refine ⟨hIntact.2, hParents, ?_⟩
  rintro d hLive ⟨-, hFail⟩ r
  have hRemoves := deviceRemove_removes hTree hLive hParents hFail
  refine ⟨fun hZero => hRemoves.hZero hZero d mem_cons_self, ?_⟩
  intro x hFailed
  rcases hRemoves.hFailed x hFailed with ⟨hError, hOn⟩
  exact ⟨hError, fun a hBelow => hRemoves.hParents.below (hBelow.kept hRemoves.hKept) hOn⟩

end Runs

----
-- A Child That Fails To Remove
----

/- A driver without private or platform data. -/
def plainDriver : Driver where
  id := 0
  flags := 0
  privAutoAllocSize := 0
  platdataAutoAllocSize := 0
  perChildAutoAllocSize := 0
  perChildPlatdataAutoAllocSize := 0

def plainUclass : UclassDriver where
  perDeviceAutoAllocSize := 0
  perDevicePlatdataAutoAllocSize := 0
  perChildAutoAllocSize := 0
  perChildPlatdataAutoAllocSize := 0

/- The driver of the first child fails to remove it. -/
def failingWorld : World where
  uclassDriver _ := plainUclass
  answer _ call := if call = ⟨.remove, 1⟩ then -5 else 0

/- After that, every `post_probe` fails as well. -/
def reportingWorld : World where
  uclassDriver _ := plainUclass
  answer trace call :=
    if call = ⟨.remove, 1⟩ then -5
    else if call.hook = .postProbe ∧ (⟨.remove, 1⟩, -5) ∈ trace then -5
    else 0

/- The root device and a child of it, both of them probed. -/
def probedChild (w : World) : State :=
  (perform w (perform w (dmInit w plainDriver).2 (.bind (some 0) plainDriver (-1) false)).2
    (.probe 1)).2

/- The error is reported, and both are still activated. -/
theorem removal_truthful_child :
    (deviceRemove reportingWorld 0 DM_REMOVE_NORMAL (probedChild reportingWorld)).1 ≠ 0 ∧ ∀ a < 2,
        ((deviceRemove reportingWorld 0 DM_REMOVE_NORMAL
          (probedChild reportingWorld)).2.dev a).activated = true := by
  have hReach : (driverModel reportingWorld plainDriver).ReachableBy (Orderly reportingWorld)
      (probedChild reportingWorld) :=
    .next (l := .probe 1)
      (.next (l := .bind (some 0) plainDriver (-1) false)
        (.start ⟨by decide, rfl⟩) ⟨trivial, by decide⟩
        ⟨by unfold Op.Valid; decide, rfl⟩)
      ⟨trivial, trivial⟩ ⟨by unfold Op.Valid; decide, rfl⟩
  have hLast := ((removal_truthful reportingWorld plainDriver _
    hReach).2.2 0 (by decide) ⟨rfl, by decide⟩).2 1
    ⟨-5, by decide, .inl (by decide)⟩
  have hRoot : Below (probedChild reportingWorld) 0 1 := .child .here (by decide) (by decide)
  refine ⟨hLast.1, ?_⟩
  intro a ha
  match a, ha with
  | 0, _ => exact hLast.2 0 hRoot
  | 1, _ => exact hLast.2 1 .here

/-
  The child fails to be removed, and `post_probe` does not:
  there is no error, and the root is removed above it.
-/
theorem removal_reports_success :
    (driverModel failingWorld plainDriver).Reachable (probedChild failingWorld) ∧
      (deviceRemove failingWorld 0 DM_REMOVE_NORMAL (probedChild failingWorld)).1 = 0 ∧ RemoveFailed
        (newCalls (probedChild failingWorld)
          (deviceRemove failingWorld 0 DM_REMOVE_NORMAL (probedChild failingWorld)).2) 1 ∧
      Below (probedChild failingWorld) 0 1 ∧ ((deviceRemove failingWorld 0 DM_REMOVE_NORMAL
        (probedChild failingWorld)).2.dev 1).activated = true ∧
      ((deviceRemove failingWorld 0 DM_REMOVE_NORMAL
        (probedChild failingWorld)).2.dev 0).activated = false := by
  refine ⟨?_, by decide, ⟨-5, by decide, .inl (by decide)⟩,
    .child .here (by decide) (by decide), by decide, by decide⟩
  exact .next (l := .probe 1)
    (.next (l := .bind (some 0) plainDriver (-1) false)
      (.start ⟨by decide, rfl⟩) trivial
      ⟨by unfold Op.Valid; decide, rfl⟩)
    trivial ⟨by unfold Op.Valid; decide, rfl⟩

end Uboot.Dm
