import BootFirmware.Uboot.Dm.Device

/-
  The tree of the devices, which only binding and unbinding
  change.

  Key definitions include:
    * `Tree` and `Below`
    * `Kept`
    * `Intact` and `LetsGo`

  The main results are:
    * `removeWithin_keeps` and `probeWithin_keeps`
    * `perform_tree` and `perform_intact`
-/

----
-- Calls
----

namespace Uboot.Dm

open List Function

section Calls

variable {w : World} {s : State} {d : DevId} {I : State → Prop}

/- An invariant that a call does not matter to. -/
def KeptByCalls (w : World) (I : State → Prop) : Prop :=
  ∀ hook d s, I s → I (callHook w hook d s).2

theorem KeptByCalls.callHook (hCalls : KeptByCalls w I) (hook : Hook) (d : DevId) (hInv : I s) :
    I (callHook w hook d s).2 :=
  hCalls hook d s hInv

theorem KeptByCalls.callParent (hCalls : KeptByCalls w I) (hook : Hook) (d : DevId) (hInv : I s) :
    I (callParent w hook d s).2 := by
  unfold Dm.callParent
  split_ifs
  · exact hCalls.callHook hook d hInv
  · exact hInv

theorem andThen_cases (r : Outcome) (f : State → Outcome) :
    (r.1 ≠ 0 ∧ r.andThen f = r) ∨ (r.1 = 0 ∧ r.andThen f = f r.2) := by
  by_cases hZero : r.1 = 0
  · exact .inr ⟨hZero, if_pos hZero⟩
  · exact .inl ⟨hZero, if_neg hZero⟩

theorem andThen_keeps
    {r : Outcome} {f : State → Outcome} (hFirst : I r.2) (hNext : I r.2 → I (f r.2).2) :
    I (r.andThen f).2 := by
  unfold Outcome.andThen
  split_ifs
  · exact hNext hFirst
  · exact hFirst

theorem callAll_keeps {calls : List (State → Outcome)}
    (hEach : ∀ call ∈ calls, ∀ s, I s → I (call s).2) (hInv : I s) :
    I (callAll calls s).2 := by
  have hFold : ∀ r : Outcome, I r.2 → I (calls.foldl Outcome.andThen r).2 := by
    induction calls with
    | nil => exact fun r hr => hr
    | cons call rest ih =>
      intro r hr
      rw [foldl_cons]
      refine ih (fun c hc => hEach c (mem_cons_of_mem call hc)) _ ?_
      exact andThen_keeps hr (hEach call mem_cons_self r.2)
  exact hFold (0, s) hInv

theorem KeptByCalls.probeHooks (hCalls : KeptByCalls w I) (d : DevId) (hInv : I s) :
    I (probeHooks w d s).2 := by
  apply callAll_keeps _ hInv
  intro call hCall s' hInv'
  simp only [mem_cons, not_mem_nil, or_false] at hCall
  rcases hCall with rfl | rfl | rfl | rfl | rfl
  · exact hCalls.callHook _ d hInv'
  · exact hCalls.callParent _ d hInv'
  · exact hCalls.callParent _ d hInv'
  · exact hCalls.callHook _ d hInv'
  · exact hCalls.callHook _ d hInv'

----
-- What Is Kept
----

/-
  The devices that are there stay the same, and so do their
  parents and drivers.
-/
structure Kept (s s' : State) : Prop where
  hLive : s'.live = s.live
  hListed : s'.listed = s.listed
  hFresh : s'.fresh = s.fresh
  hParent : ∀ x, (s'.dev x).parent = (s.dev x).parent
  hDriver : ∀ x, (s'.dev x).driver = (s.dev x).driver
  hBound : ∀ x, (s'.dev x).bound = (s.dev x).bound

theorem Kept.refl (s : State) :
    Kept s s :=
  ⟨rfl, rfl, rfl, fun _ => rfl, fun _ => rfl, fun _ => rfl⟩

theorem Kept.trans {s' t : State} (hFirst : Kept s s') (hNext : Kept s' t) :
    Kept s t where
  hLive := hNext.hLive.trans hFirst.hLive
  hListed := hNext.hListed.trans hFirst.hListed
  hFresh := hNext.hFresh.trans hFirst.hFresh
  hParent x := (hNext.hParent x).trans (hFirst.hParent x)
  hDriver x := (hNext.hDriver x).trans (hFirst.hDriver x)
  hBound x := (hNext.hBound x).trans (hFirst.hBound x)

theorem keptByCalls_kept (w : World) (s : State) :
    KeptByCalls w (Kept s) :=
  fun _ _ _ hKept => ⟨hKept.hLive, hKept.hListed, hKept.hFresh,
    hKept.hParent, hKept.hDriver, hKept.hBound⟩

/- A change of a device that leaves what is kept alone. -/
theorem kept_modify {f : Udevice → Udevice} (s : State) (d : DevId)
    (hf : ∀ x, (f x).parent = x.parent ∧ (f x).driver = x.driver ∧ (f x).bound = x.bound) :
    Kept s (s.modify d f) := by
  have hDev : ∀ x, ((s.modify d f).dev x).parent = (s.dev x).parent ∧
        ((s.modify d f).dev x).driver = (s.dev x).driver ∧
        ((s.modify d f).dev x).bound = (s.dev x).bound := by
    intro x
    unfold State.modify
    by_cases hx : x = d
    · subst hx
      simp only [update_self]
      exact hf _
    · simp only [update_of_ne hx]
      exact ⟨trivial, trivial, trivial⟩
  exact ⟨rfl, rfl, rfl, fun x => (hDev x).1, fun x => (hDev x).2.1, fun x => (hDev x).2.2⟩

theorem kept_deviceFree (w : World) (d : DevId) (s : State) :
    Kept s (deviceFree w d s) :=
  kept_modify s d fun _ => ⟨rfl, rfl, rfl⟩

theorem kept_deactivate (w : World) (d : DevId) (s : State) :
    Kept s (deactivate w d s) :=
  (kept_deviceFree w d s).trans (kept_modify _ d fun _ => ⟨rfl, rfl, rfl⟩)

theorem kept_probeFail (w : World) (d : DevId) (ret : Int) (s : State) :
    Kept s (probeFail w d ret s).2 := by
  refine Kept.trans ?_ (kept_deviceFree w d _)
  exact kept_modify s d fun _ => ⟨rfl, rfl, rfl⟩

theorem Kept.children {s' : State} (hKept : Kept s s') (d : DevId) :
    s'.children d = s.children d := by
  unfold State.children
  rw [hKept.hLive]
  exact filter_congr fun c _ => by rw [hKept.hParent]

theorem allocPriv_keeps {part : Priv} (hCalls : KeptByCalls w I)
    (hPriv : ∀ s, I s → I (s.modify d fun x => { x with priv := update x.priv part true }))
    (hInv : I s) :
    I (allocPriv w part d s).2 := by
  have hCall := hCalls.callHook (.allocPriv part) d hInv
  unfold allocPriv
  split_ifs
  · by_cases hZero : (callHook w (.allocPriv part) d s).1 = 0
    · simp only [hZero, if_true]
      exact hPriv _ hCall
    · simp only [hZero, if_false]
      exact hCall
  · exact hInv

----
-- Removing
----

theorem deviceChldRemove_keeps {remove : DevId → State → Outcome}
    (children : List DevId) (hRemove : ∀ c s, I s → I (remove c s).2) (hInv : I s) :
    I (deviceChldRemove remove children s).2 := by
  induction children generalizing s with
  | nil => exact hInv
  | cons c rest ih => exact andThen_keeps (hRemove c s hInv) ih

section

variable (flags : BitVec 32)

theorem removeSelf_keeps
    (hCalls : KeptByCalls w I) (hDeactivate : ∀ s, I s → I (deactivate w d s)) (hInv : I s) :
    I (removeSelf w flags d s).2 := by
  unfold removeSelf
  cases flagsRemove flags (s.dev d).driver.flags with
  | true =>
    have hRemove := hCalls.callHook .remove d hInv
    simp only [if_true]
    split_ifs
    · exact hCalls.callHook _ d hRemove
    · exact hDeactivate _ (hCalls.callParent _ d hRemove)
  | false => exact hCalls.callParent _ d hInv

theorem removeWithin_keeps (levels : Nat) (hCalls : KeptByCalls w I)
    (hDeactivate : ∀ e s, I s → I (deactivate w e s)) (hInv : I s) :
    I (removeWithin w flags levels d s).2 := by
  induction levels generalizing d s with
  | zero => exact hInv
  | succ levels ih =>
    unfold removeWithin
    by_cases hActivated : (s.dev d).activated = false
    · rw [if_pos hActivated]
      exact hInv
    · rw [if_neg hActivated]
      refine andThen_keeps (hCalls.callHook _ d hInv) fun hPre => ?_
      have hChildren := deviceChldRemove_keeps ((callHook w .preRemove d s).2.children d)
        (fun c s hs => ih (d := c) hs) hPre
      simp only
      split_ifs
      · exact hCalls.callHook _ d hChildren
      · exact removeSelf_keeps flags hCalls (hDeactivate d) hChildren

theorem deviceRemove_keeps
    (hCalls : KeptByCalls w I) (hDeactivate : ∀ e s, I s → I (deactivate w e s)) (hInv : I s) :
    I (deviceRemove w d flags s).2 :=
  removeWithin_keeps flags s.fresh hCalls hDeactivate hInv

end

----
-- Probing
----

/- What the changes of a device by probing keep. -/
structure KeptByProbe (w : World) (I : State → Prop) : Prop where
  hCalls : KeptByCalls w I
  hPriv : ∀ part e s, I s → I (s.modify e fun x => { x with priv := update x.priv part true })
  hFail : ∀ e ret s, I s → I (probeFail w e ret s).2
  hOff : ∀ e s, I s → I (s.modify e fun x => { x with activated := false })
  hOn : ∀ e seq s, I s → I (s.modify e fun x => { x with seq := seq, activated := true })
  hRemove : ∀ e s, I s → I (deactivate w e s)
  hAssert : ∀ s asserted, I s → I { s with asserted }
  hWalk : ∀ s e, I s → I (s.touch (walkResolveSeq s e))

section

variable (hKeeps : KeptByProbe w I)
include hKeeps

theorem KeptByProbe.activated (hInv : I s) :
    I (probeActivated w d s).2 := by
  have hHooks := hKeeps.hCalls.probeHooks d hInv
  have hProbe := hKeeps.hCalls.callHook .probe d hHooks
  have hPost := hKeeps.hCalls.callHook .postProbe d hProbe
  unfold probeActivated
  simp only
  split_ifs
  · exact hKeeps.hFail d _ _ hHooks
  · exact hKeeps.hFail d _ _ (hKeeps.hOff d _ hProbe)
  · exact hKeeps.hFail d _ _ (deviceRemove_keeps _ hKeeps.hCalls hKeeps.hRemove hPost)
  · exact hPost

theorem KeptByProbe.numbered (hInv : I s) :
    I (probeNumbered w d s).2 := by
  have hAssert := hKeeps.hAssert s (s.asserted || (s.dev d).seq ≠ -1) hInv
  have hWalk := hKeeps.hWalk _ d hAssert
  unfold probeNumbered
  simp only
  split_ifs
  · exact hKeeps.hFail d _ _ hWalk
  · exact hKeeps.activated (hKeeps.hOn d _ _ hWalk)

theorem KeptByProbe.alloc (hInv : I s) :
    I (probeAlloc w d s).2 := by
  apply callAll_keeps _ hInv
  intro call hCall s' hInv'
  simp only [mem_cons, not_mem_nil, or_false] at hCall
  rcases hCall with rfl | rfl
  · exact allocPriv_keeps hKeeps.hCalls (hKeeps.hPriv _ d) hInv'
  · exact allocPriv_keeps hKeeps.hCalls (hKeeps.hPriv _ d) hInv'

theorem KeptByProbe.below
    {probeParent : State → Outcome} (hParent : ∀ s, I s → I (probeParent s).2) (hInv : I s) :
    I (probeBelow w probeParent d s).2 := by
  have hAlloc : I (allocPriv w .parentPriv d s).2 :=
    allocPriv_keeps hKeeps.hCalls (hKeeps.hPriv _ d) hInv
  have hProbed := hParent _ hAlloc
  unfold probeBelow
  simp only
  split_ifs
  · exact hKeeps.hFail d _ _ hAlloc
  · exact hKeeps.hFail d _ _ hProbed
  · exact hProbed
  · exact hKeeps.numbered hProbed

end

theorem probeWithin_keeps (levels : Nat) (hKeeps : KeptByProbe w I) (hInv : I s) :
    I (probeWithin w levels d s).2 := by
  induction levels generalizing d s with
  | zero => exact hInv
  | succ levels ih =>
    have hAlloc := hKeeps.alloc (d := d) hInv
    unfold probeWithin
    simp only
    split_ifs
    · exact hInv
    · exact hKeeps.hFail d _ _ hAlloc
    · cases (s.dev d).parent with
      | none => exact hKeeps.numbered hAlloc
      | some p => exact hKeeps.below (fun s hs => ih hs) hAlloc

theorem keptByProbe_kept (w : World) (s : State) :
    KeptByProbe w (Kept s) where
  hCalls := keptByCalls_kept w s
  hPriv _ e t hKept := hKept.trans (kept_modify t e fun _ => ⟨rfl, rfl, rfl⟩)
  hFail e ret t hKept := hKept.trans (kept_probeFail w e ret t)
  hOff e t hKept := hKept.trans (kept_modify t e fun _ => ⟨rfl, rfl, rfl⟩)
  hOn e _ t hKept := hKept.trans (kept_modify t e fun _ => ⟨rfl, rfl, rfl⟩)
  hRemove e t hKept := hKept.trans (kept_deactivate w e t)
  hAssert _ _ hKept := ⟨hKept.hLive, hKept.hListed,
    hKept.hFresh, hKept.hParent, hKept.hDriver, hKept.hBound⟩
  hWalk _ _ hKept := ⟨hKept.hLive, hKept.hListed,
    hKept.hFresh, hKept.hParent, hKept.hDriver, hKept.hBound⟩

theorem kept_deviceProbe (w : World) (d : DevId) (s : State) :
    Kept s (deviceProbe w d s).2 :=
  probeWithin_keeps s.fresh (keptByProbe_kept w s) (Kept.refl s)

theorem kept_deviceRemove (w : World) (d : DevId) (flags : BitVec 32) (s : State) :
    Kept s (deviceRemove w d flags s).2 :=
  deviceRemove_keeps flags (keptByCalls_kept w s) (keptByProbe_kept w s).hRemove (Kept.refl s)

end Calls

----
-- One Device
----

/- No other device is changed. -/
structure OnlyAt (d : DevId) (s t : State) : Prop where
  hKept : Kept s t
  hDev : ∀ x, x ≠ d → t.dev x = s.dev x

section OneDevice

variable {w : World} {s t u : State} {d x : DevId}

theorem deactivate_self (w : World) (d : DevId) (s : State) :
    ((deactivate w d s).dev d).activated = false := by
  unfold deactivate State.modify
  simp only [update_self]

theorem deactivate_other (w : World) (hNe : x ≠ d) :
    (deactivate w d s).dev x = s.dev x := by
  unfold deactivate deviceFree State.modify
  simp only [update_of_ne hNe]

theorem deactivate_mono (w : World) (hActivated : ((deactivate w d s).dev x).activated = true) :
    (s.dev x).activated = true := by
  by_cases hx : x = d
  · subst hx
    rw [deactivate_self] at hActivated
    exact absurd hActivated Bool.false_ne_true
  · rwa [deactivate_other w hx] at hActivated

theorem OnlyAt.refl (d : DevId) (s : State) :
    OnlyAt d s s :=
  ⟨Kept.refl s, fun _ _ => rfl⟩

theorem OnlyAt.trans (hFirst : OnlyAt d s t) (hNext : OnlyAt d t u) :
    OnlyAt d s u :=
  ⟨hFirst.hKept.trans hNext.hKept, fun x hx => (hNext.hDev x hx).trans (hFirst.hDev x hx)⟩

theorem keptByCalls_onlyAt (w : World) (d : DevId) (s : State) :
    KeptByCalls w (OnlyAt d s) :=
  fun hook e t hOnly => ⟨keptByCalls_kept w s hook e t hOnly.hKept, hOnly.hDev⟩

theorem onlyAt_modify {f : Udevice → Udevice} (s : State) (d : DevId)
    (hf : ∀ x, (f x).parent = x.parent ∧ (f x).driver = x.driver ∧ (f x).bound = x.bound) :
    OnlyAt d s (s.modify d f) := by
  refine ⟨kept_modify s d hf, fun x hx => ?_⟩
  unfold State.modify
  simp only [update_of_ne hx]

section

variable (w : World)

theorem onlyAt_probeFail (d : DevId) (ret : Int) (s : State) :
    OnlyAt d s (probeFail w d ret s).2 := by
  have hFree : ∀ u, OnlyAt d u (deviceFree w d u) := fun u =>
    onlyAt_modify u d fun _ => ⟨rfl, rfl, rfl⟩
  refine OnlyAt.trans ?_ (hFree _)
  exact onlyAt_modify s d fun _ => ⟨rfl, rfl, rfl⟩

theorem onlyAt_deactivate (d : DevId) (s : State) :
    OnlyAt d s (deactivate w d s) :=
  ⟨kept_deactivate w d s, fun _ hx => deactivate_other w hx⟩

/- A device that was activated is not changed by hooks. -/
theorem keptByCalls_dev (d : DevId) (x : Udevice) :
    KeptByCalls w (fun t => t.dev d = x) :=
  fun _ _ _ hSame => hSame

/- Allocating for a device leaves it not activated. -/
theorem allocPriv_off (part : Priv) (hOff : (t.dev d).activated = false) (hOnly : OnlyAt d s t) :
    OnlyAt d s (allocPriv w part d t).2 ∧ ((allocPriv w part d t).2.dev d).activated = false := by
  have hCalls : KeptByCalls w fun u =>
      OnlyAt d s u ∧ (u.dev d).activated = false :=
    fun hook e u hu => ⟨keptByCalls_onlyAt w d s hook e u hu.1, hu.2⟩
  refine allocPriv_keeps hCalls ?_ ⟨hOnly, hOff⟩
  intro u hu
  refine ⟨hu.1.trans (onlyAt_modify u d fun _ => ⟨rfl, rfl, rfl⟩), ?_⟩
  unfold State.modify
  simp only [update_self]
  exact hu.2

theorem probeAlloc_off (hOff : (s.dev d).activated = false) :
    OnlyAt d s (probeAlloc w d s).2 ∧ ((probeAlloc w d s).2.dev d).activated = false := by
  have hStart : OnlyAt d s s ∧ (s.dev d).activated = false := ⟨OnlyAt.refl d s, hOff⟩
  refine callAll_keeps (I := fun u => OnlyAt d s u ∧ (u.dev d).activated = false)
    ?_ hStart
  intro call hCall u hu
  simp only [mem_cons, not_mem_nil, or_false] at hCall
  rcases hCall with rfl | rfl
  · exact allocPriv_off w _ hu.2 hu.1
  · exact allocPriv_off w _ hu.2 hu.1

theorem probeFail_off (d : DevId) (ret : Int) (s : State) :
    ((probeFail w d ret s).2.dev d).activated = false := by
  unfold probeFail deviceFree State.modify
  simp only [update_self]

end

end OneDevice

----
-- The Tree
----

/- The parent of a device is there, and was bound before. -/
structure Tree (s : State) : Prop where
  hNodup : s.live.Nodup
  hLive : ∀ d ∈ s.live, d < s.fresh
  hListed : ∀ d ∈ s.listed, d < s.fresh
  hOnList : ∀ d ∈ s.live, d ∈ s.listed
  hBound : ∀ d ∈ s.live, (s.dev d).bound = true
  hParent : ∀ d ∈ s.live, ∀ p, (s.dev d).parent = some p → p ∈ s.live ∧ p < d

/- A device in the tree below another one, or the same. -/
inductive Below (s : State) (d : DevId) : DevId → Prop
  | here : Below s d d
  | child {p x : DevId} : Below s d p → x ∈ s.live → (s.dev x).parent = some p → Below s d x

section Tree

variable {w : World} {s s' : State} {d x : DevId}

theorem Kept.tree (hKept : Kept s s') (hTree : Tree s) :
    Tree s' := by
  constructor
  · rw [hKept.hLive]
    exact hTree.hNodup
  · rw [hKept.hLive, hKept.hFresh]
    exact hTree.hLive
  · rw [hKept.hListed, hKept.hFresh]
    exact hTree.hListed
  · rw [hKept.hLive, hKept.hListed]
    exact hTree.hOnList
  · rw [hKept.hLive]
    intro y hy
    rw [hKept.hBound]
    exact hTree.hBound y hy
  · rw [hKept.hLive]
    intro y hy p hp
    rw [hKept.hParent] at hp
    exact hTree.hParent y hy p hp

theorem mem_children {c : DevId} :
    c ∈ s.children d ↔ c ∈ s.live ∧ (s.dev c).parent = some d := by
  unfold State.children
  rw [mem_filter, decide_eq_true_iff]

theorem Below.kept (hKept : Kept s s') (hBelow : Below s d x) :
    Below s' d x := by
  induction hBelow with
  | here => exact .here
  | child _ hLive hParent ih =>
    exact .child ih (by rw [hKept.hLive]; exact hLive) (by rw [hKept.hParent]; exact hParent)

theorem Below.cases_child (hBelow : Below s d x) :
    x = d ∨ ∃ c ∈ s.children d, Below s c x := by
  induction hBelow with
  | here => exact .inl rfl
  | @child p x _ hLive hParent ih =>
    refine .inr ?_
    rcases ih with rfl | ⟨c, hc, hBelow⟩
    · exact ⟨x, mem_children.mpr ⟨hLive, hParent⟩, .here⟩
    · exact ⟨c, hc, .child hBelow hLive hParent⟩

----
-- Binding And Unbinding
----

theorem keptByCalls_tree (w : World) :
    KeptByCalls w Tree :=
  fun _ _ _ hTree => ⟨hTree.hNodup, hTree.hLive, hTree.hListed,
    hTree.hOnList, hTree.hBound, hTree.hParent⟩

/- The children on a list are unbound, and stay so. -/
structure Unbound (d : DevId) (s : State) (r : Outcome) : Prop where
  hTree : Tree r.2
  hDev : r.2.dev = s.dev
  hFresh : r.2.fresh = s.fresh
  hAsserted : r.2.asserted = s.asserted
  hLive : ∀ x ∈ r.2.live, x ∈ s.live
  hListed : ∀ x ∈ r.2.listed, x ∈ s.listed
  hGone : r.1 = 0 → d ∉ r.2.live
  hActivated : ∀ x ∈ s.live, (s.dev x).activated = true → x ∈ r.2.live

theorem deviceChldUnbind_tree {unbind : DevId → State → Outcome}
    (children : List DevId) (hUnbind : ∀ c s, Tree s → Unbound c s (unbind c s)) (hTree : Tree s) :
    let r := deviceChldUnbind unbind children s
    Tree r.2 ∧ r.2.dev = s.dev ∧ r.2.fresh = s.fresh ∧ r.2.asserted = s.asserted ∧
      (∀ x ∈ r.2.live, x ∈ s.live) ∧ (∀ x ∈ r.2.listed, x ∈ s.listed) ∧
      (r.1 = 0 → ∀ c ∈ children, c ∉ r.2.live) ∧
      (∀ x ∈ s.live, (s.dev x).activated = true → x ∈ r.2.live) := by
  induction children generalizing s with
  | nil =>
    exact ⟨hTree, rfl, rfl, rfl, fun _ hx => hx, fun _ hx => hx,
      fun _ _ hc => absurd hc not_mem_nil, fun _ hx _ => hx⟩
  | cons c rest ih =>
    have hFirst := hUnbind c s hTree
    rcases ih hFirst.hTree with ⟨hRest, hDev, hFresh, hAsserted, hLive, hListed, hGone, hOn⟩
    refine ⟨hRest, hDev.trans hFirst.hDev, hFresh.trans hFirst.hFresh,
      hAsserted.trans hFirst.hAsserted, fun x hx => hFirst.hLive x (hLive x hx),
      fun x hx => hFirst.hListed x (hListed x hx), ?_, ?_⟩
    case refine_2 =>
      intro x hx hActivated
      refine hOn x (hFirst.hActivated x hx hActivated) ?_
      rw [hFirst.hDev]
      exact hActivated
    intro hZero
    simp only [deviceChldUnbind] at hZero
    by_cases hError : (unbind c s).1 ≠ 0
    · rw [if_pos hError] at hZero
      exact absurd hZero hError
    · rw [if_neg hError] at hZero
      intro x hx
      rcases mem_cons.mp hx with rfl | hx
      · exact fun hMem => hFirst.hGone (not_not.mp hError) (hLive x hMem)
      · exact hGone hZero x hx

/- A device without children leaves the tree. -/
theorem Tree.free (hTree : Tree s) (hAlone : ∀ x ∈ s.live, (s.dev x).parent ≠ some d) :
    Tree (Dm.free d (s.listDel d)) := by
  have hMem : ∀ {x}, x ∈ s.live.erase d ↔ x ≠ d ∧ x ∈ s.live := hTree.hNodup.mem_erase_iff
  constructor
  · exact hTree.hNodup.erase d
  · exact fun x hx => hTree.hLive x (mem_of_mem_erase hx)
  · exact fun x hx => hTree.hListed x (mem_of_mem_erase hx)
  · intro x hx
    rcases hMem.mp hx with ⟨hNe, hLive⟩
    exact (mem_erase_of_ne hNe).mpr (hTree.hOnList x hLive)
  · exact fun x hx => hTree.hBound x (mem_of_mem_erase hx)
  · intro x hx p hp
    rcases hMem.mp hx with ⟨-, hLive⟩
    rcases hTree.hParent x hLive p hp with ⟨hpLive, hLess⟩
    refine ⟨hMem.mpr ⟨?_, hpLive⟩, hLess⟩
    rintro rfl
    exact hAlone x hLive hp

theorem Unbound.error {ret : Int} (hTree : Tree s) (hRet : ret ≠ 0) :
    Unbound d s (ret, s) :=
  ⟨hTree, rfl, rfl, rfl, fun _ hx => hx, fun _ hx => hx,
    fun hZero => absurd hZero hRet, fun _ hx _ => hx⟩

theorem Unbound.called
    {r : Outcome} (w : World) (hook : Hook) (hUnbound : Unbound d (callHook w hook d s).2 r) :
    Unbound d s r :=
  ⟨hUnbound.hTree, hUnbound.hDev, hUnbound.hFresh,
    hUnbound.hAsserted, hUnbound.hLive, hUnbound.hListed, hUnbound.hGone, hUnbound.hActivated⟩

theorem uclassUnbindDevice_tree
    (w : World) (d : DevId) (hTree : Tree s) (hOff : (s.dev d).activated = false)
    (hAlone : ∀ x ∈ s.live, (s.dev x).parent ≠ some d) :
    Unbound d s
      ((uclassUnbindDevice w d s).andThen fun s => (0, free d s)) := by
  unfold uclassUnbindDevice
  refine Unbound.called w .preUnbind ?_
  have hHook := (keptByCalls_tree w).callHook .preUnbind d hTree
  rcases andThen_cases (callHook w .preUnbind d s) fun s => (0, s.listDel d) with
    ⟨hError, hEq⟩ | ⟨-, hEq⟩
  · rw [hEq]
    rcases andThen_cases (callHook w .preUnbind d s) fun s =>
        (0, free d s) with
      ⟨-, hEq'⟩ | ⟨hZero, -⟩
    · rw [hEq']
      exact Unbound.error hHook hError
    · exact absurd hZero hError
  · rw [hEq]
    have hFree := hHook.free (d := d) hAlone
    refine ⟨hFree, rfl, rfl, rfl, ?_, ?_, ?_, ?_⟩
    · exact fun x hx => mem_of_mem_erase hx
    · exact fun x hx => mem_of_mem_erase hx
    · exact fun _ hx => (hTree.hNodup.mem_erase_iff.mp hx).1 rfl
    · intro x hx hOn
      refine hTree.hNodup.mem_erase_iff.mpr ⟨?_, hx⟩
      rintro rfl
      exact Bool.false_ne_true (hOff.symm.trans hOn)

theorem unbindWithin_tree (w : World) (levels : Nat) (hTree : Tree s) :
    Unbound d s (unbindWithin w levels d s) := by
  induction levels generalizing d s with
  | zero => exact Unbound.error hTree (by decide)
  | succ levels ih =>
    unfold unbindWithin
    split_ifs with hOn
    · exact Unbound.error hTree (by decide)
    · exact Unbound.error hTree (by decide)
    refine Unbound.called w .unbind ?_
    have hHook := (keptByCalls_tree w).callHook .unbind d hTree
    have hOff : ((callHook w .unbind d s).2.dev d).activated = false := Bool.eq_false_iff.mpr hOn
    rcases andThen_cases (callHook w .unbind d s) _ with ⟨hError, hEq⟩ | ⟨-, hEq⟩
    · rw [hEq]
      exact Unbound.error hHook hError
    rw [hEq]
    generalize (callHook w .unbind d s).2 = t at hHook hOff
    rcases deviceChldUnbind_tree (t.children d) (fun c s hs => ih (d := c) hs) hHook with
      ⟨hRest, hDev, hFresh, hAsserted, hLive, hListed, hGone, hActive⟩
    rcases andThen_cases (deviceChldUnbind (unbindWithin w levels) (t.children d) t) _ with
      ⟨hError, hEq⟩ | ⟨hZero, hEq⟩
    · rw [hEq]
      exact ⟨hRest, hDev, hFresh, hAsserted, hLive, hListed,
        fun hNone => absurd hNone hError, hActive⟩
    rw [hEq]
    rw [← hDev] at hOff
    have hAlone := hGone hZero
    generalize (deviceChldUnbind (unbindWithin w levels) (t.children d) t).2 = u at *
    have hFree := uclassUnbindDevice_tree w d hRest hOff
      fun x hx hParent => hAlone x
        (mem_children.mpr ⟨hLive x hx, by
          rw [← hDev]
          exact hParent⟩) hx
    exact ⟨hFree.hTree, hFree.hDev.trans hDev, hFree.hFresh.trans hFresh,
      hFree.hAsserted.trans hAsserted, fun x hx => hLive x (hFree.hLive x hx),
      fun x hx => hListed x (hFree.hListed x hx), hFree.hGone, fun x hx hActivated =>
        hFree.hActivated x (hActive x hx hActivated) (hDev ▸ hActivated)⟩

/- Only the calls and the faults are different. -/
def SameBut (s t : State) : Prop :=
  ∃ trace faulted, t = { s with trace, faulted }

theorem SameBut.refl (s : State) :
    SameBut s s :=
  ⟨s.trace, s.faulted, rfl⟩

theorem keptByCalls_sameBut (w : World) (s : State) :
    KeptByCalls w (SameBut s) := by
  rintro hook d t ⟨trace, faulted, rfl⟩
  exact ⟨_, faulted, rfl⟩

variable {I : State → Prop}

theorem KeptByCalls.allocate (hCalls : KeptByCalls w I) (size : Nat) (d : DevId) (hInv : I s) :
    I (allocate w size d s).2 := by
  unfold Dm.allocate
  split_ifs
  · exact hCalls.callHook .calloc d hInv
  · exact hInv

theorem bindAlloc_sameBut
    (w : World) (parent : Option DevId) (drv : Driver) (hasPlatdata : Bool) (s : State) :
    SameBut s (bindAlloc w parent drv hasPlatdata s).2 := by
  have hCalls := keptByCalls_sameBut w s
  apply callAll_keeps _ (SameBut.refl s)
  intro call hCall t ht
  simp only [mem_cons, not_mem_nil, or_false] at hCall
  rcases hCall with rfl | rfl | rfl | rfl | rfl
  · exact hCalls.callHook _ _ ht
  · exact hCalls.allocate _ _ ht
  · exact hCalls.allocate _ _ ht
  · exact hCalls.allocate _ _ ht
  · exact hCalls.allocate _ _ ht

/- A device that is not bound may stay with its uclass. -/
structure NotBound (d : DevId) (s : State) (r : Outcome) : Prop where
  hError : r.1 ≠ 0
  hState : ∃ listed,
    (listed = s.listed ∨ listed = s.listed.erase d) ∧ SameBut (free d { s with listed }) r.2

theorem bindFail_notBound
    {t : State} {ret : Int} (w : World) (hSame : SameBut s t) (hError : ret ≠ 0) :
    NotBound d s (bindFail w d ret t) := by
  rcases hSame with ⟨trace, faulted, rfl⟩
  refine ⟨hError, ?_⟩
  unfold bindFail uclassUnbindDevice
  rcases andThen_cases (callHook w .preUnbind d { s with trace, faulted })
      fun s => (0, s.listDel d) with
    ⟨-, hEq⟩ | ⟨-, hEq⟩
  · rw [hEq]
    exact ⟨s.listed, .inl rfl, _, _, rfl⟩
  · rw [hEq]
    exact ⟨s.listed.erase d, .inr rfl, _, _, rfl⟩

/- The device is not bound, or it is in the end. -/
theorem bindAdded_cases (w : World) (d : DevId) (s : State) :
    NotBound d s (bindAdded w d s) ∨ ((bindAdded w d s).1 = 0 ∧
        SameBut (s.modify d fun x => { x with bound := true }) (bindAdded w d s).2) := by
  have hCalls := keptByCalls_sameBut w s
  have hChild := hCalls.callParent .uclassChildPostBind d (SameBut.refl s)
  have hBind := hCalls.callHook .bind d hChild
  have hPost : SameBut s
      (callAll [callParent w .childPostBind d, callHook w .postBind d]
        (callHook w .bind d (callParent w .uclassChildPostBind d s).2).2).2 := by
    apply callAll_keeps _ hBind
    intro call hCall t ht
    simp only [mem_cons, not_mem_nil, or_false] at hCall
    rcases hCall with rfl | rfl
    · exact hCalls.callParent _ _ ht
    · exact hCalls.callHook _ _ ht
  unfold bindAdded
  simp only
  split_ifs with hFirst hSecond hThird
  · rcases hChild with ⟨trace, faulted, hEq⟩
    rw [hEq]
    exact .inl ⟨hFirst, s.listed.erase d, .inr rfl, trace, _, rfl⟩
  · exact .inl (bindFail_notBound w hBind hSecond)
  · exact .inl (bindFail_notBound w (hCalls.callHook .unbind d hPost) hThird)
  · refine .inr ⟨rfl, ?_⟩
    rcases hPost with ⟨trace, faulted, hEq⟩
    rw [hEq]
    exact ⟨trace, faulted, rfl⟩

theorem SameBut.tree {t : State} (hSame : SameBut s t) (hTree : Tree s) :
    Tree t := by
  rcases hSame with ⟨trace, faulted, rfl⟩
  exact ⟨hTree.hNodup, hTree.hLive, hTree.hListed, hTree.hOnList, hTree.hBound, hTree.hParent⟩

theorem addDevice_self (x : Udevice) (s : State) :
    (addDevice x s).dev s.fresh = x := by
  unfold addDevice
  simp only [update_self]

variable {y : DevId}

theorem addDevice_other (x : Udevice) (hNe : y ≠ s.fresh) :
    (addDevice x s).dev y = s.dev y := by
  unfold addDevice
  simp only [update_of_ne hNe]

theorem Tree.ne_fresh (hTree : Tree s) (hMem : d ∈ s.listed) :
    d ≠ s.fresh :=
  Nat.ne_of_lt (hTree.hListed d hMem)

theorem mem_addDevice {x : Udevice} :
    y ∈ (addDevice x s).live ↔ y ∈ s.live ∨ y = s.fresh := by
  unfold addDevice
  rw [mem_append, mem_singleton]

theorem listed_addDevice {x : Udevice} :
    y ∈ (addDevice x s).listed ↔ y ∈ s.listed ∨ y = s.fresh := by
  unfold addDevice
  rw [mem_append, mem_singleton]

theorem Tree.add {x : Udevice}
    (hTree : Tree s) (hBound : x.bound = true) (hParent : ∀ p, x.parent = some p → p ∈ s.live) :
    Tree (addDevice x s) := by
  have hOld : ∀ y ∈ s.live, (addDevice x s).dev y = s.dev y := fun y hy =>
    addDevice_other x (hTree.ne_fresh (hTree.hOnList y hy))
  constructor
  · refine nodup_append.mpr ⟨hTree.hNodup, pairwise_singleton _ _, ?_⟩
    rintro y hy z hz rfl
    exact hTree.ne_fresh (hTree.hOnList y hy) (mem_singleton.mp hz)
  · intro y hy
    rcases mem_addDevice.mp hy with hy | rfl
    · exact Nat.lt_succ_of_lt (hTree.hLive y hy)
    · exact Nat.lt_succ_self _
  · intro y hy
    rcases listed_addDevice.mp hy with hy | rfl
    · exact Nat.lt_succ_of_lt (hTree.hListed y hy)
    · exact Nat.lt_succ_self _
  · intro y hy
    rcases mem_addDevice.mp hy with hy | rfl
    · exact listed_addDevice.mpr (.inl (hTree.hOnList y hy))
    · exact listed_addDevice.mpr (.inr rfl)
  · intro y hy
    rcases mem_addDevice.mp hy with hy | rfl
    · rw [hOld y hy]
      exact hTree.hBound y hy
    · rw [addDevice_self]
      exact hBound
  · intro y hy p hp
    rcases mem_addDevice.mp hy with hy | rfl
    · rw [hOld y hy] at hp
      rcases hTree.hParent y hy p hp with ⟨hpLive, hLess⟩
      exact ⟨mem_addDevice.mpr (.inl hpLive), hLess⟩
    · rw [addDevice_self] at hp
      exact ⟨mem_addDevice.mpr (.inl (hParent p hp)), hTree.hLive p (hParent p hp)⟩

theorem Tree.notBound {x : Udevice} {listed : List DevId} (hTree : Tree s)
    (hListed : listed = (addDevice x s).listed ∨ listed = (addDevice x s).listed.erase s.fresh) :
    let t := Dm.free s.fresh { addDevice x s with listed }
    Tree t ∧ t.live = s.live ∧ ∀ y ∈ t.listed, y ∈ s.listed ∨ y = s.fresh := by
  have hOld : ∀ y ∈ s.live, (addDevice x s).dev y = s.dev y := fun y hy =>
    addDevice_other x (hTree.ne_fresh (hTree.hOnList y hy))
  have hNew : s.fresh ∉ s.live := fun hMem => hTree.ne_fresh (hTree.hOnList _ hMem) rfl
  have hLive : (addDevice x s).live.erase s.fresh = s.live := by
    unfold addDevice
    rw [erase_append_right _ hNew, erase_cons_head, append_nil]
  have hSub : ∀ y ∈ s.listed, y ∈ listed := by
    intro y hy
    rcases hListed with rfl | rfl
    · exact mem_append_left _ hy
    · exact (mem_erase_of_ne (hTree.ne_fresh hy)).mpr (mem_append_left _ hy)
  have hBelow : ∀ y ∈ listed, y ∈ s.listed ∨ y = s.fresh := by
    intro y hy
    rcases hListed with rfl | rfl
    · exact listed_addDevice.mp hy
    · exact listed_addDevice.mp (mem_of_mem_erase hy)
  refine ⟨?_, hLive, hBelow⟩
  constructor
  · simp only [Dm.free, hLive]
    exact hTree.hNodup
  · simp only [Dm.free, hLive]
    exact fun y hy => Nat.lt_succ_of_lt (hTree.hLive y hy)
  · intro y hy
    rcases hBelow y hy with hy | rfl
    · exact Nat.lt_succ_of_lt (hTree.hListed y hy)
    · exact Nat.lt_succ_self _
  · simp only [Dm.free, hLive]
    exact fun y hy => hSub y (hTree.hOnList y hy)
  · simp only [Dm.free, hLive]
    intro y hy
    rw [hOld y hy]
    exact hTree.hBound y hy
  · simp only [Dm.free, hLive]
    intro y hy p hp
    rw [hOld y hy] at hp
    exact hTree.hParent y hy p hp

/- The devices that binding leaves. -/
inductive BindResult
    (x : Udevice)
    (s : State) : Outcome → Prop
  | noRoom {ret : Int} {t : State} : ret ≠ 0 → SameBut s t → BindResult x s (ret, t)
  | notBound {ret : Int} {t : State} {listed : List DevId} : ret ≠ 0 →
      (listed = (addDevice x s).listed ∨ listed = (addDevice x s).listed.erase s.fresh) →
      SameBut (free s.fresh { addDevice x s with listed }) t → BindResult x s (ret, t)
  | bound {t : State} : SameBut (addDevice { x with bound := true } s) t → BindResult x s (0, t)

theorem deviceBind_result (w : World) (parent : Option DevId) (drv : Driver) (reqSeq : Int)
    (hasPlatdata : Bool) (s : State) :
    BindResult (newDevice parent drv reqSeq) s (deviceBind w parent drv reqSeq hasPlatdata s) := by
  rcases bindAlloc_sameBut w parent drv hasPlatdata s with ⟨trace, faulted, hAlloc⟩
  unfold deviceBind
  by_cases hError : (bindAlloc w parent drv hasPlatdata s).1 ≠ 0
  · simp only [hError, ne_eq, not_false_eq_true, if_true]
    exact .noRoom hError ⟨trace, faulted, hAlloc⟩
  · simp only [hError, if_false]
    rw [hAlloc]
    rcases bindAdded_cases w s.fresh
        (addDevice (newDevice parent drv reqSeq) { s with trace, faulted }) with
      ⟨hRet, listed, hListed, trace', faulted', hEq⟩ |
      ⟨hZero, trace', faulted', hEq⟩
    · exact .notBound hRet hListed ⟨trace', faulted', hEq⟩
    · have hModify :
          (addDevice (newDevice parent drv reqSeq)
            { s with trace, faulted }).modify s.fresh (fun x => { x with bound := true }) =
            addDevice { newDevice parent drv reqSeq with bound := true }
              { s with trace, faulted } := by
        unfold State.modify addDevice
        simp only [update_self, update_idem]
      rw [hModify] at hEq
      have hBound : BindResult (newDevice parent drv reqSeq) s
          (0, (bindAdded w s.fresh
            (addDevice (newDevice parent drv reqSeq) { s with trace, faulted })).2) :=
        .bound ⟨trace', faulted', hEq⟩
      rw [← hZero] at hBound
      exact hBound

/- Whatever is done, the devices are a tree. -/
theorem perform_tree (w : World) (op : Op) (hTree : Tree s) (hValid : op.Valid s) :
    Tree (perform w s op).2 := by
  cases op with
  | bind parent drv reqSeq hasPlatdata =>
    have hParent : ∀ p, parent = some p → p ∈ s.live := by
      rintro p rfl
      exact hValid
    have hResult := deviceBind_result w parent drv reqSeq hasPlatdata s
    simp only [perform]
    generalize deviceBind w parent drv reqSeq hasPlatdata s = r at hResult ⊢
    cases hResult with
    | noRoom _ hSame => exact hSame.tree hTree
    | notBound _ hListed hSame => exact hSame.tree (hTree.notBound hListed).1
    | bound hSame => exact hSame.tree (hTree.add rfl hParent)
  | probe d => exact (kept_deviceProbe w d s).tree hTree
  | remove d flags => exact (kept_deviceRemove w d flags s).tree hTree
  | unbind d => exact (unbindWithin_tree w s.fresh hTree).hTree

theorem empty_tree (drv : Driver) :
    Tree (empty drv) :=
  ⟨nodup_nil, nofun, nofun, nofun, nofun, nofun⟩

theorem dmInit_keeps {rootDriver : Driver}
    (hBound : (deviceBind w none rootDriver (-1) false (empty rootDriver)).1 = 0)
    (hRoot : I (perform w (empty rootDriver)
      (.bind none rootDriver (-1) false)).2)
    (hProbe : ∀ s, I s → ∀ d ∈ s.live, I (perform w s (.probe d)).2) :
    I (dmInit w rootDriver).2 := by
  have hInv : I (deviceBind w none rootDriver (-1) false (empty rootDriver)).2 := hRoot
  have hResult := deviceBind_result w none rootDriver (-1) false (empty rootDriver)
  unfold dmInit
  generalize deviceBind w none rootDriver (-1) false (empty rootDriver) = r at hBound hInv hResult ⊢
  refine andThen_keeps hInv fun _ => hProbe r.2 hInv 0 ?_
  cases hResult with
  | noRoom hError _ => exact absurd hBound hError
  | notBound hError _ _ => exact absurd hBound hError
  | bound hSame =>
    rcases hSame with ⟨trace, faulted, rfl⟩
    exact mem_singleton_self 0

end Tree

----
-- Freed Devices
----

/-
  The devices on the lists of the uclasses are those that are
  there, and no other one has been read or written.
-/
def Intact (s : State) : Prop :=
  s.listed = s.live ∧ s.faulted = false

/-
  If a device is not bound, its uclass lets it go: the last
  call is not a `pre_unbind` that fails.
-/
def LastLetsGo (r : Outcome) : Prop :=
  r.1 ≠ 0 → ∀ e ∈ r.2.trace.head?, e.1.hook = .preUnbind → e.2 = 0

def LetsGo (w : World) (s : State) (op : Op) : Prop :=
  match op with
  | .bind parent drv reqSeq hasPlatdata =>
    LastLetsGo (deviceBind w parent drv reqSeq hasPlatdata s)
  | .probe _ | .remove _ _ | .unbind _ => True

instance (r : Outcome) : Decidable (LastLetsGo r) :=
  inferInstanceAs (Decidable (_ → ∀ _ ∈ _, _ → _))

instance : Decidable (LetsGo w s op) :=
  match op with
  | .bind parent drv reqSeq hasPlatdata =>
    inferInstanceAs (Decidable (LastLetsGo (deviceBind w parent drv reqSeq hasPlatdata s)))
  | .probe _ | .remove _ _ | .unbind _ => inferInstanceAs (Decidable True)

section Intact

variable {w : World} {s : State} {d : DevId}

theorem onList_listed {id : UclassId} :
    ∀ e ∈ s.onList id, e ∈ s.listed :=
  fun _ hMem => mem_of_mem_filter hMem

theorem neighbours_listed : ∀ e ∈ s.neighbours d, e ∈ s.listed := by
  intro e hMem
  rcases mem_append.mp hMem with hBefore | hBehind
  · exact onList_listed e ( (List.takeWhile_prefix _).subset
      (mem_of_getLast? (Option.mem_toList.mp hBefore)))
  · exact onList_listed e ((dropWhile_suffix _).subset
      (mem_of_mem_drop (mem_of_mem_head? (Option.mem_toList.mp hBehind))))

theorem walkBySeq_listed {id : UclassId} {seq : Int} :
    ∀ e ∈ walkBySeq s id seq, e ∈ s.listed := by
  intro e hMem
  unfold walkBySeq at hMem
  dsimp only at hMem
  split_ifs at hMem
  · cases hMem
  · exact onList_listed e (mem_of_mem_take hMem)

theorem walkFreeSeq_listed {id : UclassId} (left seq : Nat) :
    ∀ e ∈ walkFreeSeq s id left seq, e ∈ s.listed := by
  induction left generalizing seq with
  | zero => exact nofun
  | succ left ih =>
    intro e hMem
    rcases mem_append.mp hMem with hFirst | hRest
    · exact walkBySeq_listed e hFirst
    · split_ifs at hRest
      · cases hRest
      · exact ih _ e hRest

theorem walkResolveSeq_listed : ∀ e ∈ walkResolveSeq s d, e ∈ s.listed := by
  intro e hMem
  rcases mem_append.mp hMem with hFirst | hRest
  · exact walkBySeq_listed e hFirst
  · split_ifs at hRest
    · cases hRest
    · exact walkFreeSeq_listed _ _ e hRest

/- No list has a node that is freed. -/
theorem Intact.touch
    {nodes : List DevId} (hIntact : Intact s) (hNodes : ∀ e ∈ nodes, e ∈ s.listed) :
    s.touch nodes = s := by
  have hNone : (nodes.any fun e => decide (e ∉ s.live)) = false := by
    rw [any_eq_false]
    intro e hMem hFreed
    exact of_decide_eq_true hFreed (hIntact.1 ▸ hNodes e hMem)
  unfold State.touch
  rw [hNone, Bool.or_false]

theorem keptByCalls_intact (w : World) :
    KeptByCalls w Intact :=
  fun _ _ _ hIntact => hIntact

theorem Intact.drop (hIntact : Intact s) (d : DevId) :
    Intact (free d (s.listDel d)) := by
  unfold State.listDel
  rw [hIntact.touch neighbours_listed]
  exact ⟨congrArg (List.erase · d) hIntact.1, hIntact.2⟩

theorem Intact.add (hIntact : Intact s) (x : Udevice) :
    Intact (addDevice x s) := by
  unfold addDevice
  rw [hIntact.touch fun e hMem => onList_listed e (mem_of_getLast? (Option.mem_toList.mp hMem))]
  exact ⟨congrArg (· ++ [s.fresh]) hIntact.1, hIntact.2⟩

theorem keptByProbe_intact (w : World) :
    KeptByProbe w Intact where
  hCalls := keptByCalls_intact w
  hPriv _ _ _ hIntact := hIntact
  hFail _ _ _ hIntact := hIntact
  hOff _ _ hIntact := hIntact
  hOn _ _ _ hIntact := hIntact
  hRemove _ _ hIntact := hIntact
  hAssert _ _ hIntact := hIntact
  hWalk s e hIntact := by
    rw [hIntact.touch walkResolveSeq_listed]
    exact hIntact

theorem bindFail_intact
    {ret : Int} (hRet : ret ≠ 0) (hIntact : Intact s) (hLetsGo : LastLetsGo (bindFail w d ret s)) :
    Intact (bindFail w d ret s).2 := by
  have hLast := hLetsGo hRet
  unfold bindFail uclassUnbindDevice at hLast ⊢
  rcases andThen_cases (callHook w .preUnbind d s) fun s => (0, s.listDel d) with
    ⟨hError, hEq⟩ | ⟨-, hEq⟩
  · rw [hEq] at hLast
    exact absurd (hLast _ rfl rfl) hError
  · rw [hEq]
    exact Intact.drop hIntact d

theorem bindAdded_intact (hIntact : Intact s) (hLetsGo : LastLetsGo (bindAdded w d s)) :
    Intact (bindAdded w d s).2 := by
  have hCalls := keptByCalls_intact w
  have hChild := hCalls.callParent .uclassChildPostBind d hIntact
  have hBind := hCalls.callHook .bind d hChild
  have hPost : Intact (callAll [callParent w .childPostBind d, callHook w .postBind d]
      (callHook w .bind d (callParent w .uclassChildPostBind d s).2).2).2 := by
    apply callAll_keeps _ hBind
    intro call hCall t ht
    simp only [mem_cons, not_mem_nil, or_false] at hCall
    rcases hCall with rfl | rfl
    · exact hCalls.callParent _ _ ht
    · exact hCalls.callHook _ _ ht
  unfold bindAdded at hLetsGo ⊢
  dsimp only at hLetsGo ⊢
  split_ifs at hLetsGo ⊢ with hFirst hSecond hThird
  · exact hChild.drop d
  · exact bindFail_intact hSecond hBind hLetsGo
  · exact bindFail_intact hThird (hCalls.callHook .unbind d hPost) hLetsGo
  · exact hPost

theorem bindAlloc_intact
    (parent : Option DevId) (drv : Driver) (hasPlatdata : Bool) (hIntact : Intact s) :
    Intact (bindAlloc w parent drv hasPlatdata s).2 := by
  have hCalls := keptByCalls_intact w
  apply callAll_keeps _ hIntact
  intro call hCall t ht
  simp only [mem_cons, not_mem_nil, or_false] at hCall
  rcases hCall with rfl | rfl | rfl | rfl | rfl
  · exact hCalls.callHook _ _ ht
  all_goals exact hCalls.allocate _ _ ht

theorem unbindWithin_intact (levels : Nat) (hIntact : Intact s) :
    Intact (unbindWithin w levels d s).2 := by
  have hCalls := keptByCalls_intact w
  induction levels generalizing d s with
  | zero => exact hIntact
  | succ levels ih =>
    have hChildren : ∀ (children : List DevId) {t : State}, Intact t →
        Intact (deviceChldUnbind (unbindWithin w levels) children t).2 := by
      intro children
      induction children with
      | nil => exact id
      | cons c rest ihRest => exact fun ht => ihRest (ih ht)
    unfold unbindWithin
    split_ifs
    · exact hIntact
    · exact hIntact
    refine andThen_keeps (hCalls.callHook .unbind d hIntact) fun hHook => ?_
    refine andThen_keeps (hChildren _ hHook) fun hRest => ?_
    unfold uclassUnbindDevice
    generalize (deviceChldUnbind _ _ _).2 = t at hRest
    rcases andThen_cases (callHook w .preUnbind d t) fun s => (0, s.listDel d) with
      ⟨hError, hEq⟩ | ⟨-, hEq⟩
    · rw [hEq, Outcome.andThen, if_neg hError]
      exact hCalls.callHook .preUnbind d hRest
    · rw [hEq]
      exact Intact.drop (hCalls.callHook .preUnbind d hRest) d

/- Nothing that is freed is touched, whatever is done. -/
theorem perform_intact (w : World) (op : Op) (hIntact : Intact s) (hLetsGo : LetsGo w s op) :
    Intact (perform w s op).2 := by
  cases op with
  | bind parent drv reqSeq hasPlatdata =>
    have hAlloc := bindAlloc_intact (w := w) parent drv hasPlatdata hIntact
    have hLast : LastLetsGo (deviceBind w parent drv reqSeq hasPlatdata s) := hLetsGo
    simp only [perform]
    unfold deviceBind at hLast ⊢
    dsimp only at hLast ⊢
    split_ifs at hLast ⊢
    · exact hAlloc
    · exact bindAdded_intact (hAlloc.add _) hLast
  | probe d => exact probeWithin_keeps s.fresh (keptByProbe_intact w) hIntact
  | remove d flags =>
    exact deviceRemove_keeps flags (keptByCalls_intact w) (fun _ _ hIn => hIn) hIntact
  | unbind d => exact unbindWithin_intact s.fresh hIntact

theorem dmInit_intact {rootDriver : Driver}
    (hBound : (deviceBind w none rootDriver (-1) false (empty rootDriver)).1 = 0) :
    Intact (dmInit w rootDriver).2 := by
  refine dmInit_keeps hBound ?_ fun s hIntact d _ => perform_intact w (.probe d) hIntact trivial
  exact perform_intact w (.bind none rootDriver (-1) false) ⟨rfl, rfl⟩
    fun hFail => absurd hBound hFail

end Intact

end Uboot.Dm
