import BootFirmware.Uboot.Dm.Tree

/-
  What a device that fails to be bound or to be unbound
  leaves behind.

  The uclass is asked last, by its `pre_unbind`.  If that
  fails, a device that was not bound is freed and stays on the
  list of the uclass, and one that is not unbound has lost its
  platform data.

  Key definitions include:
    * `Held` and `unbindHeld`
    * `BindTraceless` and `UnbindTraceless`

  Main declarations:
    * `unbindHeld_eq`
    * `failure_traceless`
-/

----
-- Platform Data
----

namespace Uboot.Dm

open List

inductive Plat where
  | platdata
  | uclassPlatdata
  | parentPlatdata

/- Which of the allocated platform data a device still has. -/
abbrev Held := DevId → Plat → Bool

def deviceChldUnbindHeld (unbind : DevId → State × Held → Int × State × Held) :
    List DevId → State × Held → Int × State × Held
  | [], s => (0, s)
  | c :: rest, s =>
    let r := unbind c s
    let r' := deviceChldUnbindHeld unbind rest r.2
    (if r.1 ≠ 0 then r.1 else r'.1, r'.2)

/- The part of `device_unbind` behind the children. -/
def unbindSelf (w : World) (d : DevId) (s : State × Held) : Int × State × Held :=
  let held := Function.update s.2 d fun _ => false
  let r := uclassUnbindDevice w d s.1
  if r.1 ≠ 0 then (r.1, r.2, held) else (0, free d r.2, held)

/- `device_unbind`, with what is freed in it. -/
def unbindHeld (w : World) : Nat → DevId → State × Held → Int × State × Held
  | 0, _, s => (-EINVAL, s)
  | levels + 1, d, s =>
    if (s.1.dev d).activated then (-EINVAL, s)
    else if (s.1.dev d).bound = false then (-EINVAL, s)
    else
      let r := callHook w .unbind d s.1
      if r.1 ≠ 0 then (r.1, r.2, s.2)
      else
        let r := deviceChldUnbindHeld (unbindHeld w levels) (r.2.children d) (r.2, s.2)
        if r.1 ≠ 0 then r else unbindSelf w d r.2

/- The outcome, without the platform data. -/
def outcomeOf (r : Int × State × Held) : Outcome :=
  (r.1, r.2.1)

section Held

variable {w : World} {d : DevId} {s t : State × Held}

theorem deviceChldUnbindHeld_eq
    {unbind : DevId → State × Held → Int × State × Held} {unbind' : DevId → State → Outcome}
    (children : List DevId) (hEach : ∀ c s, outcomeOf (unbind c s) = unbind' c s.1) :
    outcomeOf (deviceChldUnbindHeld unbind children s) = deviceChldUnbind unbind' children s.1 := by
  induction children generalizing s with
  | nil => rfl
  | cons c rest ih =>
    have hRest := ih (s := (unbind c s).2)
    unfold deviceChldUnbind
    rw [← hEach c s]
    unfold outcomeOf at hRest ⊢
    dsimp only
    rw [← hRest]
    rfl

theorem unbindSelf_eq :
    outcomeOf (unbindSelf w d s) = (uclassUnbindDevice w d s.1).andThen fun s => (0, free d s) := by
  unfold unbindSelf outcomeOf
  rcases andThen_cases (uclassUnbindDevice w d s.1)
    (fun s => (0, free d s)) with ⟨hError, hEq⟩ | ⟨hZero, hEq⟩
  · rw [hEq]
    rw [if_pos hError]
  · rw [hEq]
    rw [if_neg (not_not.mpr hZero)]

/- But for the platform data it is the function above. -/
theorem unbindHeld_eq (levels : Nat) :
    outcomeOf (unbindHeld w levels d s) = unbindWithin w levels d s.1 := by
  induction levels generalizing d s with
  | zero => rfl
  | succ levels ih =>
    have hChildren := deviceChldUnbindHeld_eq (s := ((callHook w .unbind d s.1).2, s.2))
      ((callHook w .unbind d s.1).2.children d)
      (fun c t => ih (d := c) (s := t))
    unfold unbindHeld unbindWithin
    dsimp only at hChildren ⊢
    split_ifs with hOn hOff hError hLeft
    · rfl
    · rfl
    · rcases andThen_cases (callHook w .unbind d s.1) _ with ⟨-, hEq⟩ | ⟨hZero, -⟩
      · rw [hEq]
        rfl
      · exact absurd hZero hError
    all_goals
      rcases andThen_cases (callHook w .unbind d s.1) _ with ⟨hNot, -⟩ | ⟨-, hEq⟩
      · exact absurd hNot hError
      rw [hEq, ← hChildren]
      rcases andThen_cases (outcomeOf (deviceChldUnbindHeld
        (unbindHeld w levels) ((callHook w .unbind d s.1).2.children d)
          ((callHook w .unbind d s.1).2, s.2))) _ with
        ⟨hNot, hEq'⟩ | ⟨hZero, hEq'⟩
    · rw [hEq']
    · exact absurd hZero hLeft
    · exact absurd hNot hLeft
    · rw [hEq']
      exact unbindSelf_eq

/- The parent of a device has a smaller number. -/
def Rising (s : State) : Prop :=
  ∀ c ∈ s.live, ∀ p, (s.dev c).parent = some p → p < c

/- The devices before one are left as they are. -/
structure Spares (d : DevId) (s t : State × Held) : Prop where
  hDev : t.1.dev = s.1.dev
  hLive : ∀ x ∈ t.1.live, x ∈ s.1.live
  hBefore : ∀ x < d, (x ∈ s.1.live → x ∈ t.1.live) ∧
    (x ∈ s.1.listed → x ∈ t.1.listed) ∧ t.2 x = s.2 x

theorem Spares.trans
    {u : State × Held} {e : DevId} (hFirst : Spares e s t) (hNext : Spares d t u) (hLe : d ≤ e) :
    Spares d s u := by
  refine ⟨hNext.hDev.trans hFirst.hDev,
    fun x hx => hFirst.hLive x (hNext.hLive x hx), fun x hx => ?_⟩
  rcases hFirst.hBefore x (Nat.lt_of_lt_of_le hx hLe) with ⟨hLive, hListed, hHeld⟩
  rcases hNext.hBefore x hx with ⟨hLive', hListed', hHeld'⟩
  exact ⟨fun h => hLive' (hLive h), fun h => hListed' (hListed h), hHeld'.trans hHeld⟩

theorem Spares.rising (hSpares : Spares d s t) (hRising : Rising s.1) :
    Rising t.1 := by
  intro c hc p hp
  rw [hSpares.hDev] at hp
  exact hRising c (hSpares.hLive c hc) p hp

theorem Spares.of_sameBut (hSame : SameBut s.1 t.1) (hHeld : t.2 = s.2) :
    Spares d s t := by
  rcases hSame with ⟨trace, faulted, hEq⟩
  refine ⟨by rw [hEq], fun x hx => ?_, fun x _ => ?_⟩
  · rwa [hEq] at hx
  · rw [hEq]
    exact ⟨id, id, congrFun hHeld x⟩

theorem unbindSelf_spares : Spares d s (unbindSelf w d s).2 := by
  unfold unbindSelf uclassUnbindDevice
  rcases andThen_cases (callHook w .preUnbind d s.1) fun s => (0, s.listDel d) with
    ⟨hError, hEq⟩ | ⟨-, hEq⟩
  · rw [hEq]
    rw [if_pos hError]
    exact ⟨rfl, fun _ hx => hx, fun x hx => ⟨id, id, Function.update_of_ne (Nat.ne_of_lt hx) ..⟩⟩
  · rw [hEq]
    refine ⟨rfl, fun x hx => mem_of_mem_erase hx, fun x hx => ?_⟩
    have hNe := Nat.ne_of_lt hx
    exact ⟨(mem_erase_of_ne hNe).mpr, (mem_erase_of_ne hNe).mpr, Function.update_of_ne hNe ..⟩

theorem deviceChldUnbindHeld_spares {unbind : DevId → State × Held → Int × State × Held}
    (children : List DevId) (hChildren : ∀ c ∈ children, d < c)
    (hEach : ∀ c t, Rising t.1 → Spares c t (unbind c t).2) (hRising : Rising s.1) :
    Spares (d + 1) s (deviceChldUnbindHeld unbind children s).2 := by
  induction children generalizing s with
  | nil => exact .of_sameBut (SameBut.refl s.1) rfl
  | cons c rest ih =>
    have hFirst := hEach c s hRising
    exact hFirst.trans
      (ih (fun x hx => hChildren x (mem_cons_of_mem c hx)) (hFirst.rising hRising))
      (hChildren c mem_cons_self)

section

variable (hGranted : ∀ trace, w.answer trace ⟨.preUnbind, d⟩ = 0)
include hGranted

theorem uclassUnbindDevice_granted (s : State) :
    uclassUnbindDevice w d s = (0, (callHook w .preUnbind d s).2.listDel d) :=
  if_pos (hGranted s.trace)

theorem unbindSelf_granted : (unbindSelf w d s).1 = 0 := by
  unfold unbindSelf
  rw [uclassUnbindDevice_granted hGranted]
  rfl

end

/- It fails before anything of the device itself is freed. -/
theorem unbindHeld_spares (levels : Nat) (hRising : Rising s.1) :
    Spares d s (unbindHeld w levels d s).2 ∧ ((∀ trace, w.answer trace ⟨.preUnbind, d⟩ = 0) →
        (unbindHeld w levels d s).1 ≠ 0 → Spares (d + 1) s (unbindHeld w levels d s).2) := by
  have hSame : ∀ e, Spares e s s := fun e => .of_sameBut (SameBut.refl s.1) rfl
  induction levels generalizing d s with
  | zero => exact ⟨hSame d, fun _ _ => hSame (d + 1)⟩
  | succ levels ih =>
    unfold unbindHeld
    have hCall : ∀ e, Spares e s ((callHook w .unbind d s.1).2, s.2) :=
      fun e => .of_sameBut (keptByCalls_sameBut w s.1 _ _ _ (SameBut.refl _))
        rfl
    have hKids := (hCall (d + 1)).trans (deviceChldUnbindHeld_spares
      ((callHook w .unbind d s.1).2.children d)
      (fun c hc => hRising c (mem_children.mp hc).1 d (mem_children.mp hc).2)
      (fun c t ht => (ih (d := c) ht fun e => .of_sameBut (SameBut.refl t.1) rfl).1)
      ((hCall 0).rising hRising)) (Nat.le_refl _)
    dsimp only
    split_ifs with hOn hOff hHook hLeft
    · exact ⟨hSame d, fun _ _ => hSame (d + 1)⟩
    · exact ⟨hSame d, fun _ _ => hSame (d + 1)⟩
    · exact ⟨hCall d, fun _ _ => hCall (d + 1)⟩
    · exact ⟨hKids.trans (.of_sameBut (SameBut.refl _) rfl) (Nat.le_succ d), fun _ _ => hKids⟩
    · exact ⟨hKids.trans unbindSelf_spares (Nat.le_succ d),
        fun hGranted hFail => absurd (unbindSelf_granted hGranted) hFail⟩

end Held

----
-- Failed Binding
----

section Binding

variable {w : World} {d : DevId} {s : State}

theorem bindAdded_unlisted
    (hGranted : ∀ trace, w.answer trace ⟨.preUnbind, d⟩ = 0) (hFail : (bindAdded w d s).1 ≠ 0) :
    (bindAdded w d s).2.listed = s.listed.erase d := by
  have hCalls : KeptByCalls w fun t => t.listed = s.listed := fun _ _ _ hSame => hSame
  have hChild := hCalls.callParent (s := s) .uclassChildPostBind d rfl
  have hBind := hCalls.callHook .bind d hChild
  have hGone : ∀ ret t, t.listed = s.listed → (bindFail w d ret t).2.listed = s.listed.erase d := by
    intro ret t hSame
    unfold bindFail
    rw [uclassUnbindDevice_granted hGranted]
    exact congrArg (List.erase · d) hSame
  unfold bindAdded at hFail ⊢
  dsimp only at hFail ⊢
  split_ifs at hFail ⊢ with hFirst hSecond hThird
  · exact congrArg (List.erase · d) hChild
  · exact hGone _ _ hBind
  · refine hGone _ _ (hCalls.callHook .unbind d ?_)
    refine callAll_keeps (I := fun t => t.listed = s.listed) ?_ hBind
    intro call hCall t ht
    simp only [mem_cons, not_mem_nil, or_false] at hCall
    rcases hCall with rfl | rfl
    · exact hCalls.callParent _ d ht
    · exact hCalls.callHook _ d ht
  · exact absurd rfl hFail

variable (parent : Option DevId) (drv : Driver) (reqSeq : Int) (hasPlatdata : Bool)

theorem deviceBind_listed
    (hGranted : ∀ trace, w.answer trace ⟨.preUnbind, s.fresh⟩ = 0) (hTree : Tree s)
    (hFail : (deviceBind w parent drv reqSeq hasPlatdata s).1 ≠ 0) :
    (deviceBind w parent drv reqSeq hasPlatdata s).2.listed = s.listed := by
  rcases bindAlloc_sameBut w parent drv hasPlatdata s with ⟨trace, faulted, hAlloc⟩
  unfold deviceBind at hFail ⊢
  dsimp only at hFail ⊢
  split_ifs at hFail ⊢ with hRoom
  · rw [hAlloc]
  · have hNew : s.fresh ∉ s.listed := fun hMem => hTree.ne_fresh hMem rfl
    rw [bindAdded_unlisted hGranted hFail, hAlloc]
    unfold addDevice
    rw [erase_append_right _ hNew, erase_cons_head, append_nil]

/- A device that is not bound is on no list, as before. -/
def BindTraceless (w : World) (s : State) : Prop :=
  let r := deviceBind w parent drv reqSeq hasPlatdata s
  r.1 ≠ 0 → (∀ p, r.2.children p = s.children p) ∧
    r.2.listed = s.listed ∧ s.fresh ∉ r.2.live ∧ s.fresh ∉ r.2.listed

theorem bind_traceless
    (hGranted : ∀ trace, w.answer trace ⟨.preUnbind, s.fresh⟩ = 0) (hTree : Tree s) :
    BindTraceless parent drv reqSeq hasPlatdata w s := by
  intro hFail
  have hListed := deviceBind_listed parent drv reqSeq hasPlatdata hGranted hTree hFail
  have hNew : s.fresh ∉ s.listed := fun hMem => hTree.ne_fresh hMem rfl
  have hDead : s.fresh ∉ s.live := fun hMem => hNew (hTree.hOnList _ hMem)
  have hResult := deviceBind_result w parent drv reqSeq hasPlatdata s
  generalize deviceBind w parent drv reqSeq hasPlatdata s = r at *
  cases hResult with
  | noRoom _ hSame =>
    rcases hSame with ⟨trace, faulted, rfl⟩
    exact ⟨fun _ => rfl, rfl, hDead, hNew⟩
  | notBound _ hEither hSame =>
    rcases hSame with ⟨trace, faulted, rfl⟩
    have hLive := (hTree.notBound hEither).2.1
    refine ⟨fun p => ?_, hListed, ?_, hListed ▸ hNew⟩
    · refine (congrArg _ hLive).trans (filter_congr fun c hc => ?_)
      have hOld := addDevice_other (newDevice parent drv reqSeq)
        (hTree.ne_fresh (hTree.hOnList c hc))
      exact congrArg (fun x => decide (x.parent = some p)) hOld
    · exact fun hMem => hDead (hLive ▸ hMem)
  | bound => exact absurd rfl hFail

/- The driver does not bind, and the uclass keeps its device. -/
def stubborn (uclassDriver : UclassId → UclassDriver) : World where
  uclassDriver := uclassDriver
  answer _ call :=
    if call.hook = .bind ∨ call.hook = .preUnbind then -EINVAL else 0

section

variable (uclassDriver : UclassId → UclassDriver)

theorem allocate_stubborn (size : Nat) (s : State) :
    (allocate (stubborn uclassDriver) size d s).1 = 0 := by
  unfold allocate
  split <;> rfl

theorem bindAlloc_stubborn :
    (bindAlloc (stubborn uclassDriver) parent drv hasPlatdata s).1 = 0 := by
  have hGet : ∀ t, (callHook (stubborn uclassDriver) .uclassGet s.fresh t).1 = 0 := fun _ => rfl
  simp only [bindAlloc, callAll, List.foldl, Outcome.andThen, hGet, allocate_stubborn, if_true]

theorem bindAdded_stubborn :
    (bindAdded (stubborn uclassDriver) d s).1 ≠ 0 ∧
      (bindAdded (stubborn uclassDriver) d s).2.listed = s.listed := by
  have hCalls : KeptByCalls (stubborn uclassDriver)
      fun t => t.listed = s.listed := fun _ _ _ hSame => hSame
  have hZero : (callParent (stubborn uclassDriver) .uclassChildPostBind d s).1 = 0 := by
    unfold callParent
    split <;> rfl
  have hNeg : ∀ t, (callHook (stubborn uclassDriver) .bind d t).1 ≠ 0 :=
    fun _ => show -EINVAL ≠ 0 by decide
  unfold bindAdded
  rw [if_neg (not_not.mpr hZero), if_pos (hNeg _)]
  exact ⟨hNeg s, hCalls.callParent .uclassChildPostBind d rfl⟩

theorem deviceBind_stubborn :
    ¬ BindTraceless parent drv reqSeq hasPlatdata (stubborn uclassDriver) s := by
  intro hTraceless
  rcases bindAlloc_sameBut (stubborn uclassDriver) parent drv hasPlatdata s with
    ⟨trace, faulted, hAlloc⟩
  have hAdded := bindAdded_stubborn (d := s.fresh) uclassDriver
    (s := addDevice (newDevice parent drv reqSeq) { s with trace, faulted })
  have hRun : deviceBind (stubborn uclassDriver) parent drv reqSeq
      hasPlatdata s = bindAdded (stubborn uclassDriver) s.fresh
        (addDevice (newDevice parent drv reqSeq) { s with trace, faulted }) := by
    rw [← hAlloc]
    exact if_neg (not_not.mpr (bindAlloc_stubborn parent drv hasPlatdata _))
  unfold BindTraceless at hTraceless
  rw [hRun] at hTraceless
  refine (hTraceless hAdded.1).2.2.2 ?_
  rw [hAdded.2]
  exact mem_append_right _ mem_cons_self

end

end Binding

----
-- Without A Trace
----

/- A device that is not unbound has what it had. -/
def UnbindTraceless (w : World) (held : Held) (d : DevId) (s : State) : Prop :=
  let r := unbindHeld w s.fresh d (s, held)
  r.1 ≠ 0 → d ∈ r.2.1.live ∧ d ∈ r.2.1.listed ∧ r.2.2 d = held d

/-
  What the hooks may answer where the uclass of a device has a
  `pre_unbind`, or has none.
-/
def Possible (uclassDriver : UclassId → UclassDriver) (preUnbind : Bool)
    (d : DevId) (w : World) : Prop :=
  w.uclassDriver = uclassDriver ∧ (preUnbind = false → ∀ trace, w.answer trace ⟨.preUnbind, d⟩ = 0)

theorem failure_traceless (uclassDriver : UclassId → UclassDriver) (preUnbind : Bool) (s : State)
    (held : Held) (parent : Option DevId) (drv : Driver) (reqSeq : Int)
    (hasPlatdata : Bool) (d : DevId) (hTree : Tree s) (hLive : d ∈ s.live) :
    ((∀ w, Possible uclassDriver preUnbind s.fresh w →
        BindTraceless parent drv reqSeq hasPlatdata w s) ∧
      ∀ w, Possible uclassDriver preUnbind d w → UnbindTraceless w held d s) ↔
      preUnbind = false := by
  constructor
  · rintro ⟨hBind, -⟩
    by_contra hHook
    exact deviceBind_stubborn parent drv reqSeq hasPlatdata uclassDriver
      (hBind _ ⟨rfl, fun hNone => absurd hNone hHook⟩)
  · rintro rfl
    refine ⟨fun w hPossible => bind_traceless parent drv reqSeq hasPlatdata
      (hPossible.2 rfl) hTree, fun w hPossible hFail => ?_⟩
    have hRising : Rising s := fun c hc p hp => (hTree.hParent c hc p hp).2
    have hSpares := (unbindHeld_spares (s := (s, held)) s.fresh hRising).2
      (hPossible.2 rfl) hFail
    rcases hSpares.hBefore d (Nat.lt_succ_self d) with ⟨hIn, hOn, hHeld⟩
    exact ⟨hIn hLive, hOn (hTree.hOnList d hLive), hHeld⟩

/- A single device, whose driver allocates its platform data. -/
def single : State where
  dev _ := { newDevice none ⟨7, 0, 0, 16, 0, 0⟩ (-1) with bound := true }
  live := [0]
  listed := [0]
  fresh := 1
  trace := []
  asserted := false
  faulted := false

def noData (_ : UclassId) : UclassDriver :=
  ⟨0, 0, 0, 0⟩

/- A root device with two children. -/
def family : State :=
  let drv : Driver := ⟨7, 0, 0, 16, 0, 0⟩
  { single with
    dev := fun d => { newDevice (if d = 0 then none else some 0) drv (-1) with bound := true }
    live := [0, 1, 2]
    listed := [0, 1, 2]
    fresh := 3 }

theorem family_tree : Tree family where
  hNodup := by decide
  hLive := by decide
  hListed := by decide
  hOnList := by decide
  hBound := by decide
  hParent := by
    intro d hd p hp
    simp only [family, mem_cons, not_mem_nil, or_false] at hd
    rcases hd with rfl | rfl | rfl
    · cases hp
    all_goals
      cases hp
      decide

def familyWorld : World where
  uclassDriver := noData
  answer _ call := if call.hook = .bind ∨ call = ⟨.unbind, 1⟩ then -5 else 0

/- A third child is not bound, and the root is not unbound. -/
theorem failure_traceless_family :
    ((deviceBind familyWorld (some 0) ⟨7, 0, 0, 16, 0, 0⟩ (-1) false family).1 ≠ 0 ∧
      BindTraceless (some 0) ⟨7, 0, 0, 16, 0, 0⟩ (-1) false familyWorld family) ∧
      (unbindHeld familyWorld family.fresh 0 (family, fun _ _ => true)).1 ≠ 0 ∧
      UnbindTraceless familyWorld (fun _ _ => true) 0 family := by
  have hBoth := (failure_traceless noData false family (fun _ _ => true) (some 0)
    ⟨7, 0, 0, 16, 0, 0⟩ (-1) false 0 family_tree (by decide)).mpr rfl
  exact ⟨⟨by decide, hBoth.1 familyWorld ⟨rfl, fun _ _ => rfl⟩⟩, by decide,
    hBoth.2 familyWorld ⟨rfl, fun _ _ => rfl⟩⟩

theorem failure_leaves_trace :
    ¬ BindTraceless (some 0) ⟨7, 0, 0, 16, 0, 0⟩ (-1) false (stubborn noData) single ∧
      ¬ UnbindTraceless (stubborn noData) (fun _ _ => true) 0 single :=
  ⟨fun hBind => absurd (hBind (by decide)).2.1 (by decide),
    fun hUnbind => absurd (congrFun (hUnbind (by decide)).2.2 .platdata) (by decide)⟩

end Uboot.Dm
