import BootFirmware.Lib.KeyedLog
import BootFirmware.Tfa.Sdei.Registration

/-
  Interrupts bound and released by several PEs at once.

  Each scan of the maps and each section under a map's lock
  is one step.  A bind looks for the interrupt, looks for a
  free slot and takes it under its lock, where it only checks
  that the slot is still free: an interrupt that another PE
  has bound in the meantime is bound a second time.

  Key definitions include:
    * `BindPc`, `BindState` and `BindState.step`
    * `bindSystem`
    * `Unraced`
    * `BindUnique`

  The main results are:
    * `sdei_bind_unique`
-/

----
-- Steps
----

namespace Tfa.Sdei

open Function

/-
  Where a PE is: between calls, at the start of a further
  round, before the scan for a slot, before taking a slot, or
  before releasing a map.
-/
inductive BindPc where
  | idle (ret : Int)
  | again (intrNum : Nat)
  | unbound (intrNum : Nat)
  | slot (intrNum : Nat) (ref : MapRef)
  | releasing (ref : MapRef)
  | halted
  deriving DecidableEq

/-
  The shared state, and the completed binds and releases,
  the latest one first.
-/
structure BindState where
  sdei : State
  pc : Nat → BindPc
  history : List (KeyedLog.Event Nat Int)

inductive BindCall where
  | bind (intrNum : Nat)
  | release (evNum : Int)
  deriving DecidableEq

/- The call is the one that a PE between calls makes. -/
structure BindLabel where
  pe : Nat
  call : BindCall
  ans : Answers

/- The section of `sdei_interrupt_release` under the lock. -/
def State.releaseLocked (s : State) (pe : Nat) (ans : Answers)
    (ref : MapRef) : State × Int :=
  let m := s.map ref
  if m.regCount ≠ 0 then
    (s, sdeiEdeny)
  else
    match canSdeiStateTrans (s.getEventEntry pe ref).state .release with
    | none => (s, sdeiEdeny)
    | some next =>
      let s := s.setEvState pe ref next
      if m.bound then
        if ans.interruptActive s.log m.intr then
          (s, sdeiEdeny)
        else
          (s.setMap ref { m with intr := sdeiDynIrq, bound := false }, 0)
      else
        (s, sdeiEinval)

namespace BindState

def goto (s : BindState) (pe : Nat) (pc : BindPc) :
    BindState :=
  { s with pc := update s.pc pe pc }

/- A completed bind. -/
def bound (s : BindState) (intrNum : Nat)
    (evNum : Int) : BindState :=
  { s with history := .set intrNum evNum :: s.history }

/- The scan for an event that the interrupt already has. -/
def scanBound (p : Platform) (s : BindState)
    (pe intrNum : Nat) : BindState :=
  match s.sdei.findEventMapByIntr p intrNum (p.isSpi intrNum) with
  | none => s.goto pe (.unbound intrNum)
  | some ref =>
    let m := s.sdei.map ref
    if m.dynamic then
      if m.bound then
        (s.goto pe (.idle m.evNum)).bound intrNum m.evNum
      else
        s.goto pe (.unbound intrNum)
    else
      s.goto pe (.idle sdeiEinval)

/- The scan for a free slot. -/
def scanSlot (p : Platform) (s : BindState) (pe : Nat) (ans : Answers)
    (intrNum : Nat) : BindState :=
  match s.sdei.findEventMapByIntr p sdeiDynIrq (p.isSpi intrNum) with
  | none => s.goto pe (.idle sdeiEnomem)
  | some ref =>
    if (s.sdei.map ref).dynamic = false then
      s.goto pe .halted
    else if ans.interruptType s.sdei.log intrNum ≠ .ns then
      s.goto pe (.idle sdeiEdeny)
    else
      s.goto pe (.slot intrNum ref)

/- The section of `sdei_interrupt_bind` under the lock. -/
def takeSlot (s : BindState) (pe intrNum : Nat)
    (ref : MapRef) : BindState :=
  let m := s.sdei.map ref
  if m.bound then
    s.goto pe (.again intrNum)
  else
    let s :=
      { s with
        sdei := s.sdei.setMap ref { m with intr := intrNum, bound := true } }
    (s.goto pe (.idle m.evNum)).bound intrNum m.evNum

/- Look for the map of the event to release. -/
def scanEvent (p : Platform) (s : BindState) (pe : Nat)
    (evNum : Int) : BindState :=
  match s.sdei.findEventMap p evNum with
  | none => s.goto pe (.idle sdeiEinval)
  | some ref =>
    if (s.sdei.map ref).dynamic = false then
      s.goto pe (.idle sdeiEinval)
    else
      s.goto pe (.releasing ref)

def releaseMap (s : BindState) (pe : Nat) (ans : Answers)
    (ref : MapRef) : BindState :=
  let r := s.sdei.releaseLocked pe ans ref
  let history :=
    if r.2 = 0 then
      .clear (s.sdei.map ref).intr :: s.history
    else
      s.history
  { sdei := r.1
    pc := update s.pc pe (.idle r.2)
    history := history }

def step (p : Platform) (s : BindState)
    (l : BindLabel) : Option BindState :=
  match s.pc l.pe with
  | .idle _ =>
    match l.call with
    | .bind intrNum =>
      if p.isSgi intrNum then
        some (s.goto l.pe (.idle sdeiEinval))
      else
        some (s.scanBound p l.pe intrNum)
    | .release evNum => some (s.scanEvent p l.pe evNum)
  | .again intrNum => some (s.scanBound p l.pe intrNum)
  | .unbound intrNum => some (s.scanSlot p l.pe l.ans intrNum)
  | .slot intrNum ref => some (s.takeSlot l.pe intrNum ref)
  | .releasing ref => some (s.releaseMap l.pe l.ans ref)
  | .halted => none

end BindState

/- Runs of binds and releases after `sdei_init`. -/
def bindSystem (p : Platform) (contexts : Nat → Context) :
    TransitionSystem BindState BindLabel :=
  .ofStep
    { sdei := p.sdeiInit contexts
      pc := fun _ => .idle 0
      history := [] }
    (BindState.step p)

----
-- The Property
----

/- A place in the mapping of its kind. -/
def Platform.HasMap (p : Platform) (ref : MapRef) : Prop :=
  ref.idx < p.numMaps ref.shared

/- A dynamic map that is bound to an interrupt. -/
def State.BoundTo (s : State) (ref : MapRef)
    (intrNum : Nat) : Prop :=
  (s.map ref).dynamic = true ∧ (s.map ref).bound = true ∧ (s.map ref).intr = intrNum

/-
  One bound dynamic map of each kind for an interrupt, and
  one event number for binds of it without a release.
-/
structure BindUnique
    (p : Platform)
    (s : BindState) : Prop where
  unique : ∀ ref ref' intrNum, p.HasMap ref → p.HasMap ref' → ref.shared = ref'.shared →
    s.sdei.BoundTo ref intrNum → s.sdei.BoundTo ref' intrNum → ref = ref'
  same : ∀ intrNum evNum evNum' later between earlier,
    s.history = later ++ .set intrNum evNum' :: (between ++ .set intrNum evNum :: earlier) →
    .clear intrNum ∉ between → evNum' = evNum

/-
  Where a bind takes a free slot, the scan for the interrupt
  still finds no bound map.
-/
def Unraced (p : Platform) (s : BindState)
    (l : BindLabel) : Prop :=
  ∀ intrNum ref, s.pc l.pe = .slot intrNum ref → (s.sdei.map ref).bound = false →
    ∀ ref', s.sdei.findEventMapByIntr p intrNum (p.isSpi intrNum) = some ref' →
      (s.sdei.map ref').bound = false

instance decidableUnraced
    (p : Platform) (s : BindState)
    (l : BindLabel) : Decidable (Unraced p s l) :=
  match hPc : s.pc l.pe with
  | .slot intrNum ref =>
    decidable_of_iff
      ((s.sdei.map ref).bound = false → (s.sdei.findEventMapByIntr p intrNum
          (p.isSpi intrNum)).all (fun ref' => !(s.sdei.map ref').bound) = true)
      (by
        unfold Unraced
        rw [hPc]
        simp only [Option.all_eq_true, Bool.not_eq_eq_eq_not, Bool.not_true, BindPc.slot.injEq]
        constructor
        · rintro hAll _ _ ⟨rfl, rfl⟩
          exact hAll
        · intro hAll
          exact hAll intrNum ref ⟨rfl, rfl⟩)
  | .idle _ | .again _ | .unbound _ | .releasing _
  | .halted =>
    isTrue (by
      unfold Unraced
      rw [hPc]
      exact nofun)

/- The platform's dynamic maps are free to begin with. -/
def Platform.DynamicFree (p : Platform) : Prop :=
  ∀ shared, ∀ m ∈ p.maps shared, m.dynamic = true → m.bound = false

----
-- Maps That Are Found
----

variable {p : Platform} {s : BindState} {l : BindLabel} {ref : MapRef}

theorem findEventMapByIntr_some {s : State} {intr : Nat} {shared : Bool}
    (hFind : s.findEventMapByIntr p intr shared = some ref) :
    p.HasMap ref ∧ ref.shared = shared ∧ (s.map ref).intr = intr := by
  have hRange := State.findInMapping_range hFind
  rcases Option.map_eq_some_iff.mp hFind with ⟨i, hi, rfl⟩
  have hTest := List.find?_some hi
  exact ⟨hRange, rfl, beq_iff_eq.mp hTest⟩

theorem findEventMapByIntr_isSome
    {s : State} {intr : Nat} (hMap : p.HasMap ref) (hIntr : (s.map ref).intr = intr) :
    ∃ ref', s.findEventMapByIntr p intr ref.shared = some ref' := by
  cases hFind : s.findEventMapByIntr p intr ref.shared with
  | some ref' => exact ⟨ref', rfl⟩
  | none =>
    have hNone :=
      List.find?_eq_none.mp (Option.map_eq_none_iff.mp hFind) ref.idx (List.mem_range.mpr hMap)
    exact absurd (beq_iff_eq.mpr hIntr) hNone

----
-- The Invariant
----

/- No static map of the interrupt's kind has it. -/
def NoStatic (p : Platform) (s : State)
    (intrNum : Nat) : Prop :=
  p.isSgi intrNum = false ∧ ∀ ref, p.HasMap ref → ref.shared = p.isSpi intrNum →
      (s.map ref).dynamic = false → (s.map ref).intr ≠ intrNum

/- What a PE knows from the scans it has made. -/
def PcOk (p : Platform) (s : State) : BindPc → Prop
  | .idle _ => True
  | .again intrNum => p.isSgi intrNum = false
  | .unbound intrNum => NoStatic p s intrNum
  | .slot intrNum ref =>
    NoStatic p s intrNum ∧ p.HasMap ref ∧ ref.shared = p.isSpi intrNum ∧ (s.map ref).dynamic = true
  | .releasing ref => p.HasMap ref ∧ (s.map ref).dynamic = true
  | .halted => True

/-
  Free dynamic maps have no interrupt, bound ones have one
  each, and the interrupts that the history leaves bound have
  their event numbers.
-/
structure BindInv
    (p : Platform)
    (s : BindState) : Prop where
  free : ∀ ref, p.HasMap ref → (s.sdei.map ref).dynamic = true →
    (s.sdei.map ref).bound = false → (s.sdei.map ref).intr = sdeiDynIrq
  unique : ∀ ref ref' intrNum, p.HasMap ref → p.HasMap ref' → ref.shared = ref'.shared →
    s.sdei.BoundTo ref intrNum → s.sdei.BoundTo ref' intrNum → ref = ref'
  pcs : ∀ pe, PcOk p s.sdei (s.pc pe)
  latest : ∀ intrNum evNum, KeyedLog.latest intrNum s.history = some evNum →
      ∃ ref, p.HasMap ref ∧ ref.shared = p.isSpi intrNum ∧ s.sdei.BoundTo ref intrNum ∧
        (s.sdei.map ref).evNum = evNum
  stable : KeyedLog.Stable s.history

theorem BindInv.bindUnique (hInv : BindInv p s) :
    BindUnique p s where
  unique := hInv.unique
  same := by
    intro intrNum evNum evNum' later between earlier hHistory hKept
    have hStable := hInv.stable
    rw [hHistory] at hStable
    exact hStable.agree hKept

/- A step that changes no map and completes nothing. -/
theorem BindInv.goto (hInv : BindInv p s) (pe : Nat) {pc : BindPc} (hPc : PcOk p s.sdei pc) :
    BindInv p (s.goto pe pc) where
  free := hInv.free
  unique := hInv.unique
  latest := hInv.latest
  stable := hInv.stable
  pcs pe' := by
    unfold BindState.goto
    dsimp only
    by_cases hPe : pe' = pe
    · rw [hPe, update_self]
      exact hPc
    · rw [update_of_ne hPe]
      exact hInv.pcs pe'

variable {intrNum : Nat}

/- A bind that finds the interrupt bound already. -/
theorem BindInv.found
    (hInv : BindInv p s) (pe : Nat) (hMap : p.HasMap ref) (hShared : ref.shared = p.isSpi intrNum)
    (hBound : s.sdei.BoundTo ref intrNum) :
    BindInv p
      ((s.goto pe (.idle (s.sdei.map ref).evNum)).bound intrNum (s.sdei.map ref).evNum) where
  free := hInv.free
  unique := hInv.unique
  pcs := by
    have hPc : PcOk p s.sdei (.idle (s.sdei.map ref).evNum) := trivial
    exact (hInv.goto pe hPc).pcs
  latest := by
    intro intrNum' evNum hLatest
    unfold BindState.bound at hLatest
    by_cases hIntr : intrNum = intrNum'
    · subst hIntr
      rw [KeyedLog.latest_set_self] at hLatest
      cases hLatest
      exact ⟨ref, hMap, hShared, hBound, rfl⟩
    · rw [KeyedLog.latest_set_of_ne hIntr] at hLatest
      exact hInv.latest intrNum' evNum hLatest
  stable := by
    refine ⟨?_, hInv.stable⟩
    intro evNum hLatest
    rcases hInv.latest intrNum evNum hLatest with ⟨ref', hMap', hShared', hBound', hEvNum⟩
    have hSame := hInv.unique ref ref' intrNum hMap hMap'
      (hShared.trans hShared'.symm) hBound hBound'
    rw [hSame]
    exact hEvNum

/- Maps that keep what scans have found out about them. -/
def KeepsStatic (s s' : State) : Prop :=
  ∀ ref, (s'.map ref).dynamic = (s.map ref).dynamic ∧
    ((s.map ref).dynamic = false → (s'.map ref).intr = (s.map ref).intr)

theorem NoStatic.keep {s s' : State} (hNo : NoStatic p s intrNum) (hKeeps : KeepsStatic s s') :
    NoStatic p s' intrNum := by
  refine ⟨hNo.1, ?_⟩
  intro ref hMap hShared hDynamic
  rw [(hKeeps ref).1] at hDynamic
  rw [(hKeeps ref).2 hDynamic]
  exact hNo.2 ref hMap hShared hDynamic

theorem PcOk.keep {s s' : State} {pc : BindPc} (hPc : PcOk p s pc) (hKeeps : KeepsStatic s s') :
    PcOk p s' pc := by
  cases pc with
  | idle ret => exact trivial
  | again intrNum => exact hPc
  | unbound intrNum => exact NoStatic.keep hPc hKeeps
  | slot intrNum ref =>
    exact ⟨hPc.1.keep hKeeps, hPc.2.1, hPc.2.2.1, (hKeeps ref).1.trans hPc.2.2.2⟩
  | releasing ref => exact ⟨hPc.1, (hKeeps ref).1.trans hPc.2⟩
  | halted => exact trivial

theorem setMap_map_self (s : State) (ref : MapRef) (m : EvMap) :
    (s.setMap ref m).map ref = m := by
  exact update_self ..

theorem setMap_map_of_ne (s : State) (m : EvMap) {ref ref' : MapRef} (hNe : ref' ≠ ref) :
    (s.setMap ref m).map ref' = s.map ref' := by
  exact update_of_ne hNe ..

theorem keepsStatic_setMap
    (s : State) {m : EvMap} (hDynamic : (s.map ref).dynamic = true) (hSame : m.dynamic = true) :
    KeepsStatic s (s.setMap ref m) := by
  intro ref'
  by_cases hRef : ref' = ref
  · rw [hRef, setMap_map_self, hDynamic]
    exact ⟨hSame, nofun⟩
  · rw [setMap_map_of_ne s m hRef]
    exact ⟨rfl, fun _ => rfl⟩

/- The invariant is about the maps only. -/
theorem BindInv.congr {s' : BindState} (hInv : BindInv p s) (hMap : s'.sdei.map = s.sdei.map)
    (hPcs : s'.pc = s.pc) (hHistory : s'.history = s.history) :
    BindInv p s' := by
  refine ⟨?_, ?_, ?_, ?_, ?_⟩
  · rw [hMap]
    exact hInv.free
  · unfold State.BoundTo
    rw [hMap]
    exact hInv.unique
  · intro pe
    rw [hPcs]
    refine (hInv.pcs pe).keep fun ref => ?_
    rw [hMap]
    exact ⟨rfl, fun _ => rfl⟩
  · unfold State.BoundTo
    rw [hMap, hHistory]
    exact hInv.latest
  · rw [hHistory]
    exact hInv.stable

theorem BindInv.scan_bound (hInv : BindInv p s) (hNo : NoStatic p s.sdei intrNum)
    (hMap : p.HasMap ref) (hShared : ref.shared = p.isSpi intrNum)
    (hIntr : (s.sdei.map ref).intr = intrNum) :
    s.sdei.BoundTo ref intrNum := by
  have hDynamic : (s.sdei.map ref).dynamic = true := by
    by_contra hStatic
    exact hNo.2 ref hMap hShared (Bool.eq_false_iff.mpr hStatic) hIntr
  refine ⟨hDynamic, ?_, hIntr⟩
  by_contra hFree
  have hZero := hInv.free ref hMap hDynamic (Bool.eq_false_iff.mpr hFree)
  have hSgi := hNo.1
  rw [← hIntr, hZero, p.dynIrq_isSgi] at hSgi
  cases hSgi

theorem BindInv.taken (hInv : BindInv p s) (pe : Nat) (hPc : PcOk p s.sdei (.slot intrNum ref))
    (hFree : (s.sdei.map ref).bound = false)
    (hNone : ∀ ref', p.HasMap ref' →
      ref'.shared = p.isSpi intrNum → ¬ s.sdei.BoundTo ref' intrNum) :
    BindInv p (s.takeSlot pe intrNum ref) := by
  rcases hPc with ⟨hNo, hMap, hShared, hDynamic⟩
  have hKeeps :
      KeepsStatic s.sdei
        (s.sdei.setMap ref
          { s.sdei.map ref with
            intr := intrNum, bound := true }) :=
    keepsStatic_setMap s.sdei hDynamic hDynamic
  have hOther :
      ∀ {ref' : MapRef}, ref' ≠ ref → (s.sdei.setMap ref
          { s.sdei.map ref with
            intr := intrNum, bound := true }).map ref' =
        s.sdei.map ref' :=
    fun hNe => setMap_map_of_ne s.sdei _ hNe
  unfold BindState.takeSlot
  rw [if_neg (Bool.eq_false_iff.mp hFree)]
  unfold BindState.bound BindState.goto
  refine ⟨?_, ?_, ?_, ?_, ?_⟩
  · intro ref' hMap' hDynamic' hFree'
    by_cases hRef : ref' = ref
    · rw [hRef, setMap_map_self] at hFree'
      cases hFree'
    · rw [hOther hRef] at hDynamic' hFree' ⊢
      exact hInv.free ref' hMap' hDynamic' hFree'
  · intro ref₁ ref₂ intrNum' hMap₁ hMap₂ hKind h₁ h₂
    unfold State.BoundTo at h₁ h₂
    by_cases hRef₁ : ref₁ = ref
    · rw [hRef₁, setMap_map_self] at h₁
      by_cases hRef₂ : ref₂ = ref
      · rw [hRef₁, hRef₂]
      · rw [hOther hRef₂] at h₂
        have hIntr : intrNum' = intrNum := h₁.2.2.symm
        rw [hIntr] at h₂
        refine absurd h₂ (hNone ref₂ hMap₂ ?_)
        rw [← hKind, hRef₁, hShared]
    · rw [hOther hRef₁] at h₁
      by_cases hRef₂ : ref₂ = ref
      · rw [hRef₂, setMap_map_self] at h₂
        have hIntr : intrNum' = intrNum := h₂.2.2.symm
        rw [hIntr] at h₁
        refine absurd h₁ (hNone ref₁ hMap₁ ?_)
        rw [hKind, hRef₂, hShared]
      · rw [hOther hRef₂] at h₂
        exact hInv.unique ref₁ ref₂ intrNum' hMap₁ hMap₂ hKind h₁ h₂
  · intro pe'
    dsimp only
    by_cases hPe : pe' = pe
    · rw [hPe, update_self]
      exact trivial
    · rw [update_of_ne hPe]
      exact (hInv.pcs pe').keep hKeeps
  · intro intrNum' evNum hLatest
    unfold State.BoundTo
    by_cases hIntr : intrNum = intrNum'
    · subst hIntr
      rw [KeyedLog.latest_set_self] at hLatest
      cases hLatest
      refine ⟨ref, hMap, hShared, ?_⟩
      rw [setMap_map_self]
      exact ⟨⟨hDynamic, rfl, rfl⟩, rfl⟩
    · rw [KeyedLog.latest_set_of_ne hIntr] at hLatest
      rcases hInv.latest intrNum' evNum hLatest with ⟨ref', hMap', hShared', hBound', hEvNum⟩
      have hRef : ref' ≠ ref := by
        rintro rfl
        exact Bool.eq_false_iff.mp hFree hBound'.2.1
      refine ⟨ref', hMap', hShared', ?_⟩
      rw [hOther hRef]
      exact ⟨hBound', hEvNum⟩
  · refine ⟨?_, hInv.stable⟩
    intro evNum hLatest
    rcases hInv.latest intrNum evNum hLatest with ⟨ref', hMap', hShared', hBound', -⟩
    exact absurd hBound' (hNone ref' hMap' hShared')

theorem releaseLocked_cases (s : State) (pe : Nat) (ans : Answers) (ref : MapRef) :
    ((s.releaseLocked pe ans ref).1.map = s.map ∧ (s.releaseLocked pe ans ref).2 ≠ 0) ∨
    ((s.map ref).bound = true ∧ (s.releaseLocked pe ans ref).1.map = (s.setMap ref
          { s.map ref with
            intr := sdeiDynIrq, bound := false }).map ∧
      (s.releaseLocked pe ans ref).2 = 0) := by
  have hMap : ∀ next, (s.setEvState pe ref next).map = s.map := by
    intro next
    unfold State.setEvState State.setEntry
    split
    · rfl
    · rfl
  unfold State.releaseLocked
  by_cases hCount : (s.map ref).regCount ≠ 0
  · rw [if_pos hCount]
    exact Or.inl ⟨rfl, (by decide : sdeiEdeny ≠ 0)⟩
  rw [if_neg hCount]
  cases canSdeiStateTrans (s.getEventEntry pe ref).state .release with
  | none => exact Or.inl ⟨rfl, (by decide : sdeiEdeny ≠ 0)⟩
  | some next =>
    dsimp only
    by_cases hBound : (s.map ref).bound = true
    · rw [if_pos hBound]
      split
      · exact Or.inl ⟨hMap next, (by decide : sdeiEdeny ≠ 0)⟩
      · refine Or.inr ⟨hBound, ?_, rfl⟩
        unfold State.setMap
        rw [hMap next]
    · rw [if_neg hBound]
      exact Or.inl ⟨hMap next, (by decide : sdeiEinval ≠ 0)⟩

section

variable (hInv : BindInv p s)
include hInv

/- A released map, and the interrupt that it was bound to. -/
theorem BindInv.released (pe : Nat) (ans : Answers) (hPc : PcOk p s.sdei (.releasing ref)) :
    BindInv p (s.releaseMap pe ans ref) := by
  rcases hPc with ⟨hMap, hDynamic⟩
  have hIdle : ∀ ret, PcOk p s.sdei (.idle ret) := fun _ => trivial
  unfold BindState.releaseMap
  dsimp only
  rcases releaseLocked_cases s.sdei pe ans ref with ⟨hSame, hRet⟩ | ⟨hBound, hFreed, hRet⟩
  · rw [if_neg hRet]
    exact (hInv.goto pe (hIdle _)).congr hSame rfl rfl
  rw [if_pos hRet]
  have hKeeps :
      KeepsStatic s.sdei
        (s.sdei.setMap ref
          { s.sdei.map ref with
            intr := sdeiDynIrq, bound := false }) :=
    keepsStatic_setMap s.sdei hDynamic hDynamic
  have hOther :
      ∀ {ref' : MapRef}, ref' ≠ ref → (s.sdei.setMap ref
          { s.sdei.map ref with
            intr := sdeiDynIrq, bound := false }).map ref' =
        s.sdei.map ref' :=
    fun hNe => setMap_map_of_ne s.sdei _ hNe
  have hStill :
      ∀ {ref' intrNum}, (s.sdei.setMap ref
          { s.sdei.map ref with
            intr := sdeiDynIrq, bound := false }).BoundTo ref'
            intrNum →
        ref' ≠ ref ∧ s.sdei.BoundTo ref' intrNum := by
    intro ref' intrNum h
    unfold State.BoundTo at h
    by_cases hRef : ref' = ref
    · rw [hRef, setMap_map_self] at h
      exact nomatch h.2.1
    · rw [hOther hRef] at h
      exact ⟨hRef, h⟩
  refine BindInv.congr
    (s := { sdei := s.sdei.setMap ref
              { s.sdei.map ref with
                intr := sdeiDynIrq, bound := false }
            pc := update s.pc pe (.idle (s.sdei.releaseLocked pe ans ref).2)
            history := .clear (s.sdei.map ref).intr :: s.history })
    ⟨?_, ?_, ?_, ?_, hInv.stable⟩ hFreed rfl rfl
  · intro ref' hMap' hDynamic' hFree'
    by_cases hRef : ref' = ref
    · rw [hRef, setMap_map_self]
    · rw [hOther hRef] at hDynamic' hFree' ⊢
      exact hInv.free ref' hMap' hDynamic' hFree'
  · intro ref₁ ref₂ intrNum hMap₁ hMap₂ hKind h₁ h₂
    exact hInv.unique ref₁ ref₂ intrNum hMap₁ hMap₂ hKind (hStill h₁).2 (hStill h₂).2
  · intro pe'
    dsimp only
    by_cases hPe : pe' = pe
    · rw [hPe, update_self]
      exact trivial
    · rw [update_of_ne hPe]
      exact (hInv.pcs pe').keep hKeeps
  · intro intrNum evNum hLatest
    by_cases hIntr : (s.sdei.map ref).intr = intrNum
    · rw [hIntr, KeyedLog.latest_clear_self] at hLatest
      cases hLatest
    · rw [KeyedLog.latest_clear_of_ne hIntr] at hLatest
      rcases hInv.latest intrNum evNum hLatest with ⟨ref', hMap', hShared', hBound', hEvNum⟩
      have hRef : ref' ≠ ref := by
        rintro rfl
        exact hIntr hBound'.2.2
      refine ⟨ref', hMap', hShared', ?_⟩
      unfold State.BoundTo
      rw [hOther hRef]
      exact ⟨hBound', hEvNum⟩

----
-- Whole Runs
----

/- Both scans, from what is known before them. -/
theorem BindInv.scanBound (pe : Nat) (hSgi : p.isSgi intrNum = false) :
    BindInv p (s.scanBound p pe intrNum) := by
  unfold BindState.scanBound
  cases hFind : s.sdei.findEventMapByIntr p intrNum (p.isSpi intrNum) with
  | none =>
    have hNo : NoStatic p s.sdei intrNum := by
      refine ⟨hSgi, ?_⟩
      intro ref hMap hShared _ hIntr
      rcases findEventMapByIntr_isSome hMap hIntr with ⟨ref', hSome⟩
      rw [hShared, hFind] at hSome
      cases hSome
    have hPc : PcOk p s.sdei (.unbound intrNum) := hNo
    exact hInv.goto pe hPc
  | some ref =>
    rcases findEventMapByIntr_some hFind with ⟨hMap, hShared, hIntr⟩
    dsimp only
    by_cases hDynamic : (s.sdei.map ref).dynamic = true
    · rw [if_pos hDynamic]
      by_cases hBound : (s.sdei.map ref).bound = true
      · rw [if_pos hBound]
        exact hInv.found pe hMap hShared ⟨hDynamic, hBound, hIntr⟩
      · -- A free dynamic map has no interrupt but the
        -- placeholder, which is not bound.
        have hZero := hInv.free ref hMap hDynamic (Bool.eq_false_iff.mpr hBound)
        rw [← hIntr, hZero, p.dynIrq_isSgi] at hSgi
        cases hSgi
    · rw [if_neg hDynamic]
      have hPc : PcOk p s.sdei (.idle sdeiEinval) := trivial
      exact hInv.goto pe hPc

theorem BindInv.scanSlot (pe : Nat) (ans : Answers) (hNo : NoStatic p s.sdei intrNum) :
    BindInv p (s.scanSlot p pe ans intrNum) := by
  have hIdle : ∀ ret, PcOk p s.sdei (.idle ret) := fun _ => trivial
  have hHalted : PcOk p s.sdei .halted := trivial
  unfold BindState.scanSlot
  cases hFind : s.sdei.findEventMapByIntr p sdeiDynIrq (p.isSpi intrNum) with
  | none => exact hInv.goto pe (hIdle _)
  | some ref =>
    rcases findEventMapByIntr_some hFind with ⟨hMap, hShared, -⟩
    dsimp only
    by_cases hDynamic : (s.sdei.map ref).dynamic = false
    · rw [if_pos hDynamic]
      exact hInv.goto pe hHalted
    rw [if_neg hDynamic]
    split
    · exact hInv.goto pe (hIdle _)
    · have hPc : PcOk p s.sdei (.slot intrNum ref) :=
        ⟨hNo, hMap, hShared, Bool.of_not_eq_false hDynamic⟩
      exact hInv.goto pe hPc

theorem BindInv.scanEvent (pe : Nat) (evNum : Int) :
    BindInv p (s.scanEvent p pe evNum) := by
  have hIdle : ∀ ret, PcOk p s.sdei (.idle ret) := fun _ => trivial
  unfold BindState.scanEvent
  cases hFind : s.sdei.findEventMap p evNum with
  | none => exact hInv.goto pe (hIdle _)
  | some ref =>
    dsimp only
    by_cases hDynamic : (s.sdei.map ref).dynamic = false
    · rw [if_pos hDynamic]
      exact hInv.goto pe (hIdle _)
    · rw [if_neg hDynamic]
      have hPc : PcOk p s.sdei (.releasing ref) :=
        ⟨State.findEventMap_range hFind, Bool.of_not_eq_false hDynamic⟩
      exact hInv.goto pe hPc

theorem BindInv.not_bound (hUnraced : Unraced p s l) (hPc : s.pc l.pe = .slot intrNum ref)
    (hFree : (s.sdei.map ref).bound = false) (ref' : MapRef)
    (hMap : p.HasMap ref') (hShared : ref'.shared = p.isSpi intrNum) :
    ¬ s.sdei.BoundTo ref' intrNum := by
  intro hBound
  have hOk := hInv.pcs l.pe
  rw [hPc] at hOk
  rcases findEventMapByIntr_isSome hMap hBound.2.2 with ⟨found, hFind⟩
  rw [hShared] at hFind
  rcases findEventMapByIntr_some hFind with ⟨hMap', hShared', hIntr'⟩
  have hFound := hInv.scan_bound hOk.1 hMap' hShared' hIntr'
  have hNot := hUnraced intrNum ref hPc hFree found hFind
  exact Bool.eq_false_iff.mp hNot hFound.2.1

/- Each step keeps the invariant under the condition. -/
theorem BindInv.step {s' : BindState} (hUnraced : Unraced p s l) (hStep : s.step p l = some s') :
    BindInv p s' := by
  have hOk := hInv.pcs l.pe
  unfold BindState.step at hStep
  cases hPc : s.pc l.pe with
  | idle last =>
    rw [hPc] at hStep
    cases hCall : l.call with
    | bind intrNum =>
      rw [hCall] at hStep
      dsimp only at hStep
      by_cases hSgi : p.isSgi intrNum = true
      · rw [if_pos hSgi] at hStep
        cases hStep
        have hIdle : PcOk p s.sdei (.idle sdeiEinval) := trivial
        exact hInv.goto l.pe hIdle
      · rw [if_neg hSgi] at hStep
        cases hStep
        exact hInv.scanBound l.pe (Bool.eq_false_iff.mpr hSgi)
    | release evNum =>
      rw [hCall] at hStep
      cases hStep
      exact hInv.scanEvent l.pe evNum
  | again intrNum =>
    rw [hPc] at hStep hOk
    cases hStep
    exact hInv.scanBound l.pe hOk
  | unbound intrNum =>
    rw [hPc] at hStep hOk
    cases hStep
    exact hInv.scanSlot l.pe l.ans hOk
  | slot intrNum ref =>
    rw [hPc] at hStep hOk
    cases hStep
    by_cases hBound : (s.sdei.map ref).bound = true
    · unfold BindState.takeSlot
      rw [if_pos hBound]
      have hAgain : PcOk p s.sdei (.again intrNum) := hOk.1.1
      exact hInv.goto l.pe hAgain
    · have hFree := Bool.eq_false_iff.mpr hBound
      exact hInv.taken l.pe hOk hFree (hInv.not_bound hUnraced hPc hFree)
  | releasing ref =>
    rw [hPc] at hStep hOk
    cases hStep
    exact hInv.released l.pe l.ans hOk
  | halted =>
    rw [hPc] at hStep
    cases hStep

/- A raced slot is bound to an interrupt bound elsewhere. -/
theorem BindInv.unraced_of_unique
    {s' : BindState} (hStep : s.step p l = some s') (hUnique : BindUnique p s') :
    Unraced p s l := by
  intro intrNum ref hPc hFree ref' hFind
  by_contra hBound
  have hOk := hInv.pcs l.pe
  rw [hPc] at hOk
  rcases hOk with ⟨hNo, hMap, hShared, hDynamic⟩
  rcases findEventMapByIntr_some hFind with ⟨hMap', hShared', hIntr'⟩
  have hOther := hInv.scan_bound hNo hMap' hShared' hIntr'
  have hNe : ref' ≠ ref := by
    rintro rfl
    exact hBound hFree
  unfold BindState.step at hStep
  rw [hPc] at hStep
  cases hStep
  unfold BindState.takeSlot at hUnique
  rw [if_neg (Bool.eq_false_iff.mp hFree)] at hUnique
  have hSame := hUnique.unique ref ref' intrNum hMap hMap' (hShared.trans hShared'.symm)
  unfold State.BoundTo BindState.bound BindState.goto at hSame
  rw [setMap_map_self, setMap_map_of_ne s.sdei _ hNe] at hSame
  exact hNe (hSame ⟨hDynamic, rfl, rfl⟩ hOther).symm

end

/- Nothing is bound to begin with. -/
theorem bindInv_init (hFree : p.DynamicFree) (contexts : Nat → Context) :
    BindInv p
      { sdei := p.sdeiInit contexts
        pc := fun _ => .idle 0
        history := [] } := by
  have hMem : ∀ ref, p.HasMap ref → (p.maps ref.shared).getD ref.idx .none ∈ p.maps ref.shared := by
    intro ref hMap
    rw [List.getD, List.getElem?_eq_getElem hMap]
    exact List.getElem_mem hMap
  have hStart :
      ∀ ref, p.HasMap ref → ((p.sdeiInit contexts).map ref).dynamic = true →
        ((p.sdeiInit contexts).map ref).bound = false ∧
          ((p.sdeiInit contexts).map ref).intr = sdeiDynIrq := by
    intro ref hMap hDynamic
    have hIn := hMem ref hMap
    have hDyn : ((p.maps ref.shared).getD ref.idx .none).dynamic = true := hDynamic
    refine ⟨?_, ?_⟩
    · show (((p.maps ref.shared).getD ref.idx .none).bound ||
        (!((p.maps ref.shared).getD ref.idx .none).dynamic && _)) = false
      rw [hFree ref.shared _ hIn hDyn, hDyn]
      rfl
    · show ((p.maps ref.shared).getD ref.idx .none).intr = sdeiDynIrq
      cases hShared : ref.shared with
      | true =>
        rw [hShared] at hIn hDyn
        have hOk := (p.shared_ok _ hIn).2.2.2
        rw [if_pos hDyn] at hOk
        exact hOk.1
      | false =>
        rw [hShared] at hIn hDyn
        have hOk := (p.private_ok _ hIn).2.2.2
        by_cases hZero : ((p.maps false).getD ref.idx .none).evNum = sdeiEvent0
        · rw [if_pos hZero] at hOk
          exact absurd hOk.2.1 (by rw [hDyn]; exact nofun)
        · rw [if_neg hZero, if_pos hDyn] at hOk
          exact hOk.1
  refine ⟨?_, ?_, fun _ => trivial, fun _ _ h => ?_, trivial⟩
  · intro ref hMap hDynamic _
    exact (hStart ref hMap hDynamic).2
  · intro ref ref' intrNum hMap _ _ hBound _
    have hNot := (hStart ref hMap hBound.1).1
    exact absurd hBound.2.1 (Bool.eq_false_iff.mp hNot)
  · cases h

/-
  In every run in which no slot is taken for an interrupt
  that is bound elsewhere, interrupts are bound uniquely; and
  a further step leaves them so if and only if it takes no
  such slot.
-/
theorem sdei_bind_unique
    (p : Platform) (hFree : p.DynamicFree) (contexts : Nat → Context) (s : BindState)
    (hReach : (bindSystem p contexts).ReachableBy (Unraced p) s) :
    BindUnique p s ∧ ∀ l s', s.step p l = some s' → (BindUnique p s' ↔ Unraced p s l) := by
  have hInv : BindInv p s := by
    refine hReach.invariant ?_ ?_
    · rintro s rfl
      exact bindInv_init hFree contexts
    · intro s l s' hInv hUnraced hStep
      exact hInv.step hUnraced hStep
  refine ⟨hInv.bindUnique, fun l s' hStep => ⟨?_, ?_⟩⟩
  · exact hInv.unraced_of_unique hStep
  · intro hUnraced
    exact (hInv.step hUnraced hStep).bindUnique

/- Two PEs with event 0 and two shared slots. -/
def twoSlots : Platform :=
  { twoPes with
    privateMaps :=
      [{ evNum := 0, intr := 8, dynamic := false
         bound := false, signalable := true, isPrivate := true
         critical := false, regCount := 0 }]
    sharedMaps :=
      [{ evNum := 10, intr := 0, dynamic := true
         bound := false, signalable := false
         isPrivate := false, critical := false, regCount := 0 },
       { evNum := 11, intr := 0, dynamic := true
         bound := false, signalable := false
         isPrivate := false, critical := false
         regCount := 0 }]
    shared_ok := by decide
    private_ok := by decide
    shared_sorted := by decide
    private_sorted := by decide
    zero_found := by decide }

/- Interrupt 40 is bound by both PEs, one after the other. -/
theorem sdei_bind_unique_twice :
    ∃ s : BindState, s.history = [.set 40 10, .set 40 10] ∧ BindUnique twoSlots s := by
  rcases TransitionSystem.exists_reachableBy (BindState.step twoSlots) (Unraced twoSlots)
      { sdei := twoSlots.sdeiInit (fun _ => zeroContext)
        pc := fun _ => .idle 0
        history := [] }
      [⟨0, .bind 40, quietAnswers⟩, ⟨0, .bind 40, quietAnswers⟩, ⟨0, .bind 40, quietAnswers⟩,
        ⟨1, .bind 40, quietAnswers⟩]
      (fun s => s.history = [.set 40 10, .set 40 10])
      (by decide) with
    ⟨s, hReach, hHistory⟩
  have hFree : twoSlots.DynamicFree := by
    unfold Platform.DynamicFree
    decide
  exact ⟨s, hHistory, (sdei_bind_unique twoSlots hFree (fun _ => zeroContext) s hReach).1⟩

/-
  PE 0 finds interrupt 40 unbound.  PE 1 binds it to the
  first slot before PE 0 looks for a slot and takes the
  second one.
-/
theorem sdei_bind_races :
    ∃ s : BindState, (bindSystem twoSlots (fun _ => zeroContext)).Reachable s ∧
      s.history = [.set 40 11, .set 40 10] ∧ ¬ BindUnique twoSlots s := by
  rcases TransitionSystem.exists_reachableBy (BindState.step twoSlots) (fun _ _ => True)
      { sdei := twoSlots.sdeiInit (fun _ => zeroContext)
        pc := fun _ => .idle 0
        history := [] }
      [⟨0, .bind 40, quietAnswers⟩, ⟨1, .bind 40, quietAnswers⟩, ⟨1, .bind 40, quietAnswers⟩,
        ⟨1, .bind 40, quietAnswers⟩, ⟨0, .bind 40, quietAnswers⟩, ⟨0, .bind 40, quietAnswers⟩]
      (fun s => s.history = [.set 40 11, .set 40 10])
      (by decide) with
    ⟨s, hReach, hHistory⟩
  refine ⟨s, hReach, hHistory, ?_⟩
  intro hUnique
  have hSame := hUnique.same 40 10 11 [] [] [] hHistory List.not_mem_nil
  cases hSame

end Tfa.Sdei
