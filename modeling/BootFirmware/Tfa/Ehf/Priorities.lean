import BootFirmware.Lib.BitStack

/-
  The priority levels that EL3 exception handling activates
  and deactivates by hand.

  The levels of a PE are kept as a bitmap.  Activating one
  programs the interrupt controller's priority mask; the
  last deactivation gives back the mask that was in force
  before.  A deactivation that leaves another level active
  should program the mask of that level and programs its
  own again.

  Key definitions include:
    * `ExceptionData` and `State`
    * `State.ehfActivatePriority`
    * `State.ehfDeactivatePriority`
    * `WellNested` and `Fits`
    * `Tracks`

  The main results are:
    * `Stacked.step` and `Stacked.step_of_not_fits`
    * `ehf_priority_mask`
    * `ehf_nested_deactivation_keeps_mask`
-/

----
-- Priorities
----

namespace Tfa.Ehf

open List

/-
  `exception_data`: `valid` holds of the descriptors that
  are marked `_EHF_PRI_VALID`.  `ehf_init` asserts that a
  bitmap of 32 levels is enough.
-/
structure ExceptionData where
  numPriorities : Nat
  priBits : Nat
  valid : Nat → Bool
  num_le : numPriorities ≤ 32
  priBits_le : priBits ≤ 7

namespace ExceptionData

/- `EHF_PRI_TO_IDX`. -/
def ehfPriToIdx (d : ExceptionData) (pri : Nat) : Nat :=
  (pri &&& 0x7f) >>> (7 - d.priBits)

/- `pri_to_idx`; `none` when one of its assertions fails. -/
def priToIdx (d : ExceptionData) (pri : Nat) : Option Nat :=
  let idx := d.ehfPriToIdx pri
  if idx < d.numPriorities ∧ d.valid idx = true then
    some idx
  else
    none

theorem priToIdx_eq_some {d : ExceptionData} {pri idx : Nat} (hIdx : d.priToIdx pri = some idx) :
    idx = d.ehfPriToIdx pri ∧ idx < 32 := by
  unfold priToIdx at hIdx
  dsimp only at hIdx
  split at hIdx
  · have hLe := d.num_le
    cases hIdx
    exact ⟨rfl, by omega⟩
  · cases hIdx

end ExceptionData

/-
  `pe_exc_data_t` of a PE, and the priority mask of its
  interrupt controller interface.
-/
structure State where
  activePriBits : Nat
  initPriMask : UInt8
  pmr : UInt8
  deriving DecidableEq

/- Why a call does not return. -/
inductive Panic where
  | runningPriority
  | invalidPriority
  | activationMismatch
  | aboveMask
  | deactivationMismatch
  | belowMask
  deriving DecidableEq

namespace State

/- `get_pe_highest_active_idx`. -/
def getPeHighestActiveIdx (s : State) : Option Nat :=
  BitStack.lowest 32 s.activePriBits

/- `plat_ic_set_priority_mask`, with the old mask. -/
def setPriorityMask (s : State)
    (mask : Nat) : State × Nat :=
  ({ s with pmr := UInt8.ofNat mask }, s.pmr.toNat)

/- `ehf_activate_priority`. -/
def ehfActivatePriority (d : ExceptionData) (runPri : Nat) (s : State)
    (priority : Nat) : Except Panic State :=
  if priority ≥ runPri then
    .error .runningPriority
  else
    let curPriIdx := s.getPeHighestActiveIdx
    match d.priToIdx priority with
    | none => .error .invalidPriority
    | some idx =>
      if curPriIdx.any (fun cur => decide (idx ≥ cur)) then
        .error .activationMismatch
      else
        let s :=
          { s with
            activePriBits := s.activePriBits ||| 1 <<< idx }
        let (s, oldMask) := s.setPriorityMask priority
        if priority ≥ oldMask then
          .error .aboveMask
        else if curPriIdx = none then
          .ok { s with initPriMask := UInt8.ofNat oldMask }
        else
          .ok s

/- `ehf_deactivate_priority`. -/
def ehfDeactivatePriority (d : ExceptionData) (runPri : Nat) (s : State)
    (priority : Nat) : Except Panic State :=
  if priority ≥ runPri then
    .error .runningPriority
  else
    let curPriIdx := s.getPeHighestActiveIdx
    match d.priToIdx priority with
    | none => .error .invalidPriority
    | some idx =>
      if curPriIdx ≠ some idx then
        .error .deactivationMismatch
      else
        let s :=
          { s with
            activePriBits := s.activePriBits &&& (s.activePriBits - 1) }
        let (s, oldMask) :=
          if s.getPeHighestActiveIdx = none then
            s.setPriorityMask s.initPriMask.toNat
          else
            s.setPriorityMask priority
        if oldMask > priority then
          .error .belowMask
        else
          .ok s

end State

----
-- Nested Calls
----

inductive Call where
  | activate (priority : Nat)
  | deactivate (priority : Nat)
  deriving DecidableEq

/- One call, with the running priority of the controller. -/
def State.step (d : ExceptionData) (runPri : Nat)
    (s : State) : Call → Except Panic State
  | .activate priority => s.ehfActivatePriority d runPri priority
  | .deactivate priority => s.ehfDeactivatePriority d runPri priority

def State.run (d : ExceptionData) (runPri : Nat) :
    List Call → State → Except Panic State
  | [], s => .ok s
  | c :: rest, s =>
    match s.step d runPri c with
    | .error panic => .error panic
    | .ok s => State.run d runPri rest s

/- The priorities active after a call, the last one first. -/
def activeAfter (active : List Nat) : Call → List Nat
  | .activate priority => priority :: active
  | .deactivate _ => active.tail

/-
  Each activation is of a higher priority than the running
  one, the initial mask and all active ones, and each
  deactivation is of the last one activated.
-/
def WellNested (runPri : Nat) (initMask : Nat) :
    List Nat → List Call → Prop
  | _, [] => True
  | active, .activate priority :: rest =>
    (priority < runPri ∧ priority < initMask ∧ ∀ q ∈ active, priority < q) ∧
    WellNested runPri initMask (priority :: active) rest
  | active, .deactivate priority :: rest =>
    active.head? = some priority ∧ WellNested runPri initMask active.tail rest

/-
  Each activated priority has a descriptor, below that of
  the active level if there is one, and each deactivation
  is of the only active level.
-/
def Fits (d : ExceptionData) :
    List Nat → List Call → Prop
  | _, [] => True
  | active, .activate priority :: rest =>
    (d.priToIdx priority ≠ none ∧ ∀ q ∈ active.head?, d.ehfPriToIdx priority < d.ehfPriToIdx q) ∧
    Fits d (priority :: active) rest
  | active, .deactivate _ :: rest => active.length < 2 ∧ Fits d active.tail rest

/-
  No call panics, and the mask at the end is that of the
  highest active level, or the initial one.
-/
def Tracks (d : ExceptionData) (runPri : Nat) (s : State)
    (calls : List Call) : Prop :=
  ∃ s', s.run d runPri calls = .ok s' ∧
    s'.pmr.toNat = (calls.foldl activeAfter []).headD s.pmr.toNat

----
-- The Bitmap As A Stack
----

/-
  The state after well nested calls that fit: the bitmap is
  that of the active levels, and the mask is the top's.
-/
structure Stacked
    (d : ExceptionData) (runPri : Nat) (initMask : Nat) (active : List Nat)
    (s : State) : Prop where
  bits : s.activePriBits = BitStack.bitmap (active.map d.ehfPriToIdx)
  ascending : BitStack.Ascending (active.map d.ehfPriToIdx)
  valid : ∀ q ∈ active, d.priToIdx q = some (d.ehfPriToIdx q)
  bounded : ∀ q ∈ active, q < runPri ∧ q < initMask
  nested : active.Pairwise (· < ·)
  mask : s.pmr.toNat = active.headD initMask
  saved : active ≠ [] → s.initPriMask.toNat = initMask
  initMask_lt : initMask < 256

namespace Stacked

variable {d : ExceptionData} {runPri initMask : Nat}
variable {active : List Nat} {s : State}

theorem start (s : State) (hIdle : s.activePriBits = 0) :
    Stacked d runPri s.pmr.toNat [] s where
  bits := hIdle
  ascending := List.Pairwise.nil
  valid := fun _ hMem => absurd hMem not_mem_nil
  bounded := fun _ hMem => absurd hMem not_mem_nil
  nested := List.Pairwise.nil
  mask := rfl
  saved := fun hNe => absurd rfl hNe
  initMask_lt := s.pmr.toNat_lt

theorem highest_nil (hSt : Stacked d runPri initMask [] s) :
    s.getPeHighestActiveIdx = none := by
  unfold State.getPeHighestActiveIdx
  rw [hSt.bits]
  exact BitStack.lowest_bitmap_nil 32

variable {q : Nat}

theorem highest_cons (hSt : Stacked d runPri initMask (q :: active) s) :
    s.getPeHighestActiveIdx = some (d.ehfPriToIdx q) := by
  unfold State.getPeHighestActiveIdx
  rw [hSt.bits]
  exact BitStack.lowest_bitmap hSt.ascending
    (ExceptionData.priToIdx_eq_some (hSt.valid q mem_cons_self)).2

/- The levels left when the last one is taken off. -/
theorem tail {s' : State} (hSt : Stacked d runPri initMask (q :: active) s)
    (hBits : s'.activePriBits = BitStack.bitmap (active.map d.ehfPriToIdx))
    (hMask : s'.pmr.toNat = active.headD initMask) (hSaved : s'.initPriMask = s.initPriMask) :
    Stacked d runPri initMask active s' where
  bits := hBits
  ascending := (pairwise_cons.mp hSt.ascending).2
  valid := fun r hr => hSt.valid r (mem_cons_of_mem q hr)
  bounded := fun r hr => hSt.bounded r (mem_cons_of_mem q hr)
  nested := (pairwise_cons.mp hSt.nested).2
  mask := hMask
  saved := fun _ => by
    rw [hSaved]
    exact hSt.saved (cons_ne_nil q active)
  initMask_lt := hSt.initMask_lt

/- What a deactivation does to the last level activated. -/
theorem deactivate_eq (hSt : Stacked d runPri initMask (q :: active) s) :
    s.ehfDeactivatePriority d runPri q = .ok
        { s with
          activePriBits := BitStack.bitmap (active.map d.ehfPriToIdx)
          pmr :=
            if active = [] then s.initPriMask
            else UInt8.ofNat q } := by
  have hRun := (hSt.bounded q mem_cons_self).1
  have hPop :
      s.activePriBits &&& (s.activePriBits - 1) = BitStack.bitmap (active.map d.ehfPriToIdx) := by
    rw [hSt.bits]
    exact BitStack.bitmap_pop hSt.ascending
  have hMask : s.pmr.toNat = q := hSt.mask
  unfold State.ehfDeactivatePriority
  rw [if_neg (Nat.not_le.mpr hRun), hSt.valid q mem_cons_self]
  dsimp only
  rw [if_neg (not_not.mpr hSt.highest_cons), hPop]
  cases active with
  | nil => simp [State.getPeHighestActiveIdx, State.setPriorityMask, hMask]
  | cons r rest =>
    have hAsc := (pairwise_cons.mp hSt.ascending).2
    have hNext :
        BitStack.lowest 32 (BitStack.bitmap ((r :: rest).map d.ehfPriToIdx)) =
          some (d.ehfPriToIdx r) :=
      BitStack.lowest_bitmap hAsc (ExceptionData.priToIdx_eq_some (hSt.valid r (by simp))).2
    rw [map_cons] at hNext
    simp [State.getPeHighestActiveIdx, hNext, State.setPriorityMask, hMask]

section

variable (hSt : Stacked d runPri initMask active s)
include hSt

theorem activate {priority : Nat}
    (hRun : priority < runPri) (hInit : priority < initMask) (hAbove : ∀ q ∈ active, priority < q)
    (hValid : d.priToIdx priority ≠ none)
    (hIdx : ∀ q ∈ active.head?, d.ehfPriToIdx priority < d.ehfPriToIdx q) :
    ∃ s', s.ehfActivatePriority d runPri priority = .ok s' ∧
      Stacked d runPri initMask (priority :: active) s' := by
  rcases Option.ne_none_iff_exists'.mp hValid with ⟨idx, hSome⟩
  rcases ExceptionData.priToIdx_eq_some hSome with ⟨rfl, _⟩
  have hByte : priority < 256 := by
    have hLt := hSt.initMask_lt
    omega
  have hMask : priority < s.pmr.toNat := by
    rw [hSt.mask]
    cases active with
    | nil => exact hInit
    | cons q rest => exact hAbove q mem_cons_self
  have hAsc : BitStack.Ascending ((priority :: active).map d.ehfPriToIdx) := by
    refine pairwise_cons.mpr ⟨?_, hSt.ascending⟩
    cases active with
    | nil => exact fun _ hMem => absurd hMem not_mem_nil
    | cons q rest =>
      have hTop := hIdx q rfl
      intro i hi
      rcases mem_cons.mp hi with rfl | hRest
      · exact hTop
      · exact Nat.lt_trans hTop ((pairwise_cons.mp hSt.ascending).1 i hRest)
  have hPush :
      s.activePriBits ||| 1 <<< d.ehfPriToIdx priority =
        BitStack.bitmap ((priority :: active).map d.ehfPriToIdx) := by
    rw [hSt.bits]
    exact BitStack.bitmap_push hAsc
  have hBelowTop :
      s.getPeHighestActiveIdx.any
        (fun cur => decide (d.ehfPriToIdx priority ≥ cur)) = false := by
    cases active with
    | nil => rw [hSt.highest_nil, Option.any_none]
    | cons q rest =>
      rw [hSt.highest_cons, Option.any_some]
      exact decide_eq_false (Nat.not_le.mpr (hIdx q rfl))
  have hFirst : s.getPeHighestActiveIdx = none ↔ active = [] := by
    cases active with
    | nil => simp [hSt.highest_nil]
    | cons q rest => simp [hSt.highest_cons]
  let s' : State :=
    { activePriBits :=
        BitStack.bitmap ((priority :: active).map d.ehfPriToIdx)
      initPriMask :=
        if active = [] then s.pmr else s.initPriMask
      pmr := UInt8.ofNat priority }
  refine ⟨s', ?_, ?_⟩
  · unfold State.ehfActivatePriority
    rw [if_neg (Nat.not_le.mpr hRun), hSome]
    dsimp only
    rw [hBelowTop, hPush]
    by_cases hNil : active = []
    · simp [State.setPriorityMask, Nat.not_le.mpr hMask, hFirst, hNil, s']
    · simp [State.setPriorityMask, Nat.not_le.mpr hMask, hFirst, hNil, s']
  · exact {
      bits := rfl
      ascending := hAsc
      valid := by
        intro q hq
        rcases mem_cons.mp hq with rfl | hOld
        · exact hSome
        · exact hSt.valid q hOld
      bounded := by
        intro q hq
        rcases mem_cons.mp hq with rfl | hOld
        · exact ⟨hRun, hInit⟩
        · exact hSt.bounded q hOld
      nested := pairwise_cons.mpr ⟨hAbove, hSt.nested⟩
      mask := UInt8.toNat_ofNat_of_lt' hByte
      saved := by
        intro _
        by_cases hNil : active = []
        · have hStart : s.pmr.toNat = initMask := by
            rw [hSt.mask, hNil]
            rfl
          simpa [s', hNil] using hStart
        · simpa [s', hNil] using hSt.saved hNil
      initMask_lt := hSt.initMask_lt }

variable {rest : List Call}

/-
  A call that fits keeps the stack and programs the mask of
  its top.
-/
theorem step {c : Call}
    (hNested : WellNested runPri initMask active (c :: rest)) (hFits : Fits d active [c]) :
    ∃ s', s.step d runPri c = .ok s' ∧ Stacked d runPri initMask (activeAfter active c) s' := by
  cases c with
  | activate priority =>
    rcases hNested.1 with ⟨hRun, hInit, hAbove⟩
    rcases hFits.1 with ⟨hValid, hIdx⟩
    exact hSt.activate hRun hInit hAbove hValid hIdx
  | deactivate priority =>
    cases active with
    | nil => cases hNested.1
    | cons q below =>
      have hTop : q = priority := Option.some.inj hNested.1
      have hNil : below = [] := by
        have hShort := hFits.1
        rw [length_cons] at hShort
        exact length_eq_zero_iff.mp (by omega)
      subst hTop hNil
      refine ⟨_, hSt.deactivate_eq, hSt.tail rfl ?_ rfl⟩
      exact hSt.saved (cons_ne_nil q [])

/-
  A call that does not fit panics, or leaves another mask
  than that of the highest active level.
-/
theorem step_of_not_fits {c : Call}
    (hNested : WellNested runPri initMask active (c :: rest)) (hBad : ¬ Fits d active [c])
    {s' : State} (hStep : s.step d runPri c = .ok s') :
    s'.pmr.toNat ≠ (activeAfter active c).headD initMask := by
  cases c with
  | activate priority =>
    exfalso
    apply hBad
    refine ⟨⟨?_, ?_⟩, trivial⟩
    · intro hNone
      simp only [State.step, State.ehfActivatePriority, hNone] at hStep
      split at hStep <;> cases hStep
    · intro q hq
      cases active with
      | nil => cases hq
      | cons r below =>
        cases hq
        simp only [State.step, State.ehfActivatePriority, hSt.highest_cons] at hStep
        split at hStep
        · cases hStep
        split at hStep
        · cases hStep
        rename_i hIdx
        rw [(ExceptionData.priToIdx_eq_some hIdx).1] at hStep
        split at hStep
        · cases hStep
        rename_i hBelow
        simpa using hBelow
  | deactivate priority =>
    cases active with
    | nil => cases hNested.1
    | cons q below =>
      have hTop : q = priority := Option.some.inj hNested.1
      rw [State.step, ← hTop, hSt.deactivate_eq] at hStep
      cases below with
      | nil => exact absurd ⟨by simp, trivial⟩ hBad
      | cons r lower =>
        have hByte : q < 256 := by
          have hLt := hSt.initMask_lt
          have hLe := hSt.bounded q mem_cons_self
          omega
        have hAbove : q < r := (pairwise_cons.mp hSt.nested).1 r mem_cons_self
        cases hStep
        have hMask : (UInt8.ofNat q).toNat = q := UInt8.toNat_ofNat_of_lt' hByte
        simpa [activeAfter, hMask] using Nat.ne_of_lt hAbove

end

end Stacked

----
-- Whole Sequences
----

variable {active : List Nat} {d : ExceptionData}

theorem fits_cons {c : Call} {rest : List Call} :
    Fits d active (c :: rest) ↔ Fits d active [c] ∧ Fits d (activeAfter active c) rest := by
  cases c <;> simp [Fits, activeAfter, and_assoc]

variable {runPri initMask : Nat}

theorem wellNested_tail
    {c : Call} {rest : List Call} (hNested : WellNested runPri initMask active (c :: rest)) :
    WellNested runPri initMask (activeAfter active c) rest := by
  cases c <;> exact hNested.2

/- The masks after all prefixes of the calls to come. -/
theorem masks_iff_fits {calls : List Call} {s : State}
    (hSt : Stacked d runPri initMask active s) (hNested : WellNested runPri initMask active calls) :
    (∀ pre, pre <+: calls → ∃ s', s.run d runPri pre = .ok s' ∧
        s'.pmr.toNat = (pre.foldl activeAfter active).headD initMask) ↔
      Fits d active calls := by
  induction calls generalizing active s with
  | nil =>
    refine ⟨fun _ => trivial, ?_⟩
    intro _ pre hPre
    rw [prefix_nil.mp hPre]
    exact ⟨s, rfl, hSt.mask⟩
  | cons c rest ih =>
    rw [fits_cons]
    constructor
    · intro hAll
      rcases hAll [c] (prefix_append [c] rest) with ⟨s₁, hRun, hMask⟩
      have hStep : s.step d runPri c = .ok s₁ := by
        unfold State.run at hRun
        split at hRun
        · cases hRun
        · rename_i hStep
          cases hRun
          exact hStep
      have hFits : Fits d active [c] := by
        by_contra hBad
        exact hSt.step_of_not_fits hNested hBad hStep hMask
      rcases hSt.step hNested hFits with ⟨s₂, hStep', hSt'⟩
      rw [hStep] at hStep'
      cases hStep'
      refine ⟨hFits, (ih hSt' (wellNested_tail hNested)).mp ?_⟩
      intro pre hPre
      rcases hAll (c :: pre) ((prefix_cons_inj c).mpr hPre) with ⟨s', hRun', hMask'⟩
      rw [State.run, hStep] at hRun'
      exact ⟨s', hRun', hMask'⟩
    · rintro ⟨hFits, hRest⟩ pre hPre
      cases pre with
      | nil => exact ⟨s, rfl, hSt.mask⟩
      | cons c' pre =>
        rcases cons_prefix_cons.mp hPre with ⟨rfl, hPre'⟩
        rcases hSt.step hNested hFits with ⟨s', hStep, hSt'⟩
        rw [State.run, hStep]
        exact (ih hSt' (wellNested_tail hNested)).mpr hRest pre hPre'

/-
  On a PE without active levels, well nested calls never
  panic and always leave the mask of the highest active
  level exactly when each activated priority has a
  descriptor below that of the active level, and no call
  deactivates a level while another one is active.
-/
theorem ehf_priority_mask
    (d : ExceptionData) (runPri : Nat) (s : State) (calls : List Call) (hIdle : s.activePriBits = 0)
    (hNested : WellNested runPri s.pmr.toNat [] calls) :
    (∀ pre, pre <+: calls → Tracks d runPri s pre) ↔ Fits d [] calls :=
  masks_iff_fits (Stacked.start s hIdle) hNested

/- Eight levels: the top three bits below bit 7. -/
def eightLevels : ExceptionData where
  numPriorities := 8
  priBits := 3
  valid := fun _ => true
  num_le := by decide
  priBits_le := by decide

/- No level is active, and no interrupt is masked. -/
def allOpen : State where
  activePriBits := 0
  initPriMask := 0
  pmr := 0xf8

/- Two nested levels, as they are activated. -/
theorem ehf_priority_mask_nested_once :
    Tracks eightLevels 0xff allOpen [.activate 0x40] ∧
      Tracks eightLevels 0xff allOpen [.activate 0x40, .activate 0x20] := by
  have hTracks :=
    (ehf_priority_mask eightLevels 0xff allOpen [.activate 0x40, .activate 0x20] rfl
      (by simp [WellNested, allOpen])).mpr
        (by
          simp [Fits, eightLevels, ExceptionData.priToIdx, ExceptionData.ehfPriToIdx])
  exact ⟨hTracks _ (prefix_append [Call.activate 0x40] _), hTracks _ (prefix_refl _)⟩

/-
  After two nested activations the first deactivation leaves
  its own mask in force, and an activation in between then
  panics.
-/
theorem ehf_nested_deactivation_keeps_mask :
    WellNested 0xff allOpen.pmr.toNat []
        [.activate 0x40, .activate 0x20, .deactivate 0x20, .activate 0x30] ∧
      ((allOpen.run eightLevels 0xff
        [.activate 0x40, .activate 0x20, .deactivate 0x20]).map fun s => s.pmr.toNat) = .ok 0x20 ∧
      [Call.activate 0x40, .activate 0x20, .deactivate 0x20].foldl activeAfter [] = [0x40] ∧
      allOpen.run eightLevels 0xff
        [.activate 0x40, .activate 0x20, .deactivate 0x20, .activate 0x30] = .error .aboveMask := by
  refine ⟨?_, by decide, by decide, by decide⟩
  simp [WellNested, allOpen]

end Tfa.Ehf
