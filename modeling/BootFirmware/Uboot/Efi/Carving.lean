import BootFirmware.Uboot.Efi.MemoryMap

/-
  Carving any range out of the memory map: one whose start is
  no multiple of the page size, or one whose end wraps.

  Each entry the range meets is trimmed, split or freed, and
  no step gives an address to an entry that had none.  In
  whole pages an unaligned cut loses the page it goes through.

  Key definitions include:
    * `EfiMemDesc.stop` and `Meets`
    * `Clears`, `Frees` and `credits`
    * `LoopEnds`

  The main results are:
    * `carveLoop_settles`
    * `carveLoop_loses_page`
    * `carveLoop_wrapped`
-/

----
-- Any Range
----

namespace Uboot.Efi

open List

/- The end of a descriptor, as the code computes it. -/
def EfiMemDesc.stop (d : EfiMemDesc) : Nat :=
  endOf d.physicalStart d.numPages

/- The test for an overlap in `efi_mem_carve_out`. -/
def Meets (carve d : EfiMemDesc) : Prop :=
  d.physicalStart < carve.stop ∧ carve.physicalStart < d.stop

instance (carve d : EfiMemDesc) : Decidable (Meets carve d) :=
  inferInstanceAs (Decidable (_ ∧ _))

/- The part of `d` from the start of the range on. -/
def splitOff (carve d : EfiMemDesc) : EfiMemDesc :=
  { d with
    physicalStart := carve.physicalStart
    numPages := (d.stop - carve.physicalStart) / efiPageSize }

/- The part of `d` that a split leaves below the range. -/
def leftBelow (carve d : EfiMemDesc) : EfiMemDesc :=
  { d with
    numPages := (carve.physicalStart - d.physicalStart) / efiPageSize }

/- What trimming leaves of an entry. -/
def trimmed (carve d : EfiMemDesc) : List EfiMemDesc :=
  if d.stop ≤ carve.stop then []
  else
    [{ d with
      physicalStart := carve.stop
      numPages := (d.stop - carve.stop) / efiPageSize }]

/- The part of an entry that is trimmed in the end. -/
def taken (carve d : EfiMemDesc) : EfiMemDesc :=
  if carve.physicalStart ≤ d.physicalStart then d
  else splitOff carve d

/- The pages that trimming reports, as an `int`. -/
def reported (carve d : EfiMemDesc) : Int :=
  toInt ((min carve.stop d.stop - d.physicalStart) / efiPageSize)

/- What an entry adds to the count of carved pages. -/
def credit (carve d : EfiMemDesc) : Int :=
  if ¬ Meets carve d ∨ reported carve (taken carve d) = efiCarveNoOverlap ∨
      reported carve (taken carve d) = efiCarveLoopAgain then
    0
  else
    reported carve (taken carve d)

/- What the entries add together. -/
def credits (carve : EfiMemDesc) : List EfiMemDesc → Int
  | [] => 0
  | d :: rest => credit carve d + credits carve rest

/- The loop does not give up at this entry. -/
def Clears (carve d : EfiMemDesc) : Prop :=
  Meets carve d →
    d.type = efiConventionalMemory ∧ reported carve (taken carve d) ≠ efiCarveOverlapsNonram

/- The loop frees this entry and goes on from it. -/
def Frees (carve d : EfiMemDesc) : Prop :=
  Meets carve d ∧ reported carve (taken carve d) = efiCarveNoOverlap ∧
    (taken carve d).stop ≤ carve.stop

instance (carve d : EfiMemDesc) : Decidable (Clears carve d) :=
  inferInstanceAs (Decidable (_ → _))

instance (carve d : EfiMemDesc) : Decidable (Frees carve d) :=
  inferInstanceAs (Decidable (_ ∧ _))

/- An address lies in some entry of a list. -/
def Covers (mem : List EfiMemDesc) (x : Nat) : Prop :=
  ∃ d ∈ mem, d.toRange.Has x

theorem stop_eq {d : EfiMemDesc} (hTop : d.toRange.hi < 2 ^ 64) :
    d.stop = d.toRange.hi := by
  unfold EfiMemDesc.toRange at hTop ⊢
  unfold EfiMemDesc.stop endOf u64
  dsimp only at hTop ⊢
  rw [Nat.mod_eq_of_lt (show d.numPages * efiPageSize < 2 ^ 64 by omega), Nat.mod_eq_of_lt hTop]

theorem covers_append {mem mem' : List EfiMemDesc} {x : Nat} :
    Covers (mem ++ mem') x ↔ Covers mem x ∨ Covers mem' x := by
  unfold Covers
  simp only [mem_append, or_and_right, exists_or]

variable {mem : List EfiMemDesc}

theorem covers_cons {d : EfiMemDesc} {x : Nat} :
    Covers (d :: mem) x ↔ d.toRange.Has x ∨ Covers mem x := by
  unfold Covers
  simp only [mem_cons, exists_eq_or_imp]

theorem not_covers_nil (x : Nat) :
    ¬ Covers [] x := by
  rintro ⟨d, hd, -⟩
  cases hd

theorem pageType_eq_none_iff {page : Nat} :
    pageType mem page = none ↔ ¬ Covers mem (page * efiPageSize) := by
  unfold pageType RangeMap.value Covers
  rw [Option.map_eq_none_iff, find?_eq_none]
  constructor
  · rintro hNone ⟨d, hd, hHas⟩
    exact hNone d.toRange (mem_map_of_mem hd) (decide_eq_true hHas)
  · rintro hNone r hr hHas
    rcases mem_map.mp hr with ⟨d, hd, rfl⟩
    exact hNone ⟨d, hd, of_decide_eq_true hHas⟩

----
-- Pieces of an Entry
----

section Pieces

variable {carve d e : EfiMemDesc}

/- A part of an entry, in whole pages from its start on. -/
theorem hi_piece_le {start stop : Nat} (hLe : start ≤ stop) :
    start + (stop - start) / efiPageSize * efiPageSize ≤ stop := by
  have hPages := Nat.div_mul_le_self (stop - start) efiPageSize
  omega

section

variable (hTop : d.toRange.hi < 2 ^ 64)
include hTop

theorem trimmed_facts (hStart : d.physicalStart < carve.stop) (he : e ∈ trimmed carve d) :
    e.toRange.hi < 2 ^ 64 ∧ ¬ Meets carve e ∧
      ∀ x, e.toRange.Has x → carve.stop ≤ x ∧ d.toRange.Has x := by
  unfold trimmed at he
  split at he
  · cases he
  · rename_i hAbove
    rw [mem_singleton] at he
    subst he
    have hLe := hi_piece_le (Nat.le_of_lt (Nat.not_le.mp hAbove))
    rw [stop_eq hTop] at hLe ⊢
    refine ⟨Nat.lt_of_le_of_lt hLe hTop, ?_, ?_⟩
    · exact fun hMeets => Nat.lt_irrefl _ hMeets.1
    · rintro x ⟨hLo, hHi⟩
      exact ⟨hLo, Nat.le_of_lt (Nat.lt_of_lt_of_le hStart hLo), Nat.lt_of_lt_of_le hHi hLe⟩

theorem splitOff_facts (hMeets : Meets carve d) (hStart : d.physicalStart < carve.physicalStart) :
    (splitOff carve d).toRange.hi < 2 ^ 64 ∧
      ∀ x, (splitOff carve d).toRange.Has x → carve.physicalStart ≤ x ∧ d.toRange.Has x := by
  have hLe := hi_piece_le (Nat.le_of_lt hMeets.2)
  unfold splitOff
  rw [stop_eq hTop] at hLe ⊢
  refine ⟨Nat.lt_of_le_of_lt hLe hTop, ?_⟩
  rintro x ⟨hLo, hHi⟩
  exact ⟨hLo, Nat.le_of_lt (Nat.lt_of_lt_of_le hStart hLo), Nat.lt_of_lt_of_le hHi hLe⟩

theorem leftBelow_facts (hMeets : Meets carve d) (hStart : d.physicalStart < carve.physicalStart) :
    (leftBelow carve d).toRange.hi ≤ carve.physicalStart ∧ ¬ Meets carve (leftBelow carve d) ∧
      ∀ x, (leftBelow carve d).toRange.Has x → x < carve.physicalStart ∧ d.toRange.Has x := by
  have hLe : (leftBelow carve d).toRange.hi ≤ carve.physicalStart :=
    hi_piece_le (Nat.le_of_lt hStart)
  have hEnd : carve.physicalStart < d.toRange.hi := by
    rw [← stop_eq hTop]
    exact hMeets.2
  refine ⟨hLe, ?_, ?_⟩
  · intro hMeets'
    have hIn := hMeets'.2
    rw [stop_eq (by omega)] at hIn
    omega
  · rintro x ⟨hLo, hHi⟩
    have hBelow := Nat.lt_of_lt_of_le hHi hLe
    exact ⟨hBelow, hLo, Nat.lt_trans hBelow hEnd⟩

end

end Pieces

----
-- One Step of the Loop
----

section Steps

variable {carve d : EfiMemDesc} {pre rest mem mem' : List EfiMemDesc} {k : Nat} {r : Outcome × Nat}

theorem efiMemCarveOut_not_meets (hApart : ¬ Meets carve d) (ram : Bool) :
    efiMemCarveOut d carve ram = ([d], efiCarveNoOverlap) := by
  unfold Meets at hApart
  refine if_pos ?_
  change carve.stop ≤ d.physicalStart ∨ carve.physicalStart ≥ d.stop
  omega

section

variable (hMeets : Meets carve d)
include hMeets

theorem Meets.not_apart :
    ¬ (endOf carve.physicalStart carve.numPages ≤ d.physicalStart ∨
      carve.physicalStart ≥ endOf d.physicalStart d.numPages) := by
  unfold Meets EfiMemDesc.stop at hMeets
  omega

theorem efiMemCarveOut_nonram (hType : d.type ≠ efiConventionalMemory) :
    efiMemCarveOut d carve true = ([d], efiCarveOverlapsNonram) := by
  unfold efiMemCarveOut
  rw [if_neg hMeets.not_apart, if_pos ⟨rfl, hType⟩]

theorem efiMemCarveOut_trimmed
    (hType : d.type = efiConventionalMemory) (hStart : carve.physicalStart ≤ d.physicalStart) :
    efiMemCarveOut d carve true = (trimmed carve d, reported carve d) := by
  unfold efiMemCarveOut
  rw [if_neg hMeets.not_apart, if_neg fun h => h.2 hType, Nat.max_eq_right hStart, if_pos rfl]
  change (if d.stop = min carve.stop d.stop then []
    else
      [{ d with
        physicalStart := min carve.stop d.stop
        numPages := (d.stop - min carve.stop d.stop) / efiPageSize }],
    reported carve d) = _
  refine Prod.ext ?_ rfl
  unfold trimmed
  by_cases hTop : d.stop ≤ carve.stop
  · rw [if_pos hTop, Nat.min_eq_right hTop, if_pos rfl]
  · rw [if_neg hTop, Nat.min_eq_left (Nat.le_of_not_le hTop), if_neg (by omega)]

theorem efiMemCarveOut_split
    (hType : d.type = efiConventionalMemory) (hStart : d.physicalStart < carve.physicalStart) :
    efiMemCarveOut d carve true = ([splitOff carve d, leftBelow carve d], efiCarveLoopAgain) := by
  unfold efiMemCarveOut
  rw [if_neg hMeets.not_apart, if_neg fun h => h.2 hType, Nat.max_eq_left (Nat.le_of_lt hStart),
    if_neg (Nat.ne_of_gt hStart)]
  rfl

end

theorem Pass.under_under (p : Pass) :
    (p.under mem).under pre = p.under (pre ++ mem) := by
  cases p <;> simp [Pass.under]

/- A walk passes over entries the range does not meet. -/
theorem carvePass_append (hPre : ∀ e ∈ pre, ¬ Meets carve e) :
    carvePass carve true (pre ++ mem) = (carvePass carve true mem).under pre := by
  induction pre with
  | nil => cases h : carvePass carve true mem <;> simp [h, Pass.under]
  | cons e pre ih =>
    have hRest := ih fun f hf => hPre f (mem_cons_of_mem e hf)
    rw [cons_append, carvePass, efiMemCarveOut_not_meets (hPre e mem_cons_self)]
    dsimp only
    rw [if_neg (by decide), if_pos rfl, if_neg (cons_ne_nil _ _), hRest, Pass.under_under]
    rfl

/- The loop ends in this way, within some bound. -/
def LoopEnds (carve : EfiMemDesc) (mem : List EfiMemDesc) (k : Nat)
    (r : Outcome × Nat) : Prop :=
  ∃ walks, carveLoop carve true walks mem k = some r

theorem LoopEnds.unique
    {r' : Outcome × Nat} (hEnds : LoopEnds carve mem k r) (hEnds' : LoopEnds carve mem k r') :
    r = r' := by
  rcases hEnds with ⟨walks, hRun⟩
  rcases hEnds' with ⟨walks', hRun'⟩
  have hMore := carveLoop_mono hRun (Nat.le_max_left walks walks')
  rw [carveLoop_mono hRun' (Nat.le_max_right walks walks')] at hMore
  exact (Option.some.inj hMore).symm

theorem LoopEnds.of_again {carved : Int} (hPass : carvePass carve true mem = .again mem' carved)
    (hEnds : LoopEnds carve mem' ((k + carved) % 2 ^ 64).toNat r) :
    LoopEnds carve mem k r := by
  rcases hEnds with ⟨walks, hRun⟩
  refine ⟨walks + 1, ?_⟩
  rw [carveLoop, hPass]
  exact hRun

/- Only the first walk matters, so equal walks end alike. -/
theorem LoopEnds.of_same_pass (hSame : carvePass carve true mem = carvePass carve true mem')
    (hEnds : LoopEnds carve mem' k r) :
    LoopEnds carve mem k r := by
  rcases hEnds with ⟨walks, hRun⟩
  cases walks with
  | zero => cases hRun
  | succ walks =>
    refine ⟨walks + 1, ?_⟩
    rw [carveLoop, hSame]
    exact hRun

theorem LoopEnds.of_done (hApart : ∀ e ∈ mem, ¬ Meets carve e) :
    LoopEnds carve mem k (.added mem, k) := by
  refine ⟨1, ?_⟩
  have hPass : carvePass carve true (mem ++ []) = (carvePass carve true []).under mem :=
    carvePass_append hApart
  rw [append_nil] at hPass
  rw [carveLoop, hPass]
  simp [carvePass, Pass.under]

section

variable (hPre : ∀ e ∈ pre, ¬ Meets carve e)
include hPre

theorem LoopEnds.of_nonram (hMeets : Meets carve d) (hType : d.type ≠ efiConventionalMemory) :
    LoopEnds carve (pre ++ d :: rest) k (.failed (pre ++ d :: rest), k) := by
  refine ⟨1, ?_⟩
  rw [carveLoop, carvePass_append hPre, carvePass, efiMemCarveOut_nonram hMeets hType]
  rfl

theorem LoopEnds.of_split (hMeets : Meets carve d) (hType : d.type = efiConventionalMemory)
    (hStart : d.physicalStart < carve.physicalStart) (hk : k < 2 ^ 64)
    (hEnds : LoopEnds carve (pre ++ splitOff carve d :: leftBelow carve d :: rest) k r) :
    LoopEnds carve (pre ++ d :: rest) k r := by
  have hPass :
      carvePass carve true (pre ++ d :: rest) =
        .again (pre ++ splitOff carve d :: leftBelow carve d :: rest) 0 := by
    rw [carvePass_append hPre, carvePass, efiMemCarveOut_split hMeets hType hStart]
    rfl
  have hSame : (((k : Int) + 0) % 2 ^ 64).toNat = k := by omega
  exact LoopEnds.of_again hPass (by rwa [hSame])

/- How the loop goes on from an entry it trims. -/
theorem LoopEnds.of_trimmed (hMeets : Meets carve d) (hType : d.type = efiConventionalMemory)
    (hStart : carve.physicalStart ≤ d.physicalStart)
    (hTop : d.toRange.hi < 2 ^ 64) (hk : k < 2 ^ 64) :
    (reported carve d = efiCarveOverlapsNonram →
      LoopEnds carve (pre ++ d :: rest) k (.failed (pre ++ (trimmed carve d ++ rest)), k)) ∧
    (Frees carve d → LoopEnds carve (pre ++ d :: rest) k (.useAfterFree, k)) ∧
    (Clears carve d → ¬ Frees carve d →
      LoopEnds carve (pre ++ (trimmed carve d ++ rest)) ((k + credit carve d) % 2 ^ 64).toNat r →
      LoopEnds carve (pre ++ d :: rest) k r) := by
  have hTaken : taken carve d = d := if_pos hStart
  have hFirst :
      carvePass carve true (pre ++ d :: rest) = (carvePass carve true (d :: rest)).under pre :=
    carvePass_append hPre
  have hEmpty : trimmed carve d = [] ↔ d.stop ≤ carve.stop := by
    unfold trimmed
    split <;> simp_all
  rw [carvePass, efiMemCarveOut_trimmed hMeets hType hStart] at hFirst
  dsimp only at hFirst
  refine ⟨?_, ?_, ?_⟩
  · intro hNonram
    rw [if_pos hNonram] at hFirst
    exact ⟨1, by rw [carveLoop, hFirst]; rfl⟩
  · rintro ⟨-, hNone, hFreed⟩
    rw [hTaken] at hNone hFreed
    rw [hNone, if_neg (by decide), if_pos rfl, if_pos (hEmpty.mpr hFreed)] at hFirst
    exact ⟨1, by rw [carveLoop, hFirst]; rfl⟩
  · intro hClears hNot hEnds
    have hRam := (hClears hMeets).2
    unfold credit at hEnds
    unfold Frees at hNot
    rw [hTaken] at hRam hEnds hNot
    rw [if_neg hRam] at hFirst
    by_cases hNone : reported carve d = efiCarveNoOverlap
    · -- the walk goes on, as from an entry it never met
      have hKept : trimmed carve d ≠ [] := fun h => hNot ⟨hMeets, hNone, hEmpty.mp h⟩
      rw [if_pos hNone, if_neg hKept, Pass.under_under] at hFirst
      rw [if_pos (Or.inr (Or.inl hNone))] at hEnds
      have hSame : (((k : Int) + 0) % 2 ^ 64).toNat = k := by omega
      rw [hSame] at hEnds
      refine LoopEnds.of_same_pass ?_ hEnds
      rw [hFirst, ← append_assoc]
      refine (carvePass_append ?_).symm
      intro e he
      rcases mem_append.mp he with he | he
      · exact hPre e he
      · exact (trimmed_facts hTop hMeets.1 he).2.1
    · rw [if_neg hNone] at hFirst
      by_cases hAgain : reported carve d = efiCarveLoopAgain
      · rw [if_pos hAgain] at hFirst
        rw [if_pos (Or.inr (Or.inr hAgain))] at hEnds
        exact LoopEnds.of_again hFirst hEnds
      · rw [if_neg hAgain] at hFirst
        rw [if_neg] at hEnds
        · exact LoopEnds.of_again hFirst hEnds
        · simp [hMeets, hNone, hAgain]

end

end Steps

----
-- One Entry, to the End
----

/- What the loop leaves of an entry in free memory. -/
def leftOf (carve d : EfiMemDesc) : List EfiMemDesc :=
  if carve.physicalStart ≤ d.physicalStart then
    trimmed carve d
  else if Meets carve (splitOff carve d) then
    trimmed carve (splitOff carve d) ++ [leftBelow carve d]
  else
    [splitOff carve d, leftBelow carve d]

section Entry

variable {carve d e : EfiMemDesc} {pre rest : List EfiMemDesc} {k : Nat} {r : Outcome × Nat}

theorem taken_splitOff : taken carve (splitOff carve d) = splitOff carve d :=
  if_pos (Nat.le_refl _)

/- Nothing is reported for a part the range does not meet. -/
theorem reported_splitOff (hApart : ¬ Meets carve (splitOff carve d)) :
    reported carve (splitOff carve d) = 0 := by
  have hStart : (splitOff carve d).physicalStart = carve.physicalStart := rfl
  have hZero : min carve.stop (splitOff carve d).stop - (splitOff carve d).physicalStart = 0 := by
    unfold Meets at hApart
    rw [hStart] at hApart ⊢
    omega
  unfold reported
  rw [hZero]
  rfl

theorem leftOf_facts
    (hTop : d.toRange.hi < 2 ^ 64) (hMeets : Meets carve d) (he : e ∈ leftOf carve d) :
    ¬ Meets carve e ∧ ∀ x, e.toRange.Has x → d.toRange.Has x := by
  unfold leftOf at he
  split at he
  · have hFacts := trimmed_facts hTop hMeets.1 he
    exact ⟨hFacts.2.1, fun x hx => (hFacts.2.2 x hx).2⟩
  rename_i hStart
  have hStart := Nat.not_le.mp hStart
  have hOff := splitOff_facts hTop hMeets hStart
  have hBelow := leftBelow_facts hTop hMeets hStart
  split at he
  · rename_i hUpper
    rcases mem_append.mp he with he | he
    · have hFacts := trimmed_facts hOff.1 hUpper.1 he
      exact ⟨hFacts.2.1, fun x hx => (hOff.2 x (hFacts.2.2 x hx).2).2⟩
    · rw [mem_singleton.mp he]
      exact ⟨hBelow.2.1, fun x hx => (hBelow.2.2 x hx).2⟩
  · rename_i hUpper
    rcases mem_cons.mp he with rfl | he
    · exact ⟨hUpper, fun x hx => (hOff.2 x hx).2⟩
    · rw [mem_singleton.mp he]
      exact ⟨hBelow.2.1, fun x hx => (hBelow.2.2 x hx).2⟩

/- How the loop goes on from the first entry it meets. -/
theorem LoopEnds.of_entry (hPre : ∀ e ∈ pre, ¬ Meets carve e) (hMeets : Meets carve d)
    (hType : d.type = efiConventionalMemory) (hTop : d.toRange.hi < 2 ^ 64) (hk : k < 2 ^ 64) :
    (¬ Clears carve d →
      LoopEnds carve (pre ++ d :: rest) k (.failed (pre ++ (leftOf carve d ++ rest)), k)) ∧
    (Frees carve d → LoopEnds carve (pre ++ d :: rest) k (.useAfterFree, k)) ∧
    (Clears carve d → ¬ Frees carve d →
      LoopEnds carve (pre ++ (leftOf carve d ++ rest)) ((k + credit carve d) % 2 ^ 64).toNat r →
      LoopEnds carve (pre ++ d :: rest) k r) := by
  have hStops :
      ¬ Clears carve d ↔ reported carve (taken carve d) = efiCarveOverlapsNonram := by
    unfold Clears
    simp [hMeets, hType]
  rw [hStops]
  by_cases hStart : carve.physicalStart ≤ d.physicalStart
  · have hTaken : taken carve d = d := if_pos hStart
    have hLeft : leftOf carve d = trimmed carve d := if_pos hStart
    rw [hLeft, hTaken]
    exact LoopEnds.of_trimmed hPre hMeets hType hStart hTop hk
  have hTaken : taken carve d = splitOff carve d := if_neg hStart
  have hBelow := Nat.not_le.mp hStart
  have hOff := splitOff_facts hTop hMeets hBelow
  by_cases hUpper : Meets carve (splitOff carve d)
  · have hLeft : leftOf carve d = trimmed carve (splitOff carve d) ++ [leftBelow carve d] := by
      unfold leftOf
      rw [if_neg hStart, if_pos hUpper]
    have hFrees : Frees carve (splitOff carve d) ↔ Frees carve d := by
      unfold Frees
      rw [taken_splitOff, hTaken]
      simp [hMeets, hUpper]
    have hClears : Clears carve (splitOff carve d) ↔ Clears carve d := by
      unfold Clears
      rw [taken_splitOff, hTaken]
      exact ⟨fun h _ => h hUpper, fun h _ => h hMeets⟩
    have hCredit : credit carve (splitOff carve d) = credit carve d := by
      unfold credit
      rw [taken_splitOff, hTaken]
      simp [hMeets, hUpper]
    have hTrim :=
      @LoopEnds.of_trimmed carve (splitOff carve d) pre
        (leftBelow carve d :: rest) k r hPre hUpper hType (Nat.le_refl _) hOff.1 hk
    rw [hFrees, hClears, hCredit] at hTrim
    rw [hLeft, hTaken, append_assoc]
    refine ⟨?_, ?_, ?_⟩
    · exact fun h => LoopEnds.of_split hPre hMeets hType hBelow hk (hTrim.1 h)
    · exact fun h => LoopEnds.of_split hPre hMeets hType hBelow hk (hTrim.2.1 h)
    · exact fun h h' hEnds => LoopEnds.of_split hPre hMeets hType hBelow hk (hTrim.2.2 h h' hEnds)
  · have hZero := reported_splitOff hUpper
    have hLeft : leftOf carve d = [splitOff carve d, leftBelow carve d] := by
      unfold leftOf
      rw [if_neg hStart, if_neg hUpper]
    have hCredit : credit carve d = 0 := by
      unfold credit
      rw [hTaken, hZero]
      split <;> rfl
    refine ⟨?_, ?_, ?_⟩
    · rw [hTaken, hZero]
      exact fun h => absurd h (by decide)
    · rintro ⟨-, hNone, -⟩
      rw [hTaken, hZero] at hNone
      exact absurd hNone (by decide)
    · intro _ _ hEnds
      have hSame : (((k : Int) + 0) % 2 ^ 64).toNat = k := by omega
      rw [hLeft, hCredit, hSame] at hEnds
      exact LoopEnds.of_split hPre hMeets hType hBelow hk hEnds

/-
  A cut through an entry loses the page in which it starts,
  unless it is aligned and the range ends at or before it.
-/
theorem leftOf_loses_page (hFits : d.Fits) (hMeets : Meets carve d)
    (hCut : carve.physicalStart < carve.stop ∨ carve.physicalStart % efiPageSize ≠ 0) :
    ∃ page, d.toRange.Has (page * efiPageSize) ∧
      ¬ Covers (leftOf carve d) (page * efiPageSize) := by
  have hTop := hFits.no_wrap
  have hAligned := hFits.aligned
  have hEnd : carve.physicalStart < d.toRange.hi := by
    rw [← stop_eq hTop]
    exact hMeets.2
  by_cases hStart : carve.physicalStart ≤ d.physicalStart
  · have hPage :
        d.physicalStart / efiPageSize * efiPageSize = d.physicalStart :=
      Nat.div_mul_cancel (Nat.dvd_of_mod_eq_zero hAligned)
    refine ⟨d.physicalStart / efiPageSize, ?_, ?_⟩
    · rw [hPage]
      exact ⟨Nat.le_refl _, hFits.lo_lt_hi⟩
    · rintro ⟨e, he, hHas⟩
      unfold leftOf at he
      rw [if_pos hStart] at he
      have hFar := ((trimmed_facts hTop hMeets.1 he).2.2 _ hHas).1
      have hNear := hMeets.1
      omega
  have hBelow := Nat.not_le.mp hStart
  have hOff := splitOff_facts hTop hMeets hBelow
  have hPage :
      carve.physicalStart / efiPageSize * efiPageSize ≤ carve.physicalStart :=
    Nat.div_mul_le_self _ _
  have hLow : (leftBelow carve d).toRange.hi = carve.physicalStart / efiPageSize * efiPageSize := by
    simp only [EfiMemDesc.toRange, leftBelow, efiPageSize] at hAligned ⊢
    omega
  have hNotBelow :
      ¬ (leftBelow carve d).toRange.Has (carve.physicalStart / efiPageSize * efiPageSize) := by
    rintro ⟨-, hHi⟩
    rw [hLow] at hHi
    exact Nat.lt_irrefl _ hHi
  refine ⟨carve.physicalStart / efiPageSize, ⟨?_, Nat.lt_of_le_of_lt hPage hEnd⟩, ?_⟩
  · simp only [EfiMemDesc.toRange, efiPageSize] at hAligned ⊢
    omega
  rintro ⟨e, he, hHas⟩
  unfold leftOf at he
  rw [if_neg hStart] at he
  split at he
  · rename_i hUpper
    rcases mem_append.mp he with he | he
    · have hFar := ((trimmed_facts hOff.1 hUpper.1 he).2.2 _ hHas).1
      have hOrder := hUpper.1
      change carve.physicalStart < carve.stop at hOrder
      omega
    · rw [mem_singleton.mp he] at hHas
      exact hNotBelow hHas
  · rename_i hUpper
    rcases mem_cons.mp he with rfl | he
    · have hFrom : carve.physicalStart ≤ _ := hHas.1
      have hTo := hHas.2
      have hOrder : carve.physicalStart < carve.stop := by
        refine hCut.resolve_right fun hOdd => ?_
        simp only [efiPageSize] at hFrom hOdd
        omega
      have hShort : (splitOff carve d).stop ≤ carve.physicalStart :=
        Nat.not_lt.mp fun h => hUpper ⟨hOrder, h⟩
      rw [stop_eq hOff.1] at hShort
      omega
    · rw [mem_singleton.mp he] at hHas
      exact hNotBelow hHas

end Entry

----
-- The Whole Loop
----

/-
  How the loop ends, from the entries it comes to; it never
  adds an address to those in `whole`.
-/
def Settled (carve : EfiMemDesc) (whole mem : List EfiMemDesc)
    (k : Nat) : Outcome × Nat → Prop
  | (.useAfterFree, _) =>
    ∃ d ∈ mem.takeWhile fun d => decide (Clears carve d), Frees carve d
  | (.failed mem', _) =>
    (∀ d ∈ mem.takeWhile fun d => decide (Clears carve d), ¬ Frees carve d) ∧
    ¬ (∀ d ∈ mem, Clears carve d) ∧ ∀ x, Covers mem' x → Covers whole x
  | (.added mem', carved) =>
    (∀ d ∈ mem, Clears carve d ∧ ¬ Frees carve d) ∧
    carved = ((k + credits carve mem) % 2 ^ 64).toNat ∧ ∀ x, Covers mem' x → Covers whole x

section Loop

variable {carve d : EfiMemDesc} {pre rest mem whole whole' : List EfiMemDesc} {k : Nat}
  {r : Outcome × Nat}

/- An entry that is cleared, before the others. -/
theorem Settled.cons (hRest : Settled carve whole rest ((k + credit carve d) % 2 ^ 64).toNat r)
    (hClears : Clears carve d) (hKept : ¬ Frees carve d)
    (hWhole : ∀ x, Covers whole x → Covers whole' x) :
    Settled carve whole' (d :: rest) k r := by
  have hTake :
      (d :: rest).takeWhile (fun d => decide (Clears carve d)) =
        d :: rest.takeWhile fun d => decide (Clears carve d) :=
    takeWhile_cons_of_pos (by simpa using hClears)
  rcases r with ⟨outcome, carved⟩
  cases outcome with
  | useAfterFree =>
    rcases hRest with ⟨e, he, hFrees⟩
    refine ⟨e, ?_, hFrees⟩
    rw [hTake]
    exact mem_cons_of_mem d he
  | failed mem' =>
    rcases hRest with ⟨hNone, hSome, hCovers⟩
    refine ⟨?_, ?_, fun x hx => hWhole x (hCovers x hx)⟩
    · rw [hTake]
      exact forall_mem_cons.mpr ⟨hKept, hNone⟩
    · exact fun hAll => hSome fun e he => hAll e (mem_cons_of_mem d he)
  | added mem' =>
    rcases hRest with ⟨hAll, hCarved, hCovers⟩
    refine ⟨forall_mem_cons.mpr ⟨⟨hClears, hKept⟩, hAll⟩, ?_, fun x hx => hWhole x (hCovers x hx)⟩
    rw [hCarved, credits]
    omega

/- The loop ends, and each way of ending has its reason. -/
theorem carveLoop_settles (hFits : ∀ d ∈ mem, d.toRange.hi < 2 ^ 64)
    (hPre : ∀ e ∈ pre, ¬ Meets carve e) (hk : k < 2 ^ 64) :
    ∃ r, LoopEnds carve (pre ++ mem) k r ∧ Settled carve (pre ++ mem) mem k r := by
  induction mem generalizing pre k with
  | nil =>
    rw [append_nil]
    refine ⟨(.added pre, k), LoopEnds.of_done hPre, ?_, ?_, fun x hx => hx⟩
    · exact fun d hd => absurd hd not_mem_nil
    · rw [credits]
      omega
  | cons d rest ih =>
    have hTop := hFits d mem_cons_self
    have hRest := fun e he => hFits e (mem_cons_of_mem d he)
    have hNext : ((k + credit carve d) % 2 ^ 64).toNat < 2 ^ 64 := by omega
    by_cases hMeets : Meets carve d
    swap
    · have hCredit : credit carve d = 0 := if_pos (Or.inl hMeets)
      have hPre' : ∀ e ∈ pre ++ [d], ¬ Meets carve e := by
        intro e he
        rcases mem_append.mp he with he | he
        · exact hPre e he
        · rwa [mem_singleton.mp he]
      rcases ih hRest hPre' hNext with ⟨r, hEnds, hSettled⟩
      rw [append_assoc, singleton_append] at hEnds hSettled
      refine ⟨r, ?_, hSettled.cons (fun h => absurd h hMeets) (fun h => hMeets h.1) fun x hx => hx⟩
      have hSame : ((k + credit carve d) % 2 ^ 64).toNat = k := by
        rw [hCredit]
        omega
      rwa [hSame] at hEnds
    have hLost : ∀ x, Covers (pre ++ (leftOf carve d ++ rest)) x → Covers (pre ++ d :: rest) x := by
      intro x hx
      rw [covers_append, covers_append] at hx
      rw [covers_append, covers_cons]
      rcases hx with hx | ⟨e, he, hHas⟩ | hx
      · exact Or.inl hx
      · exact Or.inr (Or.inl ((leftOf_facts hTop hMeets he).2 x hHas))
      · exact Or.inr (Or.inr hx)
    have hFirst :
        ¬ Clears carve d → (d :: rest).takeWhile (fun d => decide (Clears carve d)) = [] :=
      fun h => takeWhile_cons_of_neg (by simpa using h)
    by_cases hType : d.type = efiConventionalMemory
    swap
    · have hStops : ¬ Clears carve d :=
        fun h => hType (h hMeets).1
      refine ⟨(.failed (pre ++ d :: rest), k), LoopEnds.of_nonram hPre hMeets hType, ?_, ?_,
        fun x hx => hx⟩
      · rw [hFirst hStops]
        exact fun e he => absurd he not_mem_nil
      · exact fun h => hStops (h d mem_cons_self)
    have hEntry := fun r => @LoopEnds.of_entry carve d pre rest k r hPre hMeets hType hTop hk
    by_cases hClears : Clears carve d
    swap
    · refine ⟨_, (hEntry (.useAfterFree, k)).1 hClears, ?_, ?_, hLost⟩
      · rw [hFirst hClears]
        exact fun e he => absurd he not_mem_nil
      · exact fun h => hClears (h d mem_cons_self)
    by_cases hFrees : Frees carve d
    · refine ⟨_, (hEntry (.useAfterFree, k)).2.1 hFrees, d, ?_, hFrees⟩
      rw [takeWhile_cons_of_pos (by simpa using hClears)]
      exact mem_cons_self
    have hPre' : ∀ e ∈ pre ++ leftOf carve d, ¬ Meets carve e := by
      intro e he
      rcases mem_append.mp he with he | he
      · exact hPre e he
      · exact (leftOf_facts hTop hMeets he).1
    rcases ih hRest hPre' hNext with ⟨r, hEnds, hSettled⟩
    rw [append_assoc] at hEnds hSettled
    exact ⟨r, (hEntry r).2.2 hClears hFrees hEnds, hSettled.cons hClears hFrees hLost⟩

/- The list that an end of the loop leaves behind. -/
def Outcome.list : Outcome → List EfiMemDesc
  | .useAfterFree => []
  | .failed mem => mem
  | .added mem => mem

/- Free memory that is cut through does not come back. -/
theorem carveLoop_loses_page
    (hSound : Sound (pre ++ d :: rest)) (hPre : ∀ e ∈ pre, ¬ Meets carve e) (hMeets : Meets carve d)
    (hType : d.type = efiConventionalMemory)
    (hCut : carve.physicalStart < carve.stop ∨ carve.physicalStart % efiPageSize ≠ 0)
    (hk : k < 2 ^ 64) (hEnds : LoopEnds carve (pre ++ d :: rest) k r) :
    ∃ page, pageType (pre ++ d :: rest) page ≠ none ∧ pageType r.1.list page = none := by
  have hFits : d.Fits := hSound.fits d (mem_append_right _ mem_cons_self)
  have hTop := hFits.no_wrap
  rcases leftOf_loses_page hFits hMeets hCut with ⟨page, hHas, hLost⟩
  have hApart := hSound.descending.apart
  have hOthers : ∀ e, e ∈ pre ∨ e ∈ rest → ¬ e.toRange.Has (page * efiPageSize) := by
    intro e he hHas'
    unfold RangeMap.Apart at hApart
    rw [pairwise_map] at hApart
    rcases pairwise_append.mp hApart with ⟨-, hAfter, hBefore⟩
    rcases he with he | he
    · exact hBefore e he d mem_cons_self _ ⟨hHas', hHas⟩
    · exact (pairwise_cons.mp hAfter).1 e he _ ⟨hHas, hHas'⟩
  have hGone : ¬ Covers (pre ++ (leftOf carve d ++ rest)) (page * efiPageSize) := by
    rw [covers_append, covers_append]
    rintro (⟨e, he, hHas'⟩ | hLeft | ⟨e, he, hHas'⟩)
    · exact hOthers e (Or.inl he) hHas'
    · exact hLost hLeft
    · exact hOthers e (Or.inr he) hHas'
  refine ⟨page, ?_, ?_⟩
  · rw [Ne, pageType_eq_none_iff, not_not]
    exact ⟨d, mem_append_right _ mem_cons_self, hHas⟩
  rw [pageType_eq_none_iff]
  intro hCovers
  have hEntry := fun r => @LoopEnds.of_entry carve d pre rest k r hPre hMeets hType hTop hk
  by_cases hClears : Clears carve d
  swap
  · rw [hEnds.unique ((hEntry r).1 hClears)] at hCovers
    exact hGone hCovers
  by_cases hFrees : Frees carve d
  · rw [hEnds.unique ((hEntry r).2.1 hFrees)] at hCovers
    exact not_covers_nil _ hCovers
  have hPre' : ∀ e ∈ pre ++ leftOf carve d, ¬ Meets carve e := by
    intro e he
    rcases mem_append.mp he with he | he
    · exact hPre e he
    · exact (leftOf_facts hTop hMeets he).1
  have hRest : ∀ e ∈ rest, e.toRange.hi < 2 ^ 64 :=
    fun e he => (hSound.fits e (mem_append_right _ (mem_cons_of_mem d he))).no_wrap
  rcases @carveLoop_settles carve (pre ++ leftOf carve d) rest ((k + credit carve d) % 2 ^ 64).toNat
      hRest hPre' (by omega) with
    ⟨r', hEnds', hSettled⟩
  rw [append_assoc] at hEnds' hSettled
  have hSame := hEnds.unique ((hEntry r').2.2 hClears hFrees hEnds')
  subst hSame
  rcases r with ⟨outcome, carved⟩
  cases outcome with
  | useAfterFree => exact not_covers_nil _ hCovers
  | failed mem' => exact hGone (hSettled.2.2 _ hCovers)
  | added mem' => exact hGone (hSettled.2.2 _ hCovers)

/- The two parts of an entry that is only split. -/
theorem pageType_split
    (hFits : d.Fits) (hMeets : Meets carve d) (hStart : d.physicalStart < carve.physicalStart)
    (hAligned : carve.physicalStart % efiPageSize = 0) (page : Nat) :
    pageType (pre ++ splitOff carve d :: leftBelow carve d :: rest) page =
      pageType (pre ++ d :: rest) page := by
  have hEnd : carve.physicalStart < d.toRange.hi := by
    rw [← stop_eq hFits.no_wrap]
    exact hMeets.2
  have hUpper : (splitOff carve d).toRange = ⟨carve.physicalStart, d.toRange.hi, d.type⟩ := by
    have hBetween := hFits.between hEnd hAligned hFits.hi_aligned (Nat.le_refl _)
    rw [← hBetween.2, ← stop_eq hFits.no_wrap]
    rfl
  have hLower : (leftBelow carve d).toRange = ⟨d.toRange.lo, carve.physicalStart, d.type⟩ :=
    (hFits.between hStart hFits.aligned hAligned (Nat.le_of_lt hEnd)).2
  have hSplit :
      ∀ x, ((splitOff carve d).toRange.Has x ∨ (leftBelow carve d).toRange.Has x) ↔
        d.toRange.Has x := by
    intro x
    have hLow : d.toRange.lo < carve.physicalStart := hStart
    rw [hUpper, hLower]
    unfold RangeMap.Range.Has
    dsimp only
    omega
  unfold pageType RangeMap.value
  simp only [map_append, map_cons, find?_append, Option.map_or]
  congr 1
  have hHas := hSplit (page * efiPageSize)
  by_cases hUp : (splitOff carve d).toRange.Has (page * efiPageSize)
  · rw [find?_cons_of_pos (by simpa using hUp),
      find?_cons_of_pos (by simpa using hHas.mp (Or.inl hUp))]
    rfl
  rw [find?_cons_of_neg (by simpa using hUp)]
  by_cases hLow : (leftBelow carve d).toRange.Has (page * efiPageSize)
  · rw [find?_cons_of_pos (by simpa using hLow),
      find?_cons_of_pos (by simpa using hHas.mp (Or.inr hLow))]
    rw [Option.map_some, Option.map_some]
    exact congrArg some rfl
  · have hNot := hHas.not.mp (not_or.mpr ⟨hUp, hLow⟩)
    rw [find?_cons_of_neg (by simpa using hLow), find?_cons_of_neg (by simpa using hNot)]

/-
  A range that ends at or before its start: the loop counts
  nothing and at most splits the entry that holds both ends.
-/
theorem carveLoop_wrapped
    (hSound : Sound (pre ++ d :: rest)) (hPre : ∀ e ∈ pre, ¬ Meets carve e) (hMeets : Meets carve d)
    (hType : d.type = efiConventionalMemory)
    (hWrap : carve.stop ≤ carve.physicalStart) (hk : k < 2 ^ 64) :
    LoopEnds carve (pre ++ d :: rest) k
      (.added (pre ++ splitOff carve d :: leftBelow carve d :: rest), k) := by
  have hFits : d.Fits := hSound.fits d (mem_append_right _ mem_cons_self)
  have hTop := hFits.no_wrap
  have hStart : d.physicalStart < carve.physicalStart := Nat.lt_of_lt_of_le hMeets.1 hWrap
  have hAfter : ∀ e ∈ rest, e.toRange.hi ≤ d.toRange.lo := by
    have hBelow := hSound.descending.below
    rw [pairwise_map] at hBelow
    exact (pairwise_cons.mp (pairwise_append.mp hBelow).2.1).1
  refine LoopEnds.of_split hPre hMeets hType hStart hk ?_
  refine LoopEnds.of_done ?_
  intro e he
  rcases mem_append.mp he with he | he
  · exact hPre e he
  rcases mem_cons.mp he with rfl | he
  · intro hUpper
    have hOrder := hUpper.1
    change carve.physicalStart < carve.stop at hOrder
    omega
  rcases mem_cons.mp he with rfl | he
  · exact (leftBelow_facts hTop hMeets hStart).2.1
  · intro hMeets'
    have hLe := hAfter e he
    have hHi := hFits.lo_lt_hi
    have hIn := hMeets'.2
    have hEnd : e.stop = e.toRange.hi := stop_eq (by omega)
    have hLow : d.toRange.lo < carve.physicalStart := hStart
    omega

end Loop

end Uboot.Efi
