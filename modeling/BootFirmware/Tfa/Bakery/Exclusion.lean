import BootFirmware.Tfa.Bakery.Model

/-
  Mutual exclusion of the bakery lock over all interleavings
  of single accesses.

  The waiter compares priorities once and then only waits
  for the other ticket to change, so the invariant cannot be
  about the present tickets alone.  `State.Passed` says what
  a CPU that has been passed can still become: whatever
  ticket it draws from now on comes after the passer's.

  Main declarations:
    * `State.Passed`
    * `State.Inv`
    * `State.step_inv`
    * `bakery_lock_mutual_exclusion`
-/

----
-- Loop Indices
----

namespace Tfa.Bakery

variable {n : Nat} {k : Nat}

/- The skipping loop visits every index but its own. -/
theorem nextOther_some {me they : Fin n} (hNext : nextOther me k = some they) :
    they ≠ me ∧ ∀ j : Fin n, j.val < they.val → j ≠ me → j.val < k := by
  unfold nextOther at hNext
  split at hNext
  · split at hNext
    · split at hNext
      · have hThey := Option.some.inj hNext
        subst hThey
        refine ⟨fun hEq => ?_, fun j hj hNe => ?_⟩
        · have hVal := congrArg Fin.val hEq
          simp only at hVal
          omega
        · have hVal : j.val ≠ me.val :=
            fun h => hNe (Fin.ext h)
          simp only at hj
          omega
      · cases hNext
    · rename_i hMe
      have hThey := Option.some.inj hNext
      subst hThey
      refine ⟨fun hEq => hMe ?_, fun j hj _ => hj⟩
      exact congrArg Fin.val hEq
  · cases hNext

/- When the loop ends, every other index was visited. -/
theorem nextOther_none {me : Fin n} (hNext : nextOther me k = none) :
    ∀ j : Fin n, j ≠ me → j.val < k := by
  intro j hNe
  unfold nextOther at hNext
  split at hNext
  · split at hNext
    · split at hNext
      · cases hNext
      · omega
    · cases hNext
  · omega

/-
  The ticket scan reads, in either version, every index but
  possibly its own.
-/
theorem nextScan_some
    {coherent : Bool} {me they : Fin n} (hNext : nextScan coherent me k = some they) :
    ∀ j : Fin n, j.val < they.val → j ≠ me → j.val < k := by
  unfold nextScan at hNext
  split at hNext
  · split at hNext
    · have hThey := Option.some.inj hNext
      subst hThey
      exact fun j hj _ => hj
    · cases hNext
  · exact (nextOther_some hNext).2

theorem nextScan_none {coherent : Bool} {me : Fin n} (hNext : nextScan coherent me k = none) :
    ∀ j : Fin n, j ≠ me → j.val < k := by
  unfold nextScan at hNext
  split at hNext
  · split at hNext
    · cases hNext
    · intro j _
      omega
  · exact nextOther_none hNext

----
-- The Invariant
----

namespace State

variable {n : Nat}

/- The ticket a CPU shows to the others. -/
def ticket (s : State n) (i : Fin n) : Nat :=
  bakeryTicketNumber (s.lockData i)

/- Lexicographic order of tickets and positions. -/
def Before (t : Nat) (i : Fin n) (u : Nat) (j : Fin n) :
    Prop :=
  t < u ∨ (t = u ∧ i.val < j.val)

/- The own halfword follows the program counter. -/
def OwnWord (s : State n) (i : Fin n) : Prop :=
  match s.pc i with
  | .idle | .setChoosing => s.lockData i = 0
  | .scan _ _ => s.lockData i = 1
  | .setTicket t => s.lockData i = 1 ∧ 0 < t
  | .awaitChoice _ t | .awaitChange _ t _ =>
    s.lockData i = 2 * t ∧ 0 < t ∧ t ≤ maxTicket
  | .critical | .dropTicket => ∃ t, s.lockData i = 2 * t ∧ 0 < t ∧ t ≤ maxTicket

/-
  What a CPU `j` that no longer stands in the way of `i` can
  be: it is outside, or it has still to read the ticket of
  `i` or has accounted for it, or its ticket comes after.
-/
def Passed (s : State n) (i j : Fin n) : Prop :=
  match s.pc j with
  | .idle | .setChoosing => True
  | .scan they highest => they.val ≤ i.val ∨ s.ticket i ≤ highest
  | .setTicket t => s.ticket i < t
  | .awaitChoice _ _ | .awaitChange _ _ _
  | .critical | .dropTicket => Before (s.ticket i) i (s.ticket j) j

/- The CPUs a contender has already got past. -/
def Progress (s : State n) (i : Fin n) : Prop :=
  match s.pc i with
  | .awaitChoice they _ => they ≠ i ∧ ∀ j, j ≠ i → j.val < they.val → s.Passed i j
  | .awaitChange they _ theirTicket =>
    they ≠ i ∧ theirTicket ≠ 0 ∧ (s.ticket they = theirTicket ∨ s.Passed i they) ∧
      ∀ j, j ≠ i → j.val < they.val → s.Passed i j
  | .critical | .dropTicket => ∀ j, j ≠ i → s.Passed i j
  | _ => True

/- The invariant of all runs with tickets in range. -/
structure Inv (s : State n) : Prop where
  own : ∀ i, s.OwnWord i
  progress : ∀ i, s.Progress i

/- A CPU that shows a ticket is past its doorway. -/
def Ticketed (s : State n) (i : Fin n) : Prop :=
  match s.pc i with
  | .awaitChoice _ _ | .awaitChange _ _ _
  | .critical | .dropTicket => True
  | _ => False

/- The initial state satisfies the invariant. -/
theorem inv_initial : (initial : State n).Inv where
  own i := by simp [OwnWord, initial]
  progress i := by simp [Progress, initial]

variable {s : State n}

variable {j : Fin n}

theorem ticketed_of_ticket_ne_zero (hOwn : s.OwnWord j) (hTicket : s.ticket j ≠ 0) :
    s.Ticketed j := by
  unfold OwnWord at hOwn
  unfold Ticketed
  unfold ticket at hTicket
  cases hPc : s.pc j <;> simp only [hPc] at hOwn ⊢
  case idle => simp [hOwn, bakeryTicketNumber] at hTicket
  case setChoosing =>
    simp [hOwn, bakeryTicketNumber] at hTicket
  case scan => simp [hOwn, bakeryTicketNumber] at hTicket
  case setTicket =>
    simp [hOwn, bakeryTicketNumber] at hTicket

theorem ticket_pos_of_ticketed (hOwn : s.OwnWord j) (hTicketed : s.Ticketed j) :
    0 < s.ticket j ∧ bakeryIsChoosing (s.lockData j) = false := by
  have hShown : ∃ t, s.lockData j = 2 * t ∧ 0 < t ∧ t ≤ maxTicket := by
    unfold OwnWord at hOwn
    unfold Ticketed at hTicketed
    cases hPc : s.pc j <;>
      simp only [hPc] at hOwn hTicketed
    case awaitChoice they t => exact ⟨t, hOwn⟩
    case awaitChange they t u => exact ⟨t, hOwn⟩
    case critical => exact hOwn
    case dropTicket => exact hOwn
  rcases hShown with ⟨t, hData, hPos, hRange⟩
  refine ⟨?_, ?_⟩
  · rw [ticket, hData, bakeryTicketNumber_double hRange]
    exact hPos
  · rw [hData, bakeryIsChoosing_double]

variable {i : Fin n}

theorem ticket_le_of_setTicket {t : Nat} (hRange : s.TicketsInRange) (hPc : s.pc i = .setTicket t) :
    t ≤ maxTicket := by
  have hComputed := hRange i
  rwa [hPc] at hComputed

theorem ticket_of_awaitChoice
    {i they : Fin n} {t : Nat} (hOwn : s.OwnWord i) (hPc : s.pc i = .awaitChoice they t) :
    s.ticket i = t := by
  simp only [OwnWord, hPc] at hOwn
  rw [ticket, hOwn.1, bakeryTicketNumber_double hOwn.2.2]

variable {i j : Fin n}

theorem passed_iff_of_ticketed (hTicketed : s.Ticketed j) :
    s.Passed i j ↔ Before (s.ticket i) i (s.ticket j) j := by
  unfold Ticketed at hTicketed
  unfold Passed
  cases hPc : s.pc j <;> simp_all only

----
-- Effects Of One Step
----

section Effects

variable {s : State n} {me j : Fin n} {pc : Pc n}
variable {data : Nat}

@[simp] theorem goto_pc_self : (s.goto me pc).pc me = pc := by
  simp [goto]

@[simp] theorem write_pc_self : (s.write me data pc).pc me = pc := by
  simp [write]

@[simp] theorem goto_lockData : (s.goto me pc).lockData = s.lockData := rfl

@[simp] theorem write_lockData_self : (s.write me data pc).lockData me = data := by
  simp [write]

theorem goto_pc_of_ne (hNe : j ≠ me) : (s.goto me pc).pc j = s.pc j := by
  simp [goto, hNe]

theorem write_pc_of_ne (hNe : j ≠ me) : (s.write me data pc).pc j = s.pc j := by
  simp [write, hNe]

theorem write_lockData_of_ne (hNe : j ≠ me) : (s.write me data pc).lockData j = s.lockData j := by
  simp [write, hNe]

end Effects

/-
  Everything a step can do, with the guards under which it
  does it.
-/
inductive Effect
    (coherent : Bool) (s : State n)
    (me : Fin n) : State n → Prop
  | enter (hPc : s.pc me = .idle) : Effect coherent s me (s.goto me .setChoosing)
  | openDoorway (hPc : s.pc me = .setChoosing) :
      Effect coherent s me (s.write me 1 (.scanFrom coherent me 0 0))
  | look (they : Fin n) (highest : Nat) (hPc : s.pc me = .scan they highest) :
      Effect coherent s me
        (s.goto me (.scanFrom coherent me (they.val + 1) (max highest (s.ticket they))))
  | closeDoorway (myTicket : Nat) (hPc : s.pc me = .setTicket myTicket) :
      Effect coherent s me
        (s.write me (makeBakeryData chosenTicket myTicket) (.contendFrom me 0 myTicket))
  | retryChoice (they : Fin n) (myTicket : Nat) (hPc : s.pc me = .awaitChoice they myTicket) :
      Effect coherent s me s
  | yieldTo (they : Fin n) (myTicket : Nat) (hPc : s.pc me = .awaitChoice they myTicket)
      (hTicket : s.ticket they ≠ 0) :
      Effect coherent s me (s.goto me (.awaitChange they myTicket (s.ticket they)))
  | overtake (they : Fin n) (myTicket : Nat) (hPc : s.pc me = .awaitChoice they myTicket)
      (hChosen : bakeryIsChoosing (s.lockData they) = false)
      (hLater :
        ¬ (s.ticket they ≠ 0 ∧ priority (s.ticket they) they.val < priority myTicket me.val)) :
      Effect coherent s me (s.goto me (.contendFrom me (they.val + 1) myTicket))
  | retryChange (they : Fin n) (myTicket theirTicket : Nat)
      (hPc : s.pc me = .awaitChange they myTicket theirTicket) :
      Effect coherent s me s
  | changed (they : Fin n) (myTicket theirTicket : Nat)
      (hPc : s.pc me = .awaitChange they myTicket theirTicket)
      (hChanged : theirTicket ≠ s.ticket they) :
      Effect coherent s me (s.goto me (.contendFrom me (they.val + 1) myTicket))
  | leave (hPc : s.pc me = .critical) : Effect coherent s me (s.goto me .dropTicket)
  | drop (hPc : s.pc me = .dropTicket) : Effect coherent s me (s.write me 0 .idle)

variable {coherent : Bool} {me : Fin n}

variable {s t : State n}

theorem effect_of_step (hStep : s.step coherent me = some t) :
    Effect coherent s me t := by
  unfold step at hStep
  cases hPc : s.pc me with
  | idle =>
    simp only [hPc] at hStep
    split at hStep
    · cases Option.some.inj hStep
      exact .enter hPc
    · cases hStep
  | setChoosing =>
    simp only [hPc, makeBakeryData_choosing] at hStep
    cases Option.some.inj hStep
    exact .openDoorway hPc
  | scan they highest =>
    have hMax :
        (if bakeryTicketNumber (s.lockData they) > highest
          then bakeryTicketNumber (s.lockData they)
          else highest) = max highest (s.ticket they) := by
      unfold ticket
      split <;> omega
    simp only [hPc, hMax] at hStep
    cases Option.some.inj hStep
    exact .look they highest hPc
  | setTicket myTicket =>
    simp only [hPc] at hStep
    cases Option.some.inj hStep
    exact .closeDoorway myTicket hPc
  | awaitChoice they myTicket =>
    simp only [hPc] at hStep
    split at hStep
    · cases Option.some.inj hStep
      exact .retryChoice they myTicket hPc
    · rename_i hChoosing
      split at hStep
      · rename_i hEarlier
        cases Option.some.inj hStep
        exact .yieldTo they myTicket hPc hEarlier.1
      · rename_i hLater
        cases Option.some.inj hStep
        exact .overtake they myTicket hPc (by simpa using hChoosing) hLater
  | awaitChange they myTicket theirTicket =>
    simp only [hPc] at hStep
    split at hStep
    · cases Option.some.inj hStep
      exact .retryChange they myTicket theirTicket hPc
    · rename_i hChanged
      cases Option.some.inj hStep
      exact .changed they myTicket theirTicket hPc hChanged
  | critical =>
    simp only [hPc] at hStep
    split at hStep
    · cases Option.some.inj hStep
      exact .leave hPc
    · cases hStep
  | dropTicket =>
    simp only [hPc] at hStep
    cases Option.some.inj hStep
    exact .drop hPc

/- A step leaves the other CPUs where they are. -/
theorem Effect.frame (hEffect : Effect coherent s me t) (hNe : j ≠ me) :
    t.pc j = s.pc j ∧ t.lockData j = s.lockData j := by
  cases hEffect <;>
    simp [goto_pc_of_ne, write_pc_of_ne, write_lockData_of_ne, hNe]

----
-- Entering The Two Loops
----

variable {k highest : Nat}

/-
  A CPU that resumes its scan at `k` keeps accounting for
  the ticket of `i`.
-/
theorem passed_scanFrom (hNe : i ≠ j) (hPc : s.pc j = .scanFrom coherent j k highest)
    (hSeen : i.val < k → s.ticket i ≤ highest) :
    s.Passed i j := by
  unfold Pc.scanFrom at hPc
  cases hNext : nextScan coherent j k with
  | some they =>
    simp only [hNext] at hPc
    simp only [Passed, hPc]
    by_cases hLate : they.val ≤ i.val
    · exact Or.inl hLate
    · right
      exact hSeen (nextScan_some hNext i (by omega) hNe)
  | none =>
    simp only [hNext] at hPc
    simp only [Passed, hPc]
    have hRead := hSeen (nextScan_none hNext i hNe)
    omega

theorem ownWord_scanFrom
    (hPc : s.pc j = .scanFrom coherent j k highest) (hData : s.lockData j = 1) :
    s.OwnWord j := by
  unfold Pc.scanFrom at hPc
  split at hPc
  · simpa only [OwnWord, hPc] using hData
  · simp only [OwnWord, hPc]
    exact ⟨hData, Nat.succ_pos highest⟩

/- A scanning CPU has got past nobody yet. -/
theorem progress_scanFrom (hPc : s.pc j = .scanFrom coherent j k highest) :
    s.Progress j := by
  unfold Pc.scanFrom at hPc
  split at hPc <;> simp only [Progress, hPc]

theorem ticketed_contendFrom {k t : Nat} (hPc : s.pc i = .contendFrom i k t) :
    s.Ticketed i := by
  unfold Pc.contendFrom at hPc
  split at hPc <;> simp only [Ticketed, hPc]

theorem ownWord_contendFrom {k t : Nat}
    (hPc : s.pc i = .contendFrom i k t) (hData : s.lockData i = 2 * t ∧ 0 < t ∧ t ≤ maxTicket) :
    s.OwnWord i := by
  unfold Pc.contendFrom at hPc
  split at hPc
  · simpa only [OwnWord, hPc] using hData
  · simp only [OwnWord, hPc]
    exact ⟨t, hData⟩

/-
  Resuming the contention loop at `k` after everyone below
  `k` has been passed.
-/
theorem progress_contendFrom {k t : Nat}
    (hPc : s.pc i = .contendFrom i k t) (hBelow : ∀ j, j ≠ i → j.val < k → s.Passed i j) :
    s.Progress i := by
  unfold Pc.contendFrom at hPc
  cases hNext : nextOther i k with
  | some they =>
    simp only [hNext] at hPc
    simp only [Progress, hPc]
    have hThey := nextOther_some hNext
    exact ⟨hThey.1, fun j hNe hLt => hBelow j hNe (hThey.2 j hLt hNe)⟩
  | none =>
    simp only [hNext] at hPc
    simp only [Progress, hPc]
    exact fun j hNe => hBelow j hNe (nextOther_none hNext j hNe)

----
-- Preservation
----

/- Facts about one CPU survive when it does not move. -/
theorem ownWord_congr
    (hPc : t.pc i = s.pc i) (hData : t.lockData i = s.lockData i) (hOwn : s.OwnWord i) :
    t.OwnWord i := by
  simpa only [OwnWord, hPc, hData] using hOwn

theorem passed_congr (hPc : t.pc j = s.pc j) (hTicketI : t.ticket i = s.ticket i)
    (hTicketJ : t.ticket j = s.ticket j) (hPassed : s.Passed i j) :
    t.Passed i j := by
  simpa only [Passed, hPc, hTicketI, hTicketJ] using hPassed

/- Every step keeps the halfwords in line. -/
theorem Effect.ownWord
    (hInv : s.Inv) (hRange : s.TicketsInRange) (hEffect : Effect coherent s me t) (i : Fin n) :
    t.OwnWord i := by
  by_cases hNe : i = me
  · subst hNe
    have hOwn := hInv.own i
    cases hEffect with
    | enter hPc => simpa [OwnWord, hPc] using hOwn
    | openDoorway hPc => exact ownWord_scanFrom write_pc_self write_lockData_self
    | look they highest hPc =>
      simp only [OwnWord, hPc] at hOwn
      exact ownWord_scanFrom goto_pc_self hOwn
    | closeDoorway myTicket hPc =>
      simp only [OwnWord, hPc] at hOwn
      have hLe := ticket_le_of_setTicket hRange hPc
      refine ownWord_contendFrom write_pc_self ⟨?_, hOwn.2, hLe⟩
      rw [write_lockData_self, makeBakeryData_chosen hLe]
    | retryChoice they myTicket hPc => exact hOwn
    | yieldTo they myTicket hPc hTicket => simpa [OwnWord, hPc] using hOwn
    | overtake they myTicket hPc hChosen hLater =>
      simp only [OwnWord, hPc] at hOwn
      exact ownWord_contendFrom goto_pc_self hOwn
    | retryChange they myTicket theirTicket hPc => exact hOwn
    | changed they myTicket theirTicket hPc hChanged =>
      simp only [OwnWord, hPc] at hOwn
      exact ownWord_contendFrom goto_pc_self hOwn
    | leave hPc => simpa [OwnWord, hPc] using hOwn
    | drop hPc => simp [OwnWord]
  · have hFrame := hEffect.frame hNe
    exact ownWord_congr hFrame.1 hFrame.2 (hInv.own i)

/-
  A CPU that has been passed stays passed, whatever it does
  next.  The doorway is where the argument lies: the ticket
  it draws there accounts for the ticket of `i`.
-/
theorem Effect.passed_self (hNe : i ≠ j) (hRange : s.TicketsInRange)
    (hEffect : Effect coherent s j t) (hPassed : s.Passed i j) :
    t.Passed i j := by
  have hTicketI : t.ticket i = s.ticket i := by rw [ticket, ticket, (hEffect.frame hNe).2]
  cases hEffect with
  | enter hPc => simp [Passed]
  | openDoorway hPc =>
    exact passed_scanFrom hNe write_pc_self (fun h => absurd h (Nat.not_lt_zero _))
  | look they highest hPc =>
    simp only [Passed, hPc] at hPassed
    refine passed_scanFrom hNe goto_pc_self ?_
    intro hSeen
    rw [hTicketI]
    rcases Nat.lt_or_eq_of_le (Nat.le_of_lt_succ hSeen) with hBefore | hNow
    · rcases hPassed with hLate | hOld
      · omega
      · exact le_trans hOld (le_max_left _ _)
    · rw [Fin.ext hNow]
      exact le_max_right _ _
  | closeDoorway myTicket hPc =>
    simp only [Passed, hPc] at hPassed
    refine (passed_iff_of_ticketed (ticketed_contendFrom write_pc_self)).mpr ?_
    left
    have hLe := ticket_le_of_setTicket hRange hPc
    rw [hTicketI]
    rw [ticket, ticket, write_lockData_self, makeBakeryData_chosen hLe,
      bakeryTicketNumber_double hLe]
    exact hPassed
  | retryChoice they myTicket hPc => exact hPassed
  | yieldTo they myTicket hPc hTicket => simpa [Passed, hPc, ticket] using hPassed
  | overtake they myTicket hPc hChosen hLater =>
    refine (passed_iff_of_ticketed (ticketed_contendFrom goto_pc_self)).mpr ?_
    simpa [Passed, hPc, ticket] using hPassed
  | retryChange they myTicket theirTicket hPc => exact hPassed
  | changed they myTicket theirTicket hPc hChanged =>
    refine (passed_iff_of_ticketed (ticketed_contendFrom goto_pc_self)).mpr ?_
    simpa [Passed, hPc, ticket] using hPassed
  | leave hPc => simpa [Passed, hPc, ticket] using hPassed
  | drop hPc => simp [Passed]

/- Being passed survives the steps of all CPUs but the
  passer. -/
theorem Effect.passed {me i j : Fin n} (hNe : i ≠ j) (hOther : i ≠ me) (hRange : s.TicketsInRange)
    (hEffect : Effect coherent s me t) (hPassed : s.Passed i j) :
    t.Passed i j := by
  by_cases hSelf : j = me
  · subst hSelf
    exact hEffect.passed_self hNe hRange hPassed
  · have hFrameI := hEffect.frame hOther
    have hFrameJ := hEffect.frame hSelf
    refine passed_congr hFrameJ.1 ?_ ?_ hPassed
    · rw [ticket, ticket, hFrameI.2]
    · rw [ticket, ticket, hFrameJ.2]

/-
  The awaited ticket either still stands or its owner has
  dropped it and now counts as passed.
-/
theorem Effect.awaited
    {me i j : Fin n} {theirTicket : Nat} (hInv : s.Inv) (hNe : i ≠ j) (hOther : i ≠ me)
    (hRange : s.TicketsInRange) (hTicket : theirTicket ≠ 0) (hEffect : Effect coherent s me t)
    (hAwaited : s.ticket j = theirTicket ∨ s.Passed i j) :
    t.ticket j = theirTicket ∨ t.Passed i j := by
  rcases hAwaited with hStands | hPassed
  · by_cases hSelf : j = me
    · subst hSelf
      have hTicketed := ticketed_of_ticket_ne_zero (hInv.own j) (hStands ▸ hTicket)
      -- of the ticketed positions only the drop writes
      cases hEffect <;>
        simp_all [Ticketed, ticket, Passed]
    · left
      rw [ticket, (hEffect.frame hSelf).2]
      exact hStands
  · exact Or.inr (hEffect.passed hNe hOther hRange hPassed)

theorem Effect.progress_other
    {me i : Fin n} (hInv : s.Inv) (hOther : i ≠ me) (hRange : s.TicketsInRange)
    (hEffect : Effect coherent s me t) :
    t.Progress i := by
  have hPassed : ∀ j, j ≠ i → s.Passed i j → t.Passed i j :=
    fun j hNe => hEffect.passed (Ne.symm hNe) hOther hRange
  have hProgress := hInv.progress i
  unfold Progress at hProgress ⊢
  rw [(hEffect.frame hOther).1]
  cases hPc : s.pc i with
  | awaitChoice they myTicket =>
    simp only [hPc] at hProgress ⊢
    exact ⟨hProgress.1, fun j hNe hLt => hPassed j hNe (hProgress.2 j hNe hLt)⟩
  | awaitChange they myTicket theirTicket =>
    simp only [hPc] at hProgress ⊢
    rcases hProgress with ⟨hThey, hTicket, hAwaited, hBelow⟩
    refine ⟨hThey, hTicket, ?_, fun j hNe hLt => hPassed j hNe (hBelow j hNe hLt)⟩
    exact hEffect.awaited hInv (Ne.symm hThey) hOther hRange hTicket hAwaited
  | critical =>
    simp only [hPc] at hProgress ⊢
    exact fun j hNe => hPassed j hNe (hProgress j hNe)
  | dropTicket =>
    simp only [hPc] at hProgress ⊢
    exact fun j hNe => hPassed j hNe (hProgress j hNe)
  | idle => trivial
  | setChoosing => trivial
  | scan they highest => trivial
  | setTicket myTicket => trivial

/-
  A CPU whose halfword shows neither the choosing flag nor
  an earlier ticket is passed by the reader.
-/
theorem passed_of_read
    {t : Nat} (hSize : n ≤ 256) (hInv : s.Inv) (hNe : j ≠ i) (hTicket : s.ticket i = t)
    (hChosen : bakeryIsChoosing (s.lockData j) = false)
    (hLater : ¬ (s.ticket j ≠ 0 ∧ priority (s.ticket j) j.val < priority t i.val)) :
    s.Passed i j := by
  have hOwn := hInv.own j
  by_cases hZero : s.ticket j = 0
  · cases hPc : s.pc j with
    | idle => simp [Passed, hPc]
    | setChoosing => simp [Passed, hPc]
    | scan they highest =>
      simp only [OwnWord, hPc] at hOwn
      simp [hOwn, bakeryIsChoosing] at hChosen
    | setTicket u =>
      simp only [OwnWord, hPc] at hOwn
      simp [hOwn.1, bakeryIsChoosing] at hChosen
    | _ =>
      have hPos := (ticket_pos_of_ticketed hOwn (by simp [Ticketed, hPc])).1
      omega
  · refine (passed_iff_of_ticketed (ticketed_of_ticket_ne_zero hOwn hZero)).mpr ?_
    have hPrioJ := priority_eq (bakeryTicketNumber_le (s.lockData j)) (show j.val < 256 by omega)
    have hPrioI := priority_eq (bakeryTicketNumber_le (s.lockData i)) (show i.val < 256 by omega)
    subst hTicket
    simp only [ticket] at hLater hZero
    rw [hPrioJ, hPrioI] at hLater
    simp only [Before, ticket]
    omega

/- The CPU that moves keeps its own progress. -/
theorem Effect.progress_self (hSize : n ≤ 256) (hInv : s.Inv) (hEffect : Effect coherent s me t) :
    t.Progress me := by
  have hProgress := hInv.progress me
  have hOwn := hInv.own me
  -- moving without a write keeps whoever was passed passed
  have hKeep : ∀ pc j, j ≠ me → s.Passed me j → (s.goto me pc).Passed me j := by
    intro pc j hNe hPassed
    exact passed_congr (goto_pc_of_ne hNe) rfl rfl hPassed
  cases hEffect with
  | enter hPc => simp [Progress]
  | openDoorway hPc => exact progress_scanFrom write_pc_self
  | look they highest hPc => exact progress_scanFrom goto_pc_self
  | closeDoorway myTicket hPc =>
    exact progress_contendFrom write_pc_self (fun j _ hLt => absurd hLt (Nat.not_lt_zero _))
  | retryChoice they myTicket hPc => exact hProgress
  | yieldTo they myTicket hPc hTicket =>
    simp only [Progress, hPc] at hProgress
    simp only [Progress, goto_pc_self]
    exact ⟨hProgress.1, hTicket, Or.inl rfl, fun j hNe hLt => hKeep _ j hNe (hProgress.2 j hNe hLt)⟩
  | overtake they myTicket hPc hChosen hLater =>
    simp only [Progress, hPc] at hProgress
    refine progress_contendFrom goto_pc_self ?_
    intro j hNe hLt
    apply hKeep _ j hNe
    rcases Nat.lt_or_eq_of_le (Nat.le_of_lt_succ hLt) with hBelow | hHere
    · exact hProgress.2 j hNe hBelow
    · cases Fin.ext hHere
      exact passed_of_read hSize hInv hNe (ticket_of_awaitChoice hOwn hPc) hChosen hLater
  | retryChange they myTicket theirTicket hPc => exact hProgress
  | changed they myTicket theirTicket hPc hChanged =>
    simp only [Progress, hPc] at hProgress
    rcases hProgress with ⟨-, -, hAwaited, hBefore⟩
    refine progress_contendFrom goto_pc_self ?_
    intro j hNe hLt
    apply hKeep _ j hNe
    rcases Nat.lt_or_eq_of_le (Nat.le_of_lt_succ hLt) with hBelow | hHere
    · exact hBefore j hNe hBelow
    · cases Fin.ext hHere
      rcases hAwaited with hStands | hPassed
      · exact absurd hStands.symm hChanged
      · exact hPassed
  | leave hPc =>
    simp only [Progress, hPc] at hProgress
    simp only [Progress, goto_pc_self]
    exact fun j hNe => hKeep _ j hNe (hProgress j hNe)
  | drop hPc => simp [Progress]

theorem step_inv (hSize : n ≤ 256) (hInv : s.Inv) (hRange : s.TicketsInRange)
    (hStep : s.step coherent me = some t) :
    t.Inv := by
  have hEffect := effect_of_step hStep
  refine ⟨hEffect.ownWord hInv hRange, fun i => ?_⟩
  by_cases hSelf : i = me
  · subst hSelf
    exact hEffect.progress_self hSize hInv
  · exact hEffect.progress_other hInv hSelf hRange

/- Two holders would each come before the other. -/
theorem holder_unique (hInv : s.Inv) (hI : s.Holds i) (hJ : s.Holds j) :
    i = j := by
  by_contra hNe
  have hPassed :
      ∀ x y : Fin n, s.Holds x → s.Holds y → y ≠ x → Before (s.ticket x) x (s.ticket y) y := by
    intro x y hX hY hXY
    have hTicketed : s.Ticketed y := by rcases hY with hPc | hPc <;> simp [Ticketed, hPc]
    have hProgress := hInv.progress x
    have hAll : s.Passed x y := by
      rcases hX with hPc | hPc <;>
        simp only [Progress, hPc] at hProgress <;>
        exact hProgress y hXY
    exact (passed_iff_of_ticketed hTicketed).mp hAll
  have hIJ := hPassed i j hI hJ (Ne.symm hNe)
  have hJI := hPassed j i hJ hI hNe
  unfold Before at hIJ hJI
  omega

end State

----
-- Mutual Exclusion
----

/-
  In every state that a run reaches before any CPU has
  computed a ticket above `0x7FFF`, at most one CPU is
  between `bakery_lock_get` and `bakery_lock_release`.
-/
theorem bakery_lock_mutual_exclusion (n : Nat) (coherent : Bool) (hSize : n ≤ 256) (s : State n)
    (hReach : (bakerySystem n coherent).ReachableBy (fun s _ => s.TicketsInRange) s)
    (i j : Fin n) (hI : s.Holds i) (hJ : s.Holds j) :
    i = j := by
  have hInv : s.Inv := by
    refine hReach.invariant ?_ ?_
    · rintro s rfl
      exact State.inv_initial
    · intro s me t hInv hRange hStep
      exact State.step_inv hSize hInv hRange hStep
  exact State.holder_unique hInv hI hJ

/-
  One CPU holds the lock while the other, with the later
  ticket, waits for it to change.
-/
theorem bakery_lock_mutual_exclusion_contended :
    ∃ s : State 2, (bakerySystem 2 true).ReachableBy (fun s _ => s.TicketsInRange) s ∧
      s.Holds 0 ∧ s.pc 1 = .awaitChange 0 2 1 ∧ ∀ j, s.Holds j → 0 = j := by
  rcases TransitionSystem.exists_reachableBy (State.step true) (fun s _ => s.TicketsInRange)
      (State.initial : State 2)
      [0, 0, 0, 0, 0, 0, 1, 1, 1, 1, 1, 1]
      (fun s => s.Holds 0 ∧ s.pc 1 = .awaitChange 0 2 1)
      (by decide) with
    ⟨s, hReach, hHolds, hWaits⟩
  refine ⟨s, hReach, hHolds, hWaits, ?_⟩
  intro j hJ
  exact bakery_lock_mutual_exclusion 2 true (by decide) s hReach 0 j hHolds hJ

end Tfa.Bakery
