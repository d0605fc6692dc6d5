import Mathlib.Data.List.Basic

/-
  Programs that take locks and access a shared state, run
  among other programs that change the state in between.

  A path of a program is the sequence of its lock events
  when the others may step before each of its own accesses.
  A program is checked by a rule that follows its syntax and
  only knows an invariant of the state.

  Key definitions include:
    * `LockProgram`, a monad
    * `LockProgram.Path`
    * `LockProgram.Disciplined` and
      `LockProgram.StrictlyDisciplined`
    * `LockProgram.Safe`

  The rules used by the developments built on top are:
    * `safe_bind` and the rules for each step
    * `Safe.disciplined`
    * `Safe.strictlyDisciplined`
-/

----
-- Programs
----

/-
  Programs over states `S` and locks `M` that return an `R`
  or fail with an `F`.  An access reads the state and may
  change it; it is guarded when it goes to data that a lock
  protects.
-/
inductive LockProgram (S M F R : Type) where
  | ret (r : R)
  | fail (fault : F)
  | lock (m : M) (rest : LockProgram S M F R)
  | unlock (m : M) (rest : LockProgram S M F R)
  | access (guard : S → Option M) (change : S → Option S) (rest : S → LockProgram S M F R)

namespace LockProgram

variable {S M F R R' : Type}

def bind : LockProgram S M F R → (R → LockProgram S M F R') → LockProgram S M F R'
  | .ret r, next => next r
  | .fail fault, _ => .fail fault
  | .lock m rest, next => .lock m (rest.bind next)
  | .unlock m rest, next => .unlock m (rest.bind next)
  | .access guard change rest, next =>
    .access guard change (fun s => (rest s).bind next)

instance : Monad (LockProgram S M F) where
  pure := .ret
  bind := .bind

/- Read the state, outside of any guarded data. -/
def read (look : S → R) : LockProgram S M F R :=
  .access (fun _ => none) (fun _ => none) (fun s => .ret (look s))

/- Change the state, outside of any guarded data. -/
def modify (change : S → S) : LockProgram S M F Unit :=
  .access (fun _ => none) (fun s => some (change s)) (fun _ => .ret ())

/- Change the state where that is possible, else fail. -/
def tryModify (change : S → Option S)
    (fault : F) : LockProgram S M F Unit :=
  .access (fun _ => none) change
    (fun s =>
      if (change s).isSome then .ret () else .fail fault)

def assert (test : Bool)
    (fault : F) : LockProgram S M F Unit :=
  if test then .ret () else .fail fault

----
-- Paths
----

/-
  What a path does with locks, and with the data they guard:
  `look` leaves it as it is, `update` writes it.
-/
inductive Event (M : Type) where
  | lock (m : M)
  | unlock (m : M)
  | look (m : M)
  | update (m : M)
  deriving DecidableEq

/- The event of an access. -/
def accessEvents (guard : Option M)
    (changed : Bool) : List (Event M) :=
  match guard with
  | none => []
  | some m => [if changed then .update m else .look m]

/-
  The paths of a program from a state.  Others change the
  state by `rely` before each step.  The last argument tells
  whether the path has returned; a path may stop anywhere.
-/
inductive Path
    (rely : S → S → Prop) :
    LockProgram S M F R → S → List (Event M) → Bool → Prop
  | stop {prog : LockProgram S M F R} {s : S} : Path rely prog s [] false
  | ret {r : R} {s : S} : Path rely (.ret r) s [] true
  | lock {m : M} {rest : LockProgram S M F R} {s t : S} {trace : List (Event M)} {returned : Bool} :
      rely s t → Path rely rest t trace returned →
      Path rely (.lock m rest) s (.lock m :: trace) returned
  | unlock {m : M} {rest : LockProgram S M F R} {s t : S}
      {trace : List (Event M)} {returned : Bool} :
      rely s t → Path rely rest t trace returned →
      Path rely (.unlock m rest) s (.unlock m :: trace) returned
  | access {guard : S → Option M} {change : S → Option S} {rest : S → LockProgram S M F R} {s t : S}
      {trace : List (Event M)} {returned : Bool} :
      rely s t → Path rely (rest t) ((change t).getD t) trace returned →
      Path rely (.access guard change rest) s (accessEvents (guard t) (change t).isSome ++ trace)
        returned

section PathRules

variable {rely : S → S → Prop} {s t : S} {trace : List (Event M)} {returned : Bool}

variable {next : R → LockProgram S M F R'}

theorem Path.read_bind
    {look : S → R} (hStep : rely s t) (hNext : Path rely (next (look t)) t trace returned) :
    Path rely (read look >>= next) s trace returned := by
  let prog : LockProgram S M F R' :=
    .access (fun _ => none) (fun _ => none) (fun s => next (look s))
  have hPath : Path rely prog s ([] ++ trace) returned := .access hStep hNext
  exact hPath

theorem Path.of_read_bind {look : S → R} (hPath : Path rely (read look >>= next) s trace returned) :
    (trace = [] ∧ returned = false) ∨
      ∃ t, rely s t ∧ Path rely (next (look t)) t trace returned := by
  cases hPath with
  | stop => exact .inl ⟨rfl, rfl⟩
  | access hStep hRest => exact .inr ⟨_, hStep, hRest⟩

theorem Path.access_bind
    {guard : S → Option M} {change : S → Option S} {rest : S → LockProgram S M F R}
    (hStep : rely s t) (hNext : Path rely (rest t >>= next) ((change t).getD t) trace returned) :
    Path rely
      ((.access guard change rest : LockProgram S M F R) >>= next) s
      (accessEvents (guard t) (change t).isSome ++ trace)
      returned := by
  let prog : LockProgram S M F R' := .access guard change (fun s => rest s >>= next)
  have hPath :
      Path rely prog s (accessEvents (guard t) (change t).isSome ++ trace)
        returned :=
    .access hStep hNext
  exact hPath

end PathRules

variable [DecidableEq M]

/- A lock has been taken once more than released. -/
def Held (trace : List (Event M)) (m : M) : Prop :=
  trace.count (.unlock m) < trace.count (.lock m)

/-
  Locks are released and guarded data is written only while
  the lock is held, no lock is taken twice, and all locks
  are released where the path returns.
-/
structure Disciplined
    (trace : List (Event M))
    (returned : Bool) : Prop where
  unlock_held : ∀ before after m, trace = before ++ .unlock m :: after → Held before m
  update_held : ∀ before after m, trace = before ++ .update m :: after → Held before m
  lock_free : ∀ before after m, trace = before ++ .lock m :: after → ¬ Held before m
  released : returned = true → ∀ m, trace.count (.unlock m) = trace.count (.lock m)

/- Guarded data is only looked at under the lock as well. -/
structure StrictlyDisciplined
    (trace : List (Event M))
    (returned : Bool) : Prop
    extends Disciplined trace returned where
  look_held : ∀ before after m, trace = before ++ .look m :: after → Held before m

----
-- The Rule
----

/-
  A program that keeps the discipline with the locks `held`,
  makes only changes of `guarantee`, and ends in `post`.
  Each access may find any state that meets the invariant.
  Under `strict`, looking at guarded data counts as well.
-/
def Safe (strict : Prop) (inv : S → Prop) (guarantee : S → S → Prop) (post : List M → R → Prop) :
    LockProgram S M F R → List M → Prop
  | .ret r, held => post held r
  | .fail _, _ => True
  | .lock m rest, held => m ∉ held ∧ rest.Safe strict inv guarantee post (m :: held)
  | .unlock m rest, held =>
    m ∈ held ∧ rest.Safe strict inv guarantee post (held.erase m)
  | .access guard change rest, held =>
    ∀ t, inv t → (∀ m, guard t = some m → strict ∨ (change t).isSome → m ∈ held) ∧
      (∀ t', change t = some t' → guarantee t t') ∧ (rest t).Safe strict inv guarantee post held

section Rules

variable {strict : Prop} {inv : S → Prop} {guarantee : S → S → Prop} {post : List M → R → Prop}
  {post' : List M → R' → Prop}
  {held : List M}

/- A program that ends where the next one may start. -/
theorem safe_bind {prog : LockProgram S M F R} {next : R → LockProgram S M F R'} :
    (prog >>= next).Safe strict inv guarantee post' held ↔ prog.Safe strict inv guarantee
        (fun held r => (next r).Safe strict inv guarantee post' held)
        held := by
  change (prog.bind next).Safe strict inv guarantee post' held ↔ _
  induction prog generalizing held with
  | ret r => exact Iff.rfl
  | fail fault => exact Iff.rfl
  | lock m rest ih => exact and_congr_right fun _ => ih
  | unlock m rest ih => exact and_congr_right fun _ => ih
  | access guard change rest ih =>
    constructor
    · intro hSafe t hInv
      rcases hSafe t hInv with ⟨hGuard, hChange, hRest⟩
      exact ⟨hGuard, hChange, (ih t).mp hRest⟩
    · intro hSafe t hInv
      rcases hSafe t hInv with ⟨hGuard, hChange, hRest⟩
      exact ⟨hGuard, hChange, (ih t).mpr hRest⟩

variable {fault : F}

@[simp]
theorem safe_read {look : S → R} :
    (read look : LockProgram S M F R).Safe strict inv guarantee post held ↔
      ∀ t, inv t → post held (look t) := by
  constructor
  · intro hSafe t hInv
    exact (hSafe t hInv).2.2
  · intro hPost t hInv
    exact ⟨nofun, nofun, hPost t hInv⟩

variable {after : List M → Unit → Prop}

theorem safe_modify
    {change : S → S} (hChange : ∀ t, guarantee t (change t)) (hAfter : after held ()) :
    (modify change : LockProgram S M F Unit).Safe strict inv guarantee after held := by
  intro t hInv
  refine ⟨nofun, ?_, hAfter⟩
  rintro t' ⟨rfl⟩
  exact hChange t

theorem safe_tryModify {change : S → Option S}
    (hChange : ∀ t t', change t = some t' → guarantee t t') (hAfter : after held ()) :
    (tryModify change fault : LockProgram S M F Unit).Safe strict inv guarantee after held := by
  intro t hInv
  refine ⟨nofun, hChange t, ?_⟩
  dsimp only
  split
  · exact hAfter
  · trivial

theorem safe_assert {test : Bool} (hAfter : test = true → after held ()) :
    (assert test fault : LockProgram S M F Unit).Safe strict inv guarantee after held := by
  unfold assert
  split
  · exact hAfter ‹_›
  · trivial

end Rules

----
-- Soundness
----

/- Follow a trace with the locks held so far. -/
def Obeys (strict : Prop) : List M → List (Event M) → Bool → Prop
  | held, [], returned => returned = true → held = []
  | held, .lock m :: trace, returned => m ∉ held ∧ Obeys strict (m :: held) trace returned
  | held, .unlock m :: trace, returned => m ∈ held ∧ Obeys strict (held.erase m) trace returned
  | held, .look m :: trace, returned => (strict → m ∈ held) ∧ Obeys strict held trace returned
  | held, .update m :: trace, returned => m ∈ held ∧ Obeys strict held trace returned

section Soundness

variable {strict : Prop} {inv : S → Prop} {rely guarantee : S → S → Prop}
  {prog : LockProgram S M F R}
  {s : S}
  {held : List M}
  {trace past : List (Event M)}
  {returned : Bool}

theorem obeys_accessEvents {guard : Option M} {changed : Bool}
    (hGuard : ∀ m, guard = some m → strict ∨ changed = true → m ∈ held)
    (hTrace : Obeys strict held trace returned) :
    Obeys strict held (accessEvents guard changed ++ trace) returned := by
  cases guard with
  | none => exact hTrace
  | some m =>
    cases changed with
    | false => exact ⟨fun hStrict => hGuard m rfl (.inl hStrict), hTrace⟩
    | true => exact ⟨hGuard m rfl (.inr rfl), hTrace⟩

/- The invariant must survive what anyone does. -/
theorem Safe.obeys
    (hRely : ∀ s t, inv s → rely s t → inv t) (hGuarantee : ∀ s t, inv s → guarantee s t → inv t)
    (hSafe : prog.Safe strict inv guarantee (fun held _ => held = []) held)
    (hInv : inv s) (hPath : Path rely prog s trace returned) :
    Obeys strict held trace returned := by
  induction hPath generalizing held with
  | stop => exact nofun
  | ret => exact fun _ => hSafe
  | lock hStep _ ih => exact ⟨hSafe.1, ih hSafe.2 (hRely _ _ hInv hStep)⟩
  | unlock hStep _ ih => exact ⟨hSafe.1, ih hSafe.2 (hRely _ _ hInv hStep)⟩
  | @access guard change rest s t trace returned hStep _ ih =>
    have hNow := hRely _ _ hInv hStep
    rcases hSafe _ hNow with ⟨hGuard, hChange, hRest⟩
    refine obeys_accessEvents hGuard (ih hRest ?_)
    cases hNew : change t with
    | none => exact hNow
    | some t' => exact hGuarantee _ _ hNow (hChange t' hNew)

/- The locks held are those a trace leaves unreleased. -/
def Books (past : List (Event M)) (held : List M) : Prop :=
  ∀ m, past.count (.lock m) = past.count (.unlock m) + held.count m

section

variable (hBooks : Books past held)
include hBooks

theorem Books.held_iff (m : M) :
    Held past m ↔ m ∈ held := by
  unfold Held
  rw [hBooks m, ← List.count_pos_iff]
  omega

theorem Books.lock {m : M} :
    Books (past ++ [.lock m]) (m :: held) := by
  intro k
  have hPast := hBooks k
  by_cases hk : m = k
  · subst hk
    simp
    omega
  · simp [hk, hPast]

theorem Books.unlock {m : M} (hHeld : m ∈ held) :
    Books (past ++ [.unlock m]) (held.erase m) := by
  intro k
  have hPast := hBooks k
  by_cases hk : m = k
  · subst hk
    have hPos := List.count_pos_iff.mpr hHeld
    simp
    omega
  · simp [hk, hPast, List.count_erase_of_ne (Ne.symm hk)]

theorem Books.other
    {event : Event M} (hLock : ∀ m, event ≠ .lock m) (hUnlock : ∀ m, event ≠ .unlock m) :
    Books (past ++ [event]) held := by
  intro k
  simp [hBooks k, hLock k, hUnlock k]

end

/- A trace that has stopped early keeps the discipline so far. -/
theorem disciplined_nil : StrictlyDisciplined ([] : List (Event M)) false := by
  refine ⟨⟨?_, ?_, ?_, nofun⟩, ?_⟩ <;>
    · intro before after m hTrace
      cases before <;> cases hTrace

/- What is held after a part of the trace. -/
theorem Obeys.split {before after : List (Event M)}
    (hObeys : Obeys strict held (before ++ after) returned) (hBooks : Books past held) :
    ∃ held', Books (past ++ before) held' ∧ Obeys strict held' after returned := by
  induction before generalizing past held with
  | nil => exact ⟨held, by rwa [List.append_nil], hObeys⟩
  | cons event before ih =>
    rw [show past ++ event :: before = past ++ [event] ++ before by simp]
    cases event with
    | lock m => exact ih hObeys.2 hBooks.lock
    | unlock m => exact ih hObeys.2 (hBooks.unlock hObeys.1)
    | look m => exact ih hObeys.2 (hBooks.other nofun nofun)
    | update m => exact ih hObeys.2 (hBooks.other nofun nofun)

theorem Obeys.disciplined (hObeys : Obeys strict [] trace returned) :
    Disciplined trace returned := by
  have hEmpty : Books ([] : List (Event M)) [] := fun _ => rfl
  constructor
  · rintro before after m rfl
    rcases hObeys.split hEmpty with ⟨held, hBooks, hRest⟩
    exact (hBooks.held_iff m).mpr hRest.1
  · rintro before after m rfl
    rcases hObeys.split hEmpty with ⟨held, hBooks, hRest⟩
    exact (hBooks.held_iff m).mpr hRest.1
  · rintro before after m rfl hHeld
    rcases hObeys.split hEmpty with ⟨held, hBooks, hRest⟩
    exact hRest.1 ((hBooks.held_iff m).mp hHeld)
  · intro hReturned m
    have hWhole : Obeys strict [] (trace ++ []) returned := by rwa [List.append_nil]
    rcases hWhole.split hEmpty with ⟨held, hBooks, hRest⟩
    have hNone : held = [] := hRest hReturned
    subst hNone
    exact (hBooks m).symm

theorem Obeys.strictlyDisciplined (hObeys : Obeys True [] trace returned) :
    StrictlyDisciplined trace returned := by
  refine ⟨hObeys.disciplined, ?_⟩
  rintro before after m rfl
  have hEmpty : Books ([] : List (Event M)) [] := fun _ => rfl
  rcases hObeys.split hEmpty with ⟨held, hBooks, hRest⟩
  exact (hBooks.held_iff m).mpr (hRest.1 trivial)

/-
  Every path of a safe program keeps the discipline, where
  the invariant survives what anyone does.
-/
theorem Safe.disciplined (hSafe : prog.Safe strict inv guarantee (fun held _ => held = []) [])
    (hRely : ∀ s t, inv s → rely s t → inv t)
    (hGuarantee : ∀ s t, inv s → guarantee s t → inv t) (hInv : inv s)
    (hPath : Path rely prog s trace returned) :
    Disciplined trace returned :=
  (hSafe.obeys hRely hGuarantee hInv hPath).disciplined

theorem Safe.strictlyDisciplined (hSafe : prog.Safe True inv guarantee (fun held _ => held = []) [])
    (hRely : ∀ s t, inv s → rely s t → inv t)
    (hGuarantee : ∀ s t, inv s → guarantee s t → inv t) (hInv : inv s)
    (hPath : Path rely prog s trace returned) :
    StrictlyDisciplined trace returned :=
  (hSafe.obeys hRely hGuarantee hInv hPath).strictlyDisciplined

end Soundness

end LockProgram
