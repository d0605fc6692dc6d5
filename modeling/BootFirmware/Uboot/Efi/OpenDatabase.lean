import BootFirmware.Lib.TransitionSystem
import BootFirmware.Uboot.Efi.OpenProtocol

/-
  Exclusivity of the opens of a protocol.

  What matters is the history of opens and closes: an open
  counts until its agent closes it for its controller.  The
  entries back the opens as long as none of them is entered
  again with weaker attributes, and no driver opens what
  another driver has open.

  Key definitions include:
    * `unclosed` and `State.Exclusive`
    * `State.OnlyHooksRemoved`
    * `Careful` and `Undisturbed`
    * `Backed`

  The main result is `efi_open_database_exclusive`.
-/

----
-- The History
----

namespace Uboot.Efi.Protocols

open List

/- An open that succeeded, for some protocol on a handle. -/
structure Holding where
  agent : Handle
  controller : Handle
  attributes : Nat

/- The opens that have not been closed since. -/
def unclosed (handle : Handle)
    (protocol : Guid) : List Event → List Holding
  | [] => []
  | .opened h g agent controller attributes :: past =>
    if h = handle ∧ g = protocol then
      ⟨agent, controller, attributes⟩ :: unclosed handle protocol past
    else
      unclosed handle protocol past
  | .closed _ h g agent controller :: past =>
    if h = handle ∧ g = protocol then
      (unclosed handle protocol past).filter fun o =>
        decide ¬ (o.agent = agent ∧ o.controller = controller)
    else
      unclosed handle protocol past

/-
  What two agents may have open: one of them exclusively only
  if the other is no driver and not exclusive, and not both of
  them as drivers.
-/
def Compatible (a b : Nat) : Prop :=
  (hasBit a EXCLUSIVE = true → hasBit b EXCLUSIVE = false ∧ hasBit b BY_DRIVER = false) ∧
  ¬ (hasBit a BY_DRIVER = true ∧ hasBit b BY_DRIVER = true)

/- The opens of different agents are compatible. -/
def State.Exclusive (s : State) : Prop :=
  ∀ handle protocol, ∀ o ∈ unclosed handle protocol s.history,
      ∀ o' ∈ unclosed handle protocol s.history,
        o.agent ≠ o'.agent → Compatible o.attributes o'.attributes

/- Between two states only hooks removed entries. -/
def State.OnlyHooksRemoved (s s' : State) : Prop :=
  ∃ new, s'.history = new ++ s.history ∧ ∀ handle protocol, s'.openInfos handle protocol =
          (s.openInfos handle protocol).filter fun info =>
            decide (Event.closed true handle protocol info.agentHandle info.controllerHandle ∉ new)

----
-- Bits
----

theorem hasBit_or (a bit bit' : Nat) :
    hasBit a (bit ||| bit') = (hasBit a bit || hasBit a bit') := by
  unfold hasBit
  rw [Nat.and_or_distrib_left, Bool.eq_iff_iff]
  simp only [bne_iff_ne, ne_eq, Bool.or_eq_true, Nat.or_eq_zero_iff]
  exact not_and_or

/- The bits that decide on exclusivity. -/
def Covers (a b : Nat) : Prop :=
  (hasBit b EXCLUSIVE = true → hasBit a EXCLUSIVE = true) ∧
    (hasBit b BY_DRIVER = true → hasBit a BY_DRIVER = true)

/- Fewer bits are compatible with more. -/
theorem Compatible.weaken
    {a a' b b' : Nat} (hCompatible : Compatible a b) (hLeft : Covers a a') (hRight : Covers b b') :
    Compatible a' b' := by
  refine ⟨fun h => ?_, fun h => ?_⟩
  · have hBoth := hCompatible.1 (hLeft.1 h)
    constructor
    · cases hBit : hasBit b' EXCLUSIVE with
      | false => rfl
      | true => rw [hRight.1 hBit] at hBoth; cases hBoth.1
    · cases hBit : hasBit b' BY_DRIVER with
      | false => rfl
      | true => rw [hRight.2 hBit] at hBoth; cases hBoth.2
  · exact hCompatible.2 ⟨hLeft.2 h.1, hRight.2 h.2⟩

theorem compatible_of_neither {a b : Nat} (hNone : hasBit a (EXCLUSIVE ||| BY_DRIVER) = false) :
    Compatible a b ∧ Compatible b a := by
  rw [hasBit_or, Bool.or_eq_false_iff] at hNone
  refine ⟨⟨fun h => ?_, fun h => ?_⟩, fun _ => hNone, fun h => ?_⟩
  · rw [hNone.1] at h; cases h
  · rw [hNone.2] at h; cases h.1
  · rw [hNone.2] at h; cases h.2

/- An entry without a bit is covered by any. -/
theorem covers_of_neither {a b : Nat} (hNone : hasBit b (EXCLUSIVE ||| BY_DRIVER) = false) :
    Covers a b := by
  rw [hasBit_or, Bool.or_eq_false_iff] at hNone
  constructor
  · intro h; rw [hNone.1] at h; cases h
  · intro h; rw [hNone.2] at h; cases h

----
-- Entries
----

section Entries

variable {s : State} {handle h agent controller : Handle} {protocol g : Guid}
  {infos infos' : List OpenInfo}
  {event : Event}

theorem isFor_iff {info : OpenInfo} :
    info.isFor agent controller = true ↔
      info.agentHandle = agent ∧ info.controllerHandle = controller := by
  unfold OpenInfo.isFor
  rw [Bool.and_eq_true, beq_iff_eq, beq_iff_eq]

@[simp]
theorem record_history : (s.record handle protocol infos event).history = event :: s.history :=
  rfl

@[simp]
theorem record_self : (s.record handle protocol infos event).openInfos handle protocol = infos := by
  simp [State.record]

theorem record_other (hOther : ¬ (handle = h ∧ protocol = g)) :
    (s.record handle protocol infos event).openInfos h g = s.openInfos h g := by
  unfold State.record
  dsimp only
  by_cases hHandle : h = handle
  · subst hHandle
    rw [Function.update_self, Function.update_of_ne]
    exact fun hProtocol => hOther ⟨rfl, hProtocol.symm⟩
  · rw [Function.update_of_ne hHandle]

/- At most one entry for an agent and a controller. -/
def Keyed (infos : List OpenInfo) : Prop :=
  infos.Pairwise fun i j => ¬ i.isFor j.agentHandle j.controllerHandle

/- To erase the one entry is to drop all for its pair. -/
theorem eraseP_eq_filter (hKeyed : Keyed infos) :
    infos.eraseP (OpenInfo.isFor agent controller) =
      infos.filter fun info => !info.isFor agent controller := by
  induction infos with
  | nil => rfl
  | cons info rest ih =>
    rcases pairwise_cons.mp hKeyed with ⟨hFirst, hRest⟩
    by_cases hHere : info.isFor agent controller
    · rw [eraseP_cons_of_pos hHere, filter_cons_of_neg (by simp [hHere])]
      refine (filter_eq_self.mpr ?_).symm
      intro j hj
      rw [Bool.not_eq_true']
      rw [← Bool.not_eq_true]
      intro hAlso
      rcases isFor_iff.mp hHere with ⟨hA, hC⟩
      rcases isFor_iff.mp hAlso with ⟨hA', hC'⟩
      exact hFirst j hj (isFor_iff.mpr ⟨hA.trans hA'.symm, hC.trans hC'.symm⟩)
    · rw [eraseP_cons_of_neg hHere, filter_cons_of_pos (by simp [hHere]), ih hRest]

variable {attributes : Nat}

theorem reopen_eq_some (hFound : reopen agent controller attributes infos = some infos') :
    ∃ pre info post, infos = pre ++ info :: post ∧ info.isFor agent controller = true ∧ infos' =
          pre ++
            { info with
              attributes := attributes
              openCount := u32 (info.openCount + 1) } :: post := by
  induction infos generalizing infos' with
  | nil => cases hFound
  | cons info rest ih =>
    rw [reopen] at hFound
    split at hFound
    · rename_i rest' hRest
      rcases ih hRest with ⟨pre, i, post, rfl, hFor, rfl⟩
      exact ⟨info :: pre, i, post, rfl, hFor, (Option.some.inj hFound).symm⟩
    · split at hFound
      · rename_i hHere
        exact ⟨[], info, rest, rfl, hHere, (Option.some.inj hFound).symm⟩
      · cases hFound

theorem reopen_eq_none (hNone : reopen agent controller attributes infos = none) :
    ∀ info ∈ infos, info.isFor agent controller = false := by
  induction infos with
  | nil => exact fun _ h => absurd h not_mem_nil
  | cons info rest ih =>
    rw [reopen] at hNone
    split at hNone
    · cases hNone
    · rename_i hRest
      split at hNone
      · cases hNone
      · rename_i hHere
        exact forall_mem_cons.mpr ⟨Bool.eq_false_iff.mpr hHere, ih hRest⟩

end Entries

----
-- What The Calls Do
----

/-
  The entries after an open: one of its pair has its
  attributes, and the entries of the other pairs stay.
-/
structure Entered
    (agent controller : Handle) (attributes : Nat)
    (infos infos' : List OpenInfo) : Prop where
  entry : ∃ info ∈ infos', info.isFor agent controller = true ∧ info.attributes = attributes
  old_or_new :
    ∀ info ∈ infos',
      info ∈ infos ∨ info.isFor agent controller = true ∧ info.attributes = attributes
  kept : ∀ info ∈ infos, info ∈ infos' ∨ info.isFor agent controller = true
  keyed : Keyed infos → Keyed infos'
  fresh :
    (∀ info ∈ infos, info.isFor agent controller = false) →
      ∃ info, info.isFor agent controller = true ∧ infos' = infos ++ [info]

section Calls

variable {s : State} {handle agent controller driver : Handle} {protocol binding : Guid}
  {attributes : Nat}
  {infos infos' : List OpenInfo}

theorem Entered.of_reopen (hFound : reopen agent controller attributes infos = some infos') :
    Entered agent controller attributes infos infos' := by
  rcases reopen_eq_some hFound with ⟨pre, info, post, rfl, hFor, rfl⟩
  refine ⟨⟨_, mem_append_right pre mem_cons_self, hFor, rfl⟩, ?_, ?_, ?_, ?_⟩
  · intro i hi
    rcases mem_append.mp hi with hi | hi
    · exact Or.inl (mem_append_left _ hi)
    rcases mem_cons.mp hi with rfl | hi
    · exact Or.inr ⟨hFor, rfl⟩
    · exact Or.inl (mem_append_right _ (mem_cons_of_mem _ hi))
  · intro i hi
    rcases mem_append.mp hi with hi | hi
    · exact Or.inl (mem_append_left _ hi)
    rcases mem_cons.mp hi with rfl | hi
    · exact Or.inr hFor
    · exact Or.inl (mem_append_right _ (mem_cons_of_mem _ hi))
  · intro hKeyed
    rcases pairwise_append.mp hKeyed with ⟨hPre, hPost, hCross⟩
    rcases pairwise_cons.mp hPost with ⟨hHead, hPost⟩
    refine pairwise_append.mpr ⟨hPre, pairwise_cons.mpr ⟨hHead, hPost⟩, ?_⟩
    intro i hi j hj
    rcases mem_cons.mp hj with rfl | hj
    · exact hCross i hi info mem_cons_self
    · exact hCross i hi j (mem_cons_of_mem _ hj)
  · intro hNone
    have hNot := hNone info (mem_append_right pre mem_cons_self)
    rw [hFor] at hNot
    cases hNot

theorem Entered.of_create
    (hNone : reopen agent controller attributes infos = none) (hAgent : agent ≠ NULL) :
    Entered agent controller attributes infos
      (infos ++ [⟨agent, controller, attributes, 1, hAgent⟩]) := by
  have hFor : OpenInfo.isFor agent controller ⟨agent, controller, attributes, 1, hAgent⟩ = true :=
    isFor_iff.mpr ⟨rfl, rfl⟩
  refine ⟨⟨_, mem_append_right _ (mem_singleton.mpr rfl), hFor, rfl⟩, ?_,
    fun i hi => Or.inl (mem_append_left _ hi), ?_, fun _ => ⟨_, hFor, rfl⟩⟩
  · intro i hi
    rcases mem_append.mp hi with hi | hi
    · exact Or.inl hi
    · cases mem_singleton.mp hi
      exact Or.inr ⟨hFor, rfl⟩
  · intro hKeyed
    refine pairwise_append.mpr ⟨hKeyed, pairwise_singleton _ _, ?_⟩
    intro i hi j hj
    cases mem_singleton.mp hj
    exact Bool.eq_false_iff.mp (reopen_eq_none hNone i hi)

/- The end of an open: there is an entry, or no memory. -/
theorem enterOpenInfo_cases (hAgent : agent ≠ NULL) (calloc : Bool) :
    let r := enterOpenInfo s handle protocol agent controller attributes hAgent calloc
    (r.status = .outOfResources ∧ r.state = s) ∨ r.status = .success ∧ ∃ infos', r.state =
              s.record handle protocol infos'
                (.opened handle protocol agent controller attributes) ∧
            Entered agent controller attributes (s.openInfos handle protocol) infos' := by
  unfold enterOpenInfo
  dsimp only
  cases hReopen : reopen agent controller attributes (s.openInfos handle protocol) with
  | some infos' => exact Or.inr ⟨rfl, infos', rfl, Entered.of_reopen hReopen⟩
  | none =>
    cases calloc with
    | true => exact Or.inr ⟨rfl, _, rfl, Entered.of_create hReopen hAgent⟩
    | false => exact Or.inl ⟨rfl, rfl⟩

@[simp]
theorem efiSearchProtocol_record {h : Handle} {g : Guid} {event : Event} {p : Option Guid} :
    efiSearchProtocol (s.record h g infos event) handle p = efiSearchProtocol s handle p := by
  cases p <;> rfl

/- A close removes an entry that is there, or does nothing. -/
theorem efiCloseProtocol_of_ok (byHook : Bool) {p : Option Guid}
    (hAgent : agent ≠ NULL) (hSearch : efiSearchProtocol s handle p = .ok protocol) :
    let r := efiCloseProtocol byHook s handle p agent controller
    ((∀ info ∈ s.openInfos handle protocol, info.isFor agent controller = false) ∧ r.2 = s) ∨
    (∃ info ∈ s.openInfos handle protocol, info.isFor agent controller = true) ∧ r.2 =
        s.record handle protocol
          ((s.openInfos handle protocol).eraseP (OpenInfo.isFor agent controller))
          (.closed byHook handle protocol agent controller) := by
  unfold efiCloseProtocol
  rw [if_neg hAgent, hSearch]
  dsimp only
  by_cases hAny : (s.openInfos handle protocol).any (OpenInfo.isFor agent controller) = true
  · rw [if_pos hAny]
    exact Or.inr ⟨any_eq_true.mp hAny, rfl⟩
  · rw [if_neg hAny]
    refine Or.inl ⟨fun info hInfo => ?_, rfl⟩
    exact Bool.eq_false_iff.mpr fun h => hAny (any_eq_true.mpr ⟨info, hInfo, h⟩)

theorem efiCloseProtocol_state
    (byHook : Bool) (s : State) (handle : Handle) (p : Option Guid) (agent controller : Handle) :
    let r := efiCloseProtocol byHook s handle p agent controller
    r.2 = s ∨ ∃ guid, r.2 =
          s.record handle guid ((s.openInfos handle guid).eraseP (OpenInfo.isFor agent controller))
            (.closed byHook handle guid agent controller) := by
  by_cases hAgent : agent = NULL
  · unfold efiCloseProtocol
    rw [if_pos hAgent]
    exact Or.inl rfl
  cases hSearch : efiSearchProtocol s handle p with
  | error r =>
    unfold efiCloseProtocol
    rw [if_neg hAgent, hSearch]
    exact Or.inl rfl
  | ok guid =>
    rcases efiCloseProtocol_of_ok byHook hAgent hSearch with ⟨-, hSame⟩ | ⟨-, hErased⟩
    · exact Or.inl hSame
    · exact Or.inr ⟨guid, hErased⟩

theorem runCloses_append (closes closes' : List HookClose) (s : State) :
    runCloses driver (closes ++ closes') s =
      runCloses driver closes' (runCloses driver closes s) := by
  induction closes generalizing s with
  | nil => rfl
  | cons c closes ih => exact ih _

theorem efiSearchProtocol_runCloses {p : Option Guid} (closes : List HookClose) (s : State) :
    efiSearchProtocol (runCloses driver closes s) handle p = efiSearchProtocol s handle p := by
  induction closes generalizing s with
  | nil => rfl
  | cons c closes ih =>
    refine (ih _).trans ?_
    rcases efiCloseProtocol_state true s c.handle c.protocol
        driver c.controller with hSame | ⟨guid, hErased⟩
    · rw [hSame]
    · rw [hErased, efiSearchProtocol_record]

theorem search_error
    {p : Option Guid} {r : Status} (hSearch : efiSearchProtocol s handle p = .error r) :
    r = .invalidParameter ∨ r = .notFound := by
  cases p with
  | none =>
    cases hSearch
    exact Or.inl rfl
  | some guid =>
    simp only [efiSearchProtocol] at hSearch
    split_ifs at hSearch
    · exact Or.inl (Except.error.inj hSearch).symm
    · exact Or.inr (Except.error.inj hSearch).symm
    · exact Or.inl (Except.error.inj hSearch).symm

theorem efiCloseProtocol_ne_denied {byHook : Bool} {p : Option Guid} :
    (efiCloseProtocol byHook s handle p agent controller).1 ≠ .accessDenied := by
  unfold efiCloseProtocol
  split
  · exact nofun
  split
  · rename_i r hSearch
    rcases search_error hSearch with rfl | rfl
    all_goals exact nofun
  · dsimp only
    split
    all_goals exact nofun

theorem guid_of_search {p : Option Guid} (hSearch : efiSearchProtocol s handle p = .ok protocol) :
    p = some protocol := by
  cases p with
  | none => cases hSearch
  | some guid =>
    simp only [efiSearchProtocol] at hSearch
    split_ifs at hSearch
    exact congrArg some (Except.ok.inj hSearch)

variable {hasInterface : Bool}

theorem checkOpen_ne_success {p : Option Guid} :
    checkOpen s handle p hasInterface agent controller attributes ≠ .error .success := by
  unfold checkOpen
  intro h
  split_ifs at h
  · cases h
  · rcases search_error h with hStatus | hStatus
    all_goals cases hStatus
  · cases h

theorem search_of_checkOpen {p : Option Guid}
    (hCheck : checkOpen s handle p hasInterface agent controller attributes = .ok protocol) :
    efiSearchProtocol s handle p = .ok protocol := by
  unfold checkOpen at hCheck
  split_ifs at hCheck
  exact hCheck

theorem efiProtocolOpen_get
    {prepare : State → Option State} {calloc : Bool} (hAgent : agent ≠ NULL) :
    efiProtocolOpen prepare s handle protocol agent controller GET_PROTOCOL calloc =
      some (enterOpenInfo s handle protocol agent controller GET_PROTOCOL hAgent calloc) := by
  have hAny :
      ((s.openInfos handle protocol).any fun info =>
        info.agentHandle == agent &&
          (hasBit GET_PROTOCOL BY_DRIVER && info.attributes == GET_PROTOCOL)) = false := by
    refine any_eq_false.mpr fun info _ => ?_
    have hBit : hasBit GET_PROTOCOL BY_DRIVER = false := rfl
    rw [hBit, Bool.false_and, Bool.and_false]
    exact Bool.false_ne_true
  have hNeither : hasBit GET_PROTOCOL (EXCLUSIVE ||| BY_DRIVER) = false := rfl
  have hShared : hasBit GET_PROTOCOL EXCLUSIVE = false := rfl
  unfold efiProtocolOpen
  rw [dif_neg hAgent]
  dsimp only
  rw [hAny, hNeither, Bool.and_false, hShared, if_neg Bool.false_ne_true, if_neg Bool.false_ne_true,
    if_neg Bool.false_ne_true]

/-
  What a disconnect does: nothing, or an open of the driver's
  binding protocol, what the hooks close, and a close.
-/
theorem efiDisconnectController_cases
    {around : Surroundings} {r : Status × State} (hDriver : driver ≠ NULL)
    (hRun : efiDisconnectController binding s controller driver around = some r) :
    r.2 = s ∨ efiSearchProtocol s driver (some binding) = .ok binding ∧ ∃ infos' closes,
          Entered driver NULL GET_PROTOCOL (s.openInfos driver binding) infos' ∧
            (∀ c ∈ closes, ∃ children, c ∈ (around.stop children).closes) ∧ r.2 =
              (efiCloseProtocol false
                (runCloses driver closes
                  (s.record driver binding infos'
                    (.opened driver binding driver NULL GET_PROTOCOL)))
                driver (some binding) driver NULL).2 := by
  unfold efiDisconnectController at hRun
  split at hRun
  · cases hRun
    exact Or.inl rfl
  unfold efiOpenProtocol at hRun
  cases hCheck : checkOpen s driver (some binding) true driver NULL GET_PROTOCOL with
  | error e =>
    rw [hCheck] at hRun
    dsimp only at hRun
    have hFailed : e ≠ .success := fun h => checkOpen_ne_success (h ▸ hCheck)
    rw [if_pos hFailed] at hRun
    cases hRun
    exact Or.inl rfl
  | ok guid =>
    have hSearch := search_of_checkOpen hCheck
    cases guid_of_search hSearch
    rw [hCheck] at hRun
    dsimp only at hRun
    rw [efiProtocolOpen_get hDriver] at hRun
    dsimp only at hRun
    rcases @enterOpenInfo_cases s driver driver NULL binding
        GET_PROTOCOL hDriver around.callocInfo with
      ⟨hStatus, hState⟩ | ⟨hStatus, infos', hState, hEntered⟩
    · rw [hStatus, if_pos (by decide)] at hRun
      cases hRun
      exact Or.inl hState
    · rw [hStatus, if_neg (by decide), hState, ← runCloses_append] at hRun
      generalize
        (if around.callocChildren = true then
          efiGetChildControllers s controller driver
        else []) = children at hRun
      have hFirst :
          ∀ c ∈ (if children ≠ [] then around.stop children else Stop.mk [] false).closes,
            ∃ children, c ∈ (around.stop children).closes := by
        intro c hc
        split at hc
        · exact ⟨_, hc⟩
        · cases hc
      generalize (if children ≠ [] then around.stop children
        else Stop.mk [] false) = first at hRun hFirst
      have hFrom :
          ∀ c ∈ first.closes ++ (around.stop []).closes,
            ∃ children, c ∈ (around.stop children).closes :=
        fun c hc => (mem_append.mp hc).elim (hFirst c) fun hLast => ⟨[], hLast⟩
      split at hRun
      all_goals
        cases hRun
        exact Or.inr ⟨hSearch, infos', _, hEntered, hFrom, rfl⟩

/- A disconnect itself always has an answer. -/
theorem efiDisconnectController_ne_none {around : Surroundings} (hDriver : driver ≠ NULL) :
    efiDisconnectController binding s controller driver around ≠ none := by
  unfold efiDisconnectController efiOpenProtocol
  split
  · exact nofun
  cases checkOpen s driver (some binding) true driver NULL GET_PROTOCOL with
  | error e =>
    dsimp only
    split_ifs
    all_goals exact nofun
  | ok guid =>
    dsimp only
    rw [efiProtocolOpen_get hDriver]
    dsimp only
    split_ifs
    all_goals exact nofun

/- A close leaves the entries of other pairs. -/
theorem mem_efiCloseProtocol {byHook : Bool} {h : Handle} {p : Option Guid} {info : OpenInfo}
    (hOther : ¬ (h = handle ∧ p = some protocol ∧ info.isFor agent controller = true))
    (hInfo : info ∈ s.openInfos handle protocol) :
    info ∈ (efiCloseProtocol byHook s h p agent controller).2.openInfos handle protocol := by
  by_cases hAgent : agent = NULL
  · unfold efiCloseProtocol
    rwa [if_pos hAgent]
  cases hSearch : efiSearchProtocol s h p with
  | error r =>
    unfold efiCloseProtocol
    rwa [if_neg hAgent, hSearch]
  | ok guid =>
    rcases efiCloseProtocol_of_ok byHook hAgent hSearch with ⟨-, hSame⟩ | ⟨-, hErased⟩
    · rwa [hSame]
    rw [hErased]
    by_cases hHere : h = handle ∧ guid = protocol
    · rcases hHere with ⟨rfl, rfl⟩
      rw [record_self]
      exact (mem_eraseP_of_neg fun hFor => hOther ⟨rfl, guid_of_search hSearch, hFor⟩).mpr
        hInfo
    · rwa [record_other hHere]

theorem mem_runCloses {info : OpenInfo} {closes : List HookClose}
    (hOther :
      ∀ c ∈ closes,
        ¬ (c.handle = handle ∧ c.protocol = some protocol ∧ info.isFor driver c.controller = true))
    (hInfo : info ∈ s.openInfos handle protocol) :
    info ∈ (runCloses driver closes s).openInfos handle protocol := by
  induction closes generalizing s with
  | nil => exact hInfo
  | cons c closes ih =>
    rcases forall_mem_cons.mp hOther with ⟨hFirst, hRest⟩
    exact ih hRest (mem_efiCloseProtocol hFirst hInfo)

/-
  The entry that a disconnect is for stays, unless the hooks
  close it.
-/
theorem efiDisconnectController_keeps
    {around : Surroundings} {r : Status × State} (hDriver : driver ≠ NULL)
    (hLeft :
      ∀ children, ∀ c ∈ (around.stop children).closes,
        ¬ (c.handle = handle ∧ c.protocol = some protocol ∧ c.controller = controller))
    (hRun : efiDisconnectController binding s controller driver around = some r)
    (hHere : ∃ info ∈ s.openInfos handle protocol, info.isFor driver controller = true) :
    ∃ info ∈ r.2.openInfos handle protocol, info.isFor driver controller = true := by
  by_cases hNull : controller = NULL
  · unfold efiDisconnectController at hRun
    have hNoObject : efiSearchObj s controller = false :=
      decide_eq_false (hNull ▸ s.objects_ne_null)
    rw [hNoObject, if_pos Bool.false_ne_true] at hRun
    cases hRun
    exact hHere
  rcases efiDisconnectController_cases hDriver hRun with
    hSame | ⟨-, infos', closes, hEntered, hFrom, hState⟩
  · rwa [hSame]
  have hOpened :
      ∃ info ∈ (s.record driver binding infos'
            (.opened driver binding driver NULL GET_PROTOCOL)).openInfos handle protocol,
        info.isFor driver controller = true := by
    rcases hHere with ⟨info, hInfo, hFor⟩
    by_cases hBinding : driver = handle ∧ binding = protocol
    · rcases hBinding with ⟨rfl, rfl⟩
      rw [record_self]
      refine ⟨info, (hEntered.kept info hInfo).resolve_right fun hOwn => hNull ?_, hFor⟩
      exact (isFor_iff.mp hFor).2.symm.trans (isFor_iff.mp hOwn).2
    · rw [record_other hBinding]
      exact ⟨info, hInfo, hFor⟩
  rcases hOpened with ⟨info, hInfo, hFor⟩
  refine ⟨info, ?_, hFor⟩
  rw [hState]
  refine mem_efiCloseProtocol (fun h => hNull ?_) (mem_runCloses ?_ hInfo)
  · exact (isFor_iff.mp hFor).2.symm.trans (isFor_iff.mp h.2.2).2
  · rintro c hc ⟨hHandle, hProtocol, hOwn⟩
    rcases hFrom c hc with ⟨children, hChildren⟩
    exact hLeft children c hChildren
      ⟨hHandle, hProtocol, (isFor_iff.mp hOwn).2.symm.trans (isFor_iff.mp hFor).2⟩

end Calls

----
-- Entries Back The Opens
----

/-
  Every open that is not closed has its entry.  One that is
  not set aside has an entry with its bits, and the entries of
  different agents are compatible.
-/
structure Backed
    (aside : Handle → Guid → Holding → Prop)
    (s : State) : Prop where
  keyed : ∀ h g, Keyed (s.openInfos h g)
  linked :
    ∀ h g, ∀ o ∈ unclosed h g s.history,
      ∃ info ∈ s.openInfos h g, info.isFor o.agent o.controller = true
  covered :
    ∀ h g, ∀ o ∈ unclosed h g s.history, ¬ aside h g o → ∃ info ∈ s.openInfos h g,
        info.isFor o.agent o.controller = true ∧ Covers info.attributes o.attributes
  apart :
    ∀ h g, ∀ i ∈ s.openInfos h g, ∀ j ∈ s.openInfos h g,
      i.agentHandle ≠ j.agentHandle → Compatible i.attributes j.attributes

/- No open is set aside. -/
def Nothing (_ : Handle) (_ : Guid) (_ : Holding) : Prop :=
  False

variable {handle h agent controller : Handle} {protocol g : Guid}

variable {past : List Event}

theorem mem_unclosed_opened {attributes : Nat} {o : Holding} :
    o ∈ unclosed handle protocol (.opened h g agent controller attributes :: past) ↔
      ((h = handle ∧ g = protocol) ∧ o = ⟨agent, controller, attributes⟩) ∨
        o ∈ unclosed handle protocol past := by
  rw [unclosed]
  by_cases hHere : h = handle ∧ g = protocol
  · rw [if_pos hHere, mem_cons]
    exact or_congr_left (and_iff_right hHere).symm
  · rw [if_neg hHere]
    exact (or_iff_right fun h => hHere h.1).symm

theorem mem_unclosed_closed {byHook : Bool} {o : Holding} :
    o ∈ unclosed handle protocol (.closed byHook h g agent controller :: past) ↔
      o ∈ unclosed handle protocol past ∧
        ¬ ((h = handle ∧ g = protocol) ∧ o.agent = agent ∧ o.controller = controller) := by
  rw [unclosed]
  by_cases hHere : h = handle ∧ g = protocol
  · rw [if_pos hHere, mem_filter, decide_eq_true_iff, and_iff_right hHere]
  · rw [if_neg hHere]
    exact (and_iff_left fun h => hHere h.1).symm

section Backing

variable {aside : Handle → Guid → Holding → Prop} {s : State}
  {handle agent controller driver : Handle}
  {protocol binding : Guid}
  {attributes : Nat}
  {infos' : List OpenInfo}

/- With nothing set aside the opens are compatible. -/
theorem Backed.exclusive (hBacked : Backed Nothing s) :
    s.Exclusive := by
  intro h g o ho o' ho' hOther
  rcases hBacked.covered h g o ho id with ⟨i, hi, hFor, hCovers⟩
  rcases hBacked.covered h g o' ho' id with ⟨j, hj, hFor', hCovers'⟩
  have hAgents : i.agentHandle ≠ j.agentHandle := by
    rw [(isFor_iff.mp hFor).1, (isFor_iff.mp hFor').1]
    exact hOther
  exact (hBacked.apart h g i hi j hj hAgents).weaken hCovers hCovers'

/- An entry of another pair survives. -/
theorem mem_eraseP_of_other {infos : List OpenInfo} {info : OpenInfo} {o : Holding}
    (hInfo : info ∈ infos) (hFor : info.isFor o.agent o.controller = true)
    (hOther : ¬ (o.agent = agent ∧ o.controller = controller)) :
    info ∈ infos.eraseP (OpenInfo.isFor agent controller) := by
  refine (mem_eraseP_of_neg ?_).mpr hInfo
  intro hAlso
  rcases isFor_iff.mp hFor with ⟨hA, hC⟩
  rcases isFor_iff.mp hAlso with ⟨hA', hC'⟩
  exact hOther ⟨hA.symm.trans hA', hC.symm.trans hC'⟩

/- Removing an entry and its opens. -/
theorem Backed.erase (hBacked : Backed aside s) (byHook : Bool) :
    Backed aside
      (s.record handle protocol
        ((s.openInfos handle protocol).eraseP (OpenInfo.isFor agent controller))
        (.closed byHook handle protocol agent controller)) := by
  have hSub :
      ∀ h g, ((s.record handle protocol
          ((s.openInfos handle protocol).eraseP (OpenInfo.isFor agent controller))
          (.closed byHook handle protocol agent controller)).openInfos h g).Sublist
          (s.openInfos h g) := by
    intro h g
    by_cases hHere : handle = h ∧ protocol = g
    · rcases hHere with ⟨rfl, rfl⟩
      rw [record_self]
      exact eraseP_sublist
    · rw [record_other hHere]
  have hStays :
      ∀ h g, ∀ info ∈ s.openInfos h g, ∀ o : Holding, info.isFor o.agent o.controller = true →
        ¬ ((handle = h ∧ protocol = g) ∧ o.agent = agent ∧ o.controller = controller) → info ∈
          (s.record handle protocol
            ((s.openInfos handle protocol).eraseP (OpenInfo.isFor agent controller))
            (.closed byHook handle protocol agent controller)).openInfos h g := by
    intro h g info hInfo o hFor hNot
    by_cases hHere : handle = h ∧ protocol = g
    · rcases hHere with ⟨rfl, rfl⟩
      rw [record_self]
      exact mem_eraseP_of_other hInfo hFor fun h => hNot ⟨⟨rfl, rfl⟩, h⟩
    · rwa [record_other hHere]
  refine ⟨fun h g => (hBacked.keyed h g).sublist (hSub h g), ?_, ?_, ?_⟩
  · intro h g o ho
    rcases mem_unclosed_closed.mp ho with ⟨hOpen, hNot⟩
    rcases hBacked.linked h g o hOpen with ⟨info, hInfo, hFor⟩
    exact ⟨info, hStays h g info hInfo o hFor hNot, hFor⟩
  · intro h g o ho hAside
    rcases mem_unclosed_closed.mp ho with ⟨hOpen, hNot⟩
    rcases hBacked.covered h g o hOpen hAside with ⟨info, hInfo, hFor, hCovers⟩
    exact ⟨info, hStays h g info hInfo o hFor hNot, hFor, hCovers⟩
  · intro h g i hi j hj
    exact hBacked.apart h g i ((hSub h g).subset hi) j ((hSub h g).subset hj)

theorem Backed.close (hBacked : Backed aside s) (byHook : Bool) (p : Option Guid) :
    Backed aside (efiCloseProtocol byHook s handle p agent controller).2 := by
  rcases efiCloseProtocol_state byHook s handle p agent controller with hSame | ⟨guid, hErased⟩
  · rw [hSame]
    exact hBacked
  · rw [hErased]
    exact hBacked.erase byHook

theorem Backed.runCloses (closes : List HookClose) (hBacked : Backed aside s) :
    Backed aside (runCloses driver closes s) := by
  induction closes generalizing s with
  | nil => exact hBacked
  | cons c closes ih => exact ih (hBacked.close true c.protocol)

/-
  An open that the other agents' entries are compatible with,
  and that leaves its own entry the bits of before.
-/
theorem Backed.enter {aside' : Handle → Guid → Holding → Prop} (hBacked : Backed aside s)
    (hEntered : Entered agent controller attributes (s.openInfos handle protocol) infos')
    (hOthers :
      ∀ info ∈ s.openInfos handle protocol, info.agentHandle ≠ agent →
          Compatible attributes info.attributes ∧ Compatible info.attributes attributes)
    (hOwn :
      ∀ info ∈ s.openInfos handle protocol, ∀ o : Holding, info.isFor agent controller = true →
        info.isFor o.agent o.controller = true →
        ¬ aside' handle protocol o → Covers attributes info.attributes)
    (hAside : ∀ h g o, aside h g o → aside' h g o) :
    Backed aside'
      (s.record handle protocol infos' (.opened handle protocol agent controller attributes)) := by
  rcases hEntered.entry with ⟨e, he, hFor, hAttributes⟩
  have hNew :
      ∀ o : Holding,
        o.agent = agent → o.controller = controller → e.isFor o.agent o.controller = true := by
    rintro o rfl rfl
    exact hFor
  refine ⟨?_, ?_, ?_, ?_⟩
  · intro h g
    by_cases hHere : handle = h ∧ protocol = g
    · rcases hHere with ⟨rfl, rfl⟩
      rw [record_self]
      exact hEntered.keyed (hBacked.keyed _ _)
    · rw [record_other hHere]
      exact hBacked.keyed h g
  · intro h g o ho
    rw [record_history, mem_unclosed_opened] at ho
    by_cases hHere : handle = h ∧ protocol = g
    swap
    · rw [record_other hHere]
      exact hBacked.linked h g o (ho.resolve_left fun h => hHere h.1)
    rcases hHere with ⟨rfl, rfl⟩
    rw [record_self]
    rcases ho with ⟨-, rfl⟩ | ho
    · exact ⟨e, he, hFor⟩
    rcases hBacked.linked _ _ o ho with ⟨info, hInfo, hOld⟩
    rcases hEntered.kept info hInfo with hKept | hSame
    · exact ⟨info, hKept, hOld⟩
    · refine ⟨e, he, hNew o ?_ ?_⟩
      · exact (isFor_iff.mp hOld).1.symm.trans (isFor_iff.mp hSame).1
      · exact (isFor_iff.mp hOld).2.symm.trans (isFor_iff.mp hSame).2
  · intro h g o ho hIn
    rw [record_history, mem_unclosed_opened] at ho
    by_cases hHere : handle = h ∧ protocol = g
    swap
    · rw [record_other hHere]
      exact hBacked.covered h g o (ho.resolve_left fun h => hHere h.1)
        fun h' => hIn (hAside h g o h')
    rcases hHere with ⟨rfl, rfl⟩
    rw [record_self]
    rcases ho with ⟨-, rfl⟩ | ho
    · exact ⟨e, he, hFor, by rw [hAttributes]; exact ⟨id, id⟩⟩
    rcases hBacked.covered _ _ o ho (fun h' => hIn (hAside _ _ o h')) with
      ⟨info, hInfo, hOld, hCovers⟩
    rcases hEntered.kept info hInfo with hKept | hSame
    · exact ⟨info, hKept, hOld, hCovers⟩
    · have hMore := hOwn info hInfo o hSame hOld hIn
      refine ⟨e, he, hNew o ?_ ?_, ?_⟩
      · exact (isFor_iff.mp hOld).1.symm.trans (isFor_iff.mp hSame).1
      · exact (isFor_iff.mp hOld).2.symm.trans (isFor_iff.mp hSame).2
      · rw [hAttributes]
        exact ⟨fun h => hMore.1 (hCovers.1 h), fun h => hMore.2 (hCovers.2 h)⟩
  · intro h g i hi j hj hAgents
    by_cases hHere : handle = h ∧ protocol = g
    swap
    · rw [record_other hHere] at hi hj
      exact hBacked.apart h g i hi j hj hAgents
    rcases hHere with ⟨rfl, rfl⟩
    rw [record_self] at hi hj
    rcases hEntered.old_or_new i hi with
      hi | ⟨hForI, hBitsI⟩
    · rcases hEntered.old_or_new j hj with
        hj | ⟨hForJ, hBitsJ⟩
      · exact hBacked.apart _ _ i hi j hj hAgents
      · rw [hBitsJ]
        rw [(isFor_iff.mp hForJ).1] at hAgents
        exact (hOthers i hi hAgents).2
    · rcases hEntered.old_or_new j hj with
        hj | ⟨hForJ, hBitsJ⟩
      · rw [hBitsI]
        rw [(isFor_iff.mp hForI).1] at hAgents
        exact (hOthers j hj hAgents.symm).1
      · rw [(isFor_iff.mp hForI).1, (isFor_iff.mp hForJ).1] at hAgents
        exact absurd rfl hAgents

theorem Backed.nothing
    (hBacked : Backed aside s) (hNone : ∀ h g, ∀ o ∈ unclosed h g s.history, ¬ aside h g o) :
    Backed Nothing s :=
  ⟨hBacked.keyed, hBacked.linked, fun h g o ho _ => hBacked.covered h g o ho (hNone h g o ho),
    hBacked.apart⟩

theorem efiCloseProtocol_sublist (byHook : Bool) (s : State) (handle : Handle) (p : Option Guid)
    (agent controller h : Handle) (g : Guid) :
    ((efiCloseProtocol byHook s handle p agent controller).2.openInfos h g).Sublist
      (s.openInfos h g) := by
  rcases efiCloseProtocol_state byHook s handle p agent controller with hSame | ⟨guid, hErased⟩
  · rw [hSame]
  · rw [hErased]
    by_cases hHere : handle = h ∧ guid = g
    · rcases hHere with ⟨rfl, rfl⟩
      rw [record_self]
      exact eraseP_sublist
    · rw [record_other hHere]

theorem runCloses_sublist (closes : List HookClose) (s : State) (h : Handle) (g : Guid) :
    ((runCloses driver closes s).openInfos h g).Sublist (s.openInfos h g) := by
  induction closes generalizing s with
  | nil => exact List.Sublist.refl _
  | cons c closes ih =>
    exact (ih _).trans (efiCloseProtocol_sublist true s c.handle c.protocol driver c.controller h g)

/-
  A disconnect keeps the opens backed, also where its own open
  takes the entry of an earlier one, since it closes that; and
  it leaves no new entry behind.
-/
theorem Backed.disconnect {around : Surroundings} {r : Status × State}
    (hBacked : Backed Nothing s) (hDriver : driver ≠ NULL)
    (hRun : efiDisconnectController binding s controller driver around = some r) :
    Backed Nothing r.2 ∧ ∀ h g, r.2.openInfos h g ⊆ s.openInfos h g := by
  rcases efiDisconnectController_cases hDriver hRun with
    hSame | ⟨hSearch, infos', closes, hEntered, -, hState⟩
  · rw [hSame]
    exact ⟨hBacked, fun h g => List.Subset.refl _⟩
  let own : Handle → Guid → Holding → Prop := fun h g o =>
    (driver = h ∧ binding = g) ∧ o.agent = driver ∧ o.controller = NULL
  have hOpened :
      Backed own
        (s.record driver binding infos' (.opened driver binding driver NULL GET_PROTOCOL)) := by
    refine hBacked.enter hEntered (fun info _ _ => compatible_of_neither rfl) ?_
      fun h g o hNone => hNone.elim
    intro info _ o hFor hFor' hIn
    rcases isFor_iff.mp hFor with ⟨hA, hC⟩
    rcases isFor_iff.mp hFor' with ⟨hA', hC'⟩
    exact absurd ⟨⟨rfl, rfl⟩, hA'.symm.trans hA, hC'.symm.trans hC⟩ hIn
  have hClosed := @Backed.runCloses _ _ driver closes hOpened
  have hSub :=
    @runCloses_sublist driver closes
      (s.record driver binding infos' (.opened driver binding driver NULL GET_PROTOCOL))
  have hSearch' :
      efiSearchProtocol
          (Protocols.runCloses driver closes
            (s.record driver binding infos' (.opened driver binding driver NULL GET_PROTOCOL)))
          driver (some binding) =
        .ok binding := by
    rw [efiSearchProtocol_runCloses, efiSearchProtocol_record]
    exact hSearch
  generalize
    Protocols.runCloses driver closes
      (s.record driver binding infos' (.opened driver binding driver NULL GET_PROTOCOL)) =
      s' at hState hClosed hSub hSearch'
  have hOld :
      ∀ h g, ∀ info ∈ s'.openInfos h g,
        (driver = h ∧ binding = g → info.isFor driver NULL = false) → info ∈ s.openInfos h g := by
    intro h g info hInfo hNot
    have hIn := (hSub h g).subset hInfo
    by_cases hHere : driver = h ∧ binding = g
    · have hNo := hNot hHere
      rcases hHere with ⟨rfl, rfl⟩
      rw [record_self] at hIn
      rcases hEntered.old_or_new info hIn with
        hOld | ⟨hFor, -⟩
      · exact hOld
      · rw [hFor] at hNo
        cases hNo
    · rwa [record_other hHere] at hIn
  rw [hState]
  rcases @efiCloseProtocol_of_ok s' driver driver NULL binding
      false (some binding) hDriver hSearch' with
    ⟨hNone, hSame⟩ | ⟨-, hErased⟩
  · rw [hSame]
    refine ⟨hClosed.nothing ?_, ?_⟩
    · rintro h g o ho ⟨⟨rfl, rfl⟩, hA, hC⟩
      rcases hClosed.linked _ _ o ho with ⟨info, hInfo, hFor⟩
      have hNot := hNone info hInfo
      rw [hA, hC, hNot] at hFor
      cases hFor
    · intro h g info hInfo
      refine hOld h g info hInfo ?_
      rintro ⟨rfl, rfl⟩
      exact hNone info hInfo
  · rw [hErased]
    refine ⟨(hClosed.erase false).nothing ?_, ?_⟩
    · intro h g o ho hOwn
      exact (mem_unclosed_closed.mp ho).2 hOwn
    · intro h g info hInfo
      by_cases hHere : driver = h ∧ binding = g
      · rcases hHere with ⟨rfl, rfl⟩
        rw [record_self, eraseP_eq_filter (hClosed.keyed _ _)] at hInfo
        rcases mem_filter.mp hInfo with ⟨hIn, hNot⟩
        exact hOld _ _ info hIn fun _ => Bool.not_eq_true' _ ▸ hNot
      · rw [record_other hHere] at hInfo
        exact hOld h g info hInfo fun h => absurd h hHere

theorem Backed.disconnectDrivers
    {around : Handle → Handle → Surroundings} {items : List OpenInfo} {s' : State}
    (hBacked : Backed Nothing s)
    (hRun : disconnectDrivers binding around handle protocol items s = some s') :
    Backed Nothing s' ∧ ∀ h g, s'.openInfos h g ⊆ s.openInfos h g := by
  induction items generalizing s with
  | nil =>
    cases hRun
    exact ⟨hBacked, fun h g => List.Subset.refl _⟩
  | cons info rest ih =>
    unfold Protocols.disconnectDrivers at hRun
    dsimp only at hRun
    split at hRun
    · exact ih hBacked hRun
    rename_i item hItem
    split_ifs at hRun with hType
    swap
    · exact ih hBacked hRun
    split at hRun
    · cases hRun
    rename_i r hDisconnect
    split_ifs at hRun
    rcases hBacked.disconnect item.agent_ne_null hDisconnect with ⟨hNext, hSub⟩
    rcases ih hNext hRun with ⟨hDone, hSub'⟩
    exact ⟨hDone, fun h g => List.Subset.trans (hSub' h g) (hSub h g)⟩

end Backing

----
-- What Only The Hooks Remove
----

section Hooks

variable {s s' s'' : State} {handle agent controller driver : Handle} {protocol binding : Guid}

theorem State.OnlyHooksRemoved.refl (s : State) :
    s.OnlyHooksRemoved s := by
  refine ⟨[], rfl, fun h g => ?_⟩
  refine (filter_eq_self.mpr fun info _ => ?_).symm
  exact decide_eq_true not_mem_nil

theorem State.OnlyHooksRemoved.trans
    (hFirst : s.OnlyHooksRemoved s') (hNext : s'.OnlyHooksRemoved s'') :
    s.OnlyHooksRemoved s'' := by
  rcases hFirst with ⟨new, hHistory, hInfos⟩
  rcases hNext with ⟨new', hHistory', hInfos'⟩
  refine ⟨new' ++ new, ?_, fun h g => ?_⟩
  · rw [hHistory', hHistory, append_assoc]
  · rw [hInfos', hInfos, filter_filter]
    refine filter_congr fun info _ => ?_
    simp only [mem_append, not_or, Bool.decide_and]

theorem State.OnlyHooksRemoved.close (hKeyed : ∀ h g, Keyed (s.openInfos h g)) (p : Option Guid) :
    s.OnlyHooksRemoved (efiCloseProtocol true s handle p agent controller).2 := by
  rcases efiCloseProtocol_state true s handle p agent controller with hSame | ⟨guid, hErased⟩
  · rw [hSame]
    exact .refl s
  rw [hErased]
  refine ⟨[.closed true handle guid agent controller], rfl, fun h g => ?_⟩
  by_cases hHere : handle = h ∧ guid = g
  · rcases hHere with ⟨rfl, rfl⟩
    rw [record_self, eraseP_eq_filter (hKeyed _ _)]
    refine filter_congr fun info _ => ?_
    rw [Bool.eq_iff_iff, Bool.not_eq_true', ← Bool.not_eq_true, isFor_iff, decide_eq_true_iff,
      mem_singleton]
    refine not_congr ⟨?_, ?_⟩
    · rintro ⟨rfl, rfl⟩
      rfl
    · intro h
      cases h
      exact ⟨rfl, rfl⟩
  · rw [record_other hHere]
    refine (filter_eq_self.mpr fun info _ => ?_).symm
    refine decide_eq_true fun h => hHere ?_
    cases mem_singleton.mp h
    exact ⟨rfl, rfl⟩

theorem State.OnlyHooksRemoved.runCloses
    (closes : List HookClose) (hKeyed : ∀ h g, Keyed (s.openInfos h g)) :
    s.OnlyHooksRemoved (runCloses driver closes s) := by
  induction closes generalizing s with
  | nil => exact .refl s
  | cons c closes ih =>
    refine .trans (.close hKeyed c.protocol) (ih ?_)
    exact fun h g => (hKeyed h g).sublist
      (efiCloseProtocol_sublist true s c.handle c.protocol driver c.controller h g)

theorem efiCloseProtocol_own (hKeyed : ∀ h g, Keyed (s.openInfos h g)) (hDriver : driver ≠ NULL)
    (hSearch : efiSearchProtocol s driver (some binding) = .ok binding) :
    let s' := (efiCloseProtocol false s driver (some binding) driver NULL).2
    (∃ last, s'.history = last ++ s.history ∧ ∀ h g a c, Event.closed true h g a c ∉ last) ∧
    s'.openInfos driver binding =
      (s.openInfos driver binding).filter (fun info => !info.isFor driver NULL) ∧
    ∀ h g, ¬ (driver = h ∧ binding = g) → s'.openInfos h g = s.openInfos h g := by
  rcases @efiCloseProtocol_of_ok s driver driver NULL binding
      false (some binding) hDriver hSearch with
    ⟨hNone, hSame⟩ | ⟨-, hErased⟩
  · rw [hSame]
    refine ⟨⟨[], rfl, fun _ _ _ _ => not_mem_nil⟩, ?_, fun _ _ _ => rfl⟩
    refine (filter_eq_self.mpr fun info hInfo => ?_).symm
    rw [hNone info hInfo]
    rfl
  · rw [hErased]
    refine ⟨⟨[_], rfl, fun h g a c hIn => ?_⟩, ?_, fun h g hOther => record_other hOther⟩
    · cases mem_singleton.mp hIn
    · rw [record_self, eraseP_eq_filter (hKeyed _ _)]

/-
  A disconnect removes what the hooks close, and nothing more
  if its own open does not take the entry of an earlier one.
-/
theorem State.OnlyHooksRemoved.disconnect {around : Surroundings} {r : Status × State}
    (hKeyed : ∀ h g, Keyed (s.openInfos h g)) (hDriver : driver ≠ NULL)
    (hFree : ∀ info ∈ s.openInfos driver binding, info.isFor driver NULL = false)
    (hRun : efiDisconnectController binding s controller driver around = some r) :
    s.OnlyHooksRemoved r.2 := by
  rcases efiDisconnectController_cases hDriver hRun with
    hSame | ⟨hSearch, infos', closes, hEntered, -, hState⟩
  · rw [hSame]
    exact .refl s
  rcases hEntered.fresh hFree with ⟨own, hFor, rfl⟩
  have hKeyed' :
      ∀ h g, Keyed
          ((s.record driver binding (s.openInfos driver binding ++ [own])
            (.opened driver binding driver NULL GET_PROTOCOL)).openInfos h g) := by
    intro h g
    by_cases hHere : driver = h ∧ binding = g
    · rcases hHere with ⟨rfl, rfl⟩
      rw [record_self]
      exact hEntered.keyed (hKeyed _ _)
    · rw [record_other hHere]
      exact hKeyed h g
  rcases @State.OnlyHooksRemoved.runCloses _ driver closes hKeyed' with ⟨new, hHistory, hInfos⟩
  have hSearch' :
      efiSearchProtocol
          (Protocols.runCloses driver closes
            (s.record driver binding (s.openInfos driver binding ++ [own])
              (.opened driver binding driver NULL GET_PROTOCOL)))
          driver (some binding) =
        .ok binding := by
    rw [efiSearchProtocol_runCloses, efiSearchProtocol_record]
    exact hSearch
  have hLast :=
    efiCloseProtocol_own (fun h g => (hKeyed' h g).sublist (runCloses_sublist closes _ h g))
      hDriver hSearch'
  rw [← hState] at hLast
  rcases hLast with ⟨⟨last, hLastHistory, hNoHook⟩, hOwn, hRest⟩
  have hNew :
      ∀ h g a c, Event.closed true h g a c ∈
            last ++ new ++ [.opened driver binding driver NULL GET_PROTOCOL] ↔
          Event.closed true h g a c ∈ new := by
    intro h g a c
    rw [mem_append, mem_append, mem_singleton, or_iff_right (hNoHook h g a c)]
    exact or_iff_left nofun
  refine ⟨last ++ new ++ [.opened driver binding driver NULL GET_PROTOCOL], ?_, ?_⟩
  · rw [hLastHistory, hHistory, record_history]
    simp only [append_assoc, singleton_append]
  intro h g
  simp only [hNew]
  by_cases hHere : driver = h ∧ binding = g
  · rcases hHere with ⟨rfl, rfl⟩
    have hDropped :
        [own].filter (fun info =>
          !info.isFor driver NULL &&
            decide
              (Event.closed true driver binding info.agentHandle
                info.controllerHandle ∉ new)) = [] := by
      refine filter_eq_nil_iff.mpr fun info hInfo => ?_
      rw [mem_singleton.mp hInfo, hFor, Bool.not_true, Bool.false_and]
      exact Bool.false_ne_true
    rw [hOwn, hInfos, record_self, filter_filter, filter_append, hDropped, append_nil]
    refine filter_congr fun info hInfo => ?_
    rw [hFree info hInfo, Bool.not_false, Bool.true_and]
  · rw [hRest h g hHere, hInfos, record_other hHere]

/- The drivers of a protocol have no open of their own. -/
def OwnFree (binding : Guid) (s : State) (handle : Handle)
    (protocol : Guid) : Prop :=
  ∀ info ∈ s.openInfos handle protocol, info.attributes = BY_DRIVER →
      ∀ own ∈ s.openInfos info.agentHandle binding, own.isFor info.agentHandle NULL = false

theorem OwnFree.mono
    (hFree : OwnFree binding s handle protocol) (hSub : ∀ h g, s'.openInfos h g ⊆ s.openInfos h g) :
    OwnFree binding s' handle protocol :=
  fun info hInfo hType own hOwn => hFree info (hSub _ _ hInfo) hType own (hSub _ _ hOwn)

theorem State.OnlyHooksRemoved.disconnectDrivers
    {around : Handle → Handle → Surroundings} {items : List OpenInfo}
    (hBacked : Backed Nothing s) (hFree : OwnFree binding s handle protocol)
    (hRun : disconnectDrivers binding around handle protocol items s = some s') :
    s.OnlyHooksRemoved s' := by
  induction items generalizing s with
  | nil =>
    cases hRun
    exact .refl _
  | cons info rest ih =>
    unfold Protocols.disconnectDrivers at hRun
    dsimp only at hRun
    split at hRun
    · exact ih hBacked hFree hRun
    rename_i item hItem
    split_ifs at hRun with hType
    swap
    · exact ih hBacked hFree hRun
    split at hRun
    · cases hRun
    rename_i r hDisconnect
    split_ifs at hRun
    rcases hBacked.disconnect item.agent_ne_null hDisconnect with ⟨hNext, hSub⟩
    have hOwn := hFree item (mem_of_find?_eq_some hItem) hType
    exact .trans (.disconnect hBacked.keyed item.agent_ne_null hOwn hDisconnect)
      (ih hNext (hFree.mono hSub) hRun)

end Hooks

----
-- Runs
----

/-
  The hooks of an open do not close the entries that they are
  run for, on which the loop stands.
-/
def KeepsFooting (around : Handle → Handle → Surroundings) (s : State) (handle : Handle)
    (protocol : Guid) : Prop :=
  ∀ info ∈ s.openInfos handle protocol, info.attributes = BY_DRIVER → ∀ children,
      ∀ c ∈ ((around info.agentHandle info.controllerHandle).stop children).closes,
        ¬ (c.handle = handle ∧ c.protocol = some protocol ∧ c.controller = info.controllerHandle)

/-
  An open as a driver while no other agent has one, and an
  exclusive one whose hooks leave the loop its footing, where
  none is exclusive yet; and one that does not take a stronger
  entry of its own.
-/
def Careful (s : State) : Call → Prop
  | .openProtocol handle protocol hasInterface agent controller attributes _ around =>
    ∀ guid, checkOpen s handle protocol hasInterface agent controller attributes = .ok guid →
      ((∀ info ∈ s.openInfos handle guid, hasBit info.attributes EXCLUSIVE = false) →
        (hasBit attributes BY_DRIVER = true → hasBit attributes EXCLUSIVE = false →
            ∀ info ∈ s.openInfos handle guid,
              hasBit info.attributes BY_DRIVER = true → info.agentHandle = agent) ∧
        (hasBit attributes EXCLUSIVE = true → KeepsFooting around s handle guid)) ∧
      (hasBit attributes (EXCLUSIVE ||| BY_DRIVER) = false → ∀ info ∈ s.openInfos handle guid,
          info.isFor agent controller = true →
            hasBit info.attributes (EXCLUSIVE ||| BY_DRIVER) = false)
  | .closeProtocol _ _ _ _ => True

/- The drivers that an open disconnects have no own open. -/
def Undisturbed (binding : Guid) (s : State) : Call → Prop
  | .openProtocol handle protocol hasInterface agent controller attributes _ _ =>
    ∀ guid, checkOpen s handle protocol hasInterface agent controller attributes = .ok guid →
      OwnFree binding s handle guid
  | .closeProtocol _ _ _ _ => True

/- The calls, from a database without opens. -/
def openDatabase (binding : Guid) : TransitionSystem State Call where
  init s := s.history = [] ∧ ∀ h g, s.openInfos h g = []
  step s call s' := ∃ reply, call.reply binding s = some reply ∧ reply.state = s'

section Runs

variable {s s' : State} {handle agent controller : Handle} {protocol binding : Guid}
  {attributes : Nat}
  {calloc : Bool}
  {around : Handle → Handle → Surroundings}
  {reply : Reply}

/- The loop that an exclusive open runs. -/
abbrev prepare
    (binding : Guid) (around : Handle → Handle → Surroundings) (handle : Handle) (protocol : Guid)
    (s : State) : Option State :=
  disconnectDrivers binding around handle protocol (s.openInfos handle protocol) s

/-
  An open leaves the state, or it is denied after the drivers
  were disconnected, or it enters where the tests let it.
-/
theorem efiProtocolOpen_cases (hRun :
      efiProtocolOpen (prepare binding around handle protocol) s
          handle protocol agent controller attributes calloc =
        some reply) :
    reply.state = s ∨
      reply.status = .accessDenied ∧ prepare binding around handle protocol s = some reply.state ∨
      ∃ hAgent : agent ≠ NULL, ∃ s',
        reply = enterOpenInfo s' handle protocol agent controller attributes hAgent calloc ∧
          ((hasBit attributes EXCLUSIVE = true ∧
              prepare binding around handle protocol s = some s' ∧
              (∀ info ∈ s.openInfos handle protocol, hasBit info.attributes EXCLUSIVE = false) ∧
              ∀ info ∈ s'.openInfos handle protocol, hasBit info.attributes BY_DRIVER = false) ∨
            hasBit attributes EXCLUSIVE = false ∧ s' = s ∧ (hasBit attributes BY_DRIVER = true →
                ∀ info ∈ s.openInfos handle protocol,
                  hasBit info.attributes EXCLUSIVE = false)) := by
  unfold efiProtocolOpen at hRun
  split at hRun
  · cases hRun
    exact Or.inl rfl
  rename_i hAgent
  dsimp only at hRun
  split at hRun
  · cases hRun
    exact Or.inl rfl
  split at hRun
  · cases hRun
    exact Or.inl rfl
  rename_i hDenied
  have hNoneExclusive :
      hasBit attributes (EXCLUSIVE ||| BY_DRIVER) = true →
        ∀ info ∈ s.openInfos handle protocol, hasBit info.attributes EXCLUSIVE = false := by
    intro hBits info hInfo
    refine Bool.eq_false_iff.mpr fun h => hDenied ?_
    rw [hBits, Bool.and_true]
    exact any_eq_true.mpr ⟨info, hInfo, h⟩
  rw [hasBit_or] at hNoneExclusive
  split at hRun
  · rename_i hExclusive
    rw [hExclusive] at hNoneExclusive
    split at hRun
    · cases hRun
    rename_i s' hPrepare
    split at hRun
    · cases hRun
      exact Or.inr (Or.inl ⟨rfl, hPrepare⟩)
    · rename_i hDriver
      refine Or.inr (Or.inr ⟨hAgent, s', (Option.some.inj hRun).symm,
        Or.inl ⟨hExclusive, hPrepare, hNoneExclusive rfl, ?_⟩⟩)
      intro info hInfo
      exact Bool.eq_false_iff.mpr fun h => hDriver (any_eq_true.mpr ⟨info, hInfo, h⟩)
  · rename_i hShared
    refine Or.inr (Or.inr ⟨hAgent, s, (Option.some.inj hRun).symm,
      Or.inr ⟨Bool.eq_false_iff.mpr hShared, rfl, ?_⟩⟩)
    intro hBit
    rw [hBit, Bool.or_true] at hNoneExclusive
    exact hNoneExclusive rfl

theorem Backed.entered (hBacked : Backed Nothing s) (hAgent : agent ≠ NULL)
    (hOthers :
      ∀ info ∈ s.openInfos handle protocol, info.agentHandle ≠ agent →
          Compatible attributes info.attributes ∧ Compatible info.attributes attributes)
    (hOwn :
      ∀ info ∈ s.openInfos handle protocol,
        info.isFor agent controller = true → Covers attributes info.attributes) :
    Backed Nothing
      (enterOpenInfo s handle protocol agent controller attributes hAgent calloc).state := by
  rcases @enterOpenInfo_cases s handle agent controller protocol attributes hAgent calloc with
    ⟨-, hState⟩ | ⟨-, infos', hState, hEntered⟩
  · rw [hState]
    exact hBacked
  · rw [hState]
    exact hBacked.enter hEntered hOthers (fun info hInfo _ hFor _ _ => hOwn info hInfo hFor)
      fun _ _ _ h => h

/- One call keeps the opens backed. -/
theorem Backed.step {call : Call} (hBacked : Backed Nothing s) (hCareful : Careful s call)
    (hReply : call.reply binding s = some reply) :
    Backed Nothing reply.state := by
  cases call with
  | closeProtocol handle protocol agent controller =>
    cases hReply
    exact hBacked.close false protocol
  | openProtocol handle protocol hasInterface agent controller attributes calloc around =>
      unfold Call.reply efiOpenProtocol at hReply
      dsimp only at hReply
      split at hReply
      · cases hReply
        exact hBacked
      rename_i guid hCheck
      rcases hCareful guid hCheck with ⟨hSole, hWeak⟩
      rcases efiProtocolOpen_cases hReply with
        hSame | ⟨-, hPrepare⟩ | ⟨hAgent, s', hEnter, hTests⟩
      · rw [hSame]
        exact hBacked
      · exact (hBacked.disconnectDrivers hPrepare).1
      rw [hEnter]
      rcases hTests with ⟨hExclusive, hPrepare, hNone, hNoDriver⟩ | ⟨hShared, rfl, hNone⟩
      · rcases hBacked.disconnectDrivers hPrepare with ⟨hNext, hSub⟩
        have hNeither :
            ∀ info ∈ s'.openInfos handle guid,
              hasBit info.attributes (EXCLUSIVE ||| BY_DRIVER) = false := by
          intro info hInfo
          rw [hasBit_or, hNoDriver info hInfo, hNone info (hSub _ _ hInfo)]
          rfl
        exact hNext.entered hAgent
          (fun info hInfo _ => (compatible_of_neither (hNeither info hInfo)).symm)
          fun info hInfo _ => covers_of_neither (hNeither info hInfo)
      · cases hDriver : hasBit attributes BY_DRIVER with
        | false =>
          have hBits :
              hasBit attributes (EXCLUSIVE ||| BY_DRIVER) = false := by
            rw [hasBit_or, hShared, hDriver]
            rfl
          exact hBacked.entered hAgent (fun _ _ _ => compatible_of_neither hBits)
            fun info hInfo hFor => covers_of_neither (hWeak hBits info hInfo hFor)
        | true =>
          refine hBacked.entered hAgent ?_ ?_
          · intro info hInfo hOther
            have hBit : hasBit info.attributes BY_DRIVER = false :=
              Bool.eq_false_iff.mpr fun h =>
                hOther ((hSole (hNone hDriver)).1 hDriver hShared info hInfo h)
            have hNeither : hasBit info.attributes (EXCLUSIVE ||| BY_DRIVER) = false := by
              rw [hasBit_or, hNone hDriver info hInfo, hBit]
              rfl
            exact (compatible_of_neither hNeither).symm
          · intro info hInfo _
            refine ⟨fun h => ?_, fun _ => hDriver⟩
            rw [hNone hDriver info hInfo] at h
            cases h

/- The loop over the drivers comes to its end. -/
theorem Backed.disconnectDrivers_isSome {items : List OpenInfo}
    (hBacked : Backed Nothing s) (hFooting : KeepsFooting around s handle protocol) :
    (Protocols.disconnectDrivers binding around handle protocol items s).isSome = true := by
  induction items generalizing s with
  | nil => rfl
  | cons info rest ih =>
    unfold Protocols.disconnectDrivers
    dsimp only
    split
    · exact ih hBacked hFooting
    rename_i item hItem
    have hIn := mem_of_find?_eq_some hItem
    rcases isFor_iff.mp (find?_some hItem) with ⟨hAgent, hController⟩
    rw [← hAgent, ← hController]
    split_ifs with hType
    swap
    · exact ih hBacked hFooting
    split
    · rename_i hStuck
      exact absurd hStuck (efiDisconnectController_ne_none item.agent_ne_null)
    rename_i r hDisconnect
    have hStands :=
      efiDisconnectController_keeps item.agent_ne_null (hFooting item hIn hType) hDisconnect
        ⟨item, hIn, isFor_iff.mpr ⟨rfl, rfl⟩⟩
    rw [if_pos (any_eq_true.mpr hStands)]
    rcases hBacked.disconnect item.agent_ne_null hDisconnect with ⟨hNext, hSub⟩
    exact ih hNext fun i hi => hFooting i (hSub _ _ hi)

/- So a careful call has an answer. -/
theorem Backed.reply_isSome {call : Call} (hBacked : Backed Nothing s) (hCareful : Careful s call) :
    (call.reply binding s).isSome = true := by
  cases call with
  | closeProtocol handle protocol agent controller => rfl
  | openProtocol handle protocol hasInterface agent controller attributes calloc around =>
      unfold Call.reply efiOpenProtocol
      dsimp only
      split
      · rfl
      rename_i guid hCheck
      unfold efiProtocolOpen
      split
      · rfl
      dsimp only
      split
      · rfl
      split
      · rfl
      rename_i hDenied
      split
      swap
      · rfl
      rename_i hExclusive
      have hNone :
          ∀ info ∈ s.openInfos handle guid, hasBit info.attributes EXCLUSIVE = false := by
        intro info hInfo
        refine Bool.eq_false_iff.mpr fun h => hDenied ?_
        rw [hasBit_or, hExclusive, Bool.true_or, Bool.and_true]
        exact any_eq_true.mpr ⟨info, hInfo, h⟩
      have hLoop :=
        @Backed.disconnectDrivers_isSome _ _ _ binding _ (s.openInfos handle guid) hBacked
          (((hCareful guid hCheck).1 hNone).2 hExclusive)
      split
      · rename_i hStuck
        rw [hStuck] at hLoop
        cases hLoop
      · split
        all_goals rfl

/- So every careful run keeps them backed. -/
theorem backed_of_reachable (hReach : (openDatabase binding).ReachableBy Careful s) :
    Backed Nothing s := by
  refine hReach.invariant ?_ ?_
  · rintro s ⟨hHistory, hInfos⟩
    refine ⟨fun h g => ?_, fun h g o ho => ?_, fun h g o ho => ?_, fun h g i hi => ?_⟩
    · rw [hInfos]
      exact List.Pairwise.nil
    · rw [hHistory] at ho
      cases ho
    · rw [hHistory] at ho
      cases ho
    · rw [hInfos] at hi
      cases hi
  · rintro s call t hBacked hCareful ⟨reply, hReply, rfl⟩
    exact hBacked.step hCareful hReply

/-
  In every run of careful calls the opens of different agents
  are compatible, and a further such call has an answer.  An
  open that is denied changes no entry but
  those the hooks remove, unless a driver that it disconnects
  has an open of its own binding protocol without controller.
-/
theorem efi_open_database_exclusive
    (binding : Guid) (s : State) (hReach : (openDatabase binding).ReachableBy Careful s) :
    s.Exclusive ∧ (∀ call : Call, Careful s call → (call.reply binding s).isSome = true) ∧
      ∀ (call : Call) (reply : Reply), call.reply binding s = some reply →
        reply.status = .accessDenied →
        Undisturbed binding s call → s.OnlyHooksRemoved reply.state := by
  have hBacked := backed_of_reachable hReach
  refine ⟨hBacked.exclusive, fun call hCareful => hBacked.reply_isSome hCareful, ?_⟩
  intro call reply hReply hDenied hFree
  cases call with
  | closeProtocol handle protocol agent controller =>
    cases hReply
    exact absurd hDenied efiCloseProtocol_ne_denied
  | openProtocol handle protocol hasInterface agent controller attributes calloc around =>
      unfold Call.reply efiOpenProtocol at hReply
      dsimp only at hReply
      split at hReply
      · cases hReply
        exact .refl s
      rename_i guid hCheck
      rcases efiProtocolOpen_cases hReply with
        hSame | ⟨-, hPrepare⟩ | ⟨hAgent, s', hEnter, -⟩
      · rw [hSame]
        exact .refl s
      · exact .disconnectDrivers hBacked (hFree guid hCheck) hPrepare
      · rcases @enterOpenInfo_cases s' handle agent controller guid attributes hAgent calloc with
          ⟨hStatus, -⟩ | ⟨hStatus, -⟩
        all_goals
          rw [hEnter, hStatus] at hDenied
          cases hDenied

end Runs

/- Three handles, one with a protocol and one with a driver. -/
def bareDatabase : State where
  objects := [1, 2, 3]
  objects_ne_null := by decide
  protocols := fun handle => if handle = 1 then [7] else if handle = 2 then [9] else []
  interface := fun _ _ => 0x1000
  openInfos := fun _ _ => []
  history := []

/-
  An open of that protocol by an agent for a controller.  The
  hook of the driver, which is called without children, closes
  what it opened for the third handle, and fails.
-/
def openFor (agent controller : Handle)
    (attributes : Nat) : Call :=
  .openProtocol 1 (some 7) true agent controller attributes true
    fun _ _ => ⟨false, true, fun _ => ⟨[⟨1, some 7, 3⟩], false⟩⟩

def openBy (agent : Handle)
    (attributes : Nat) : Call :=
  openFor agent 1 attributes

/-
  A driver has the protocol open for two controllers.  An
  exclusive open is denied, and its hook closes one of them;
  it succeeds once the driver has closed the other.
-/
theorem efi_open_database_exclusive_hooks :
    ∃ s reply s', (openDatabase 9).ReachableBy Careful s ∧ (openDatabase 9).ReachableBy Careful s' ∧
        (openBy 3 EXCLUSIVE).reply 9 s = some reply ∧ reply.status = .accessDenied ∧
        ((s.openInfos 1 7).map OpenInfo.controllerHandle = [1, 3] ∧
          (reply.state.openInfos 1 7).map OpenInfo.controllerHandle = [1]) ∧
        s.OnlyHooksRemoved reply.state ∧ s'.history.head? = some (.opened 1 7 3 1 EXCLUSIVE) ∧
        s'.Exclusive := by
  let first := bareDatabase.record 1 7 [⟨2, 1, BY_DRIVER, 1, by decide⟩] (.opened 1 7 2 1 BY_DRIVER)
  let second :=
    first.record 1 7 [⟨2, 1, BY_DRIVER, 1, by decide⟩, ⟨2, 3, GET_PROTOCOL, 1, by decide⟩]
      (.opened 1 7 2 3 GET_PROTOCOL)
  let asked :=
    second.record 2 9 [⟨2, NULL, GET_PROTOCOL, 1, by decide⟩] (.opened 2 9 2 NULL GET_PROTOCOL)
  let hooked := asked.record 1 7 [⟨2, 1, BY_DRIVER, 1, by decide⟩] (.closed true 1 7 2 3)
  let denied := hooked.record 2 9 [] (.closed false 2 9 2 NULL)
  let closed := denied.record 1 7 [] (.closed false 1 7 2 1)
  let last := closed.record 1 7 [⟨3, 1, EXCLUSIVE, 1, by decide⟩] (.opened 1 7 3 1 EXCLUSIVE)
  have hOpen :
      (openBy 2 BY_DRIVER).reply 9 bareDatabase = some ⟨.success, some 0x1000, first⟩ := rfl
  have hWeak :
      (openFor 2 3 GET_PROTOCOL).reply 9 first = some ⟨.success, some 0x1000, second⟩ := rfl
  have hReply : (openBy 3 EXCLUSIVE).reply 9 second = some ⟨.accessDenied, some NULL, denied⟩ := rfl
  have hClose :
      (Call.closeProtocol 1 (some 7) 2 1).reply 9 denied = some ⟨.success, none, closed⟩ := rfl
  have hOpen' : (openBy 3 EXCLUSIVE).reply 9 closed = some ⟨.success, some 0x1000, last⟩ := rfl
  have hFirst : (openDatabase 9).ReachableBy Careful first := by
    refine .next (.start ⟨rfl, fun _ _ => rfl⟩) ?_ ⟨_, hOpen, rfl⟩
    refine fun guid _ => ⟨fun _ => ⟨fun _ _ info hInfo => ?_, nofun⟩, nofun⟩
    cases hInfo
  have hSecond : (openDatabase 9).ReachableBy Careful second := by
    refine .next hFirst ?_ ⟨_, hWeak, rfl⟩
    intro guid hCheck
    cases hCheck
    exact ⟨fun _ => ⟨nofun, nofun⟩, fun _ => by decide⟩
  have hHooks : Careful second (openBy 3 EXCLUSIVE) := by
    intro guid hCheck
    cases hCheck
    refine ⟨fun _ => ⟨nofun, fun _ info hInfo hType children c hc => ?_⟩, nofun⟩
    cases mem_singleton.mp hc
    rintro ⟨-, -, hThird⟩
    rcases mem_pair.mp hInfo with rfl | rfl
    · cases hThird
    · cases hType
  have hDenied : (openDatabase 9).ReachableBy Careful denied :=
    .next hSecond hHooks ⟨_, hReply, rfl⟩
  have hClosed : (openDatabase 9).ReachableBy Careful closed :=
    .next hDenied (l := .closeProtocol 1 (some 7) 2 1) trivial ⟨_, hClose, rfl⟩
  have hLast : (openDatabase 9).ReachableBy Careful last := by
    refine .next hClosed ?_ ⟨_, hOpen', rfl⟩
    intro guid hCheck
    cases hCheck
    exact ⟨fun _ => ⟨nofun, fun _ info hInfo => nomatch hInfo⟩, nofun⟩
  refine ⟨second, _, last, hSecond, hLast, hReply, rfl, ⟨rfl, rfl⟩, ?_, rfl,
    (efi_open_database_exclusive 9 _ hLast).1⟩
  refine (efi_open_database_exclusive 9 _ hSecond).2.2 _ _ hReply rfl ?_
  intro guid hCheck
  cases hCheck
  unfold OwnFree
  decide

/- Two agents have the protocol open as its driver. -/
theorem efi_open_database_two_drivers :
    ¬ ∀ s, (openDatabase 9).Reachable s → s.Exclusive ∧
          ∀ (call : Call) (reply : Reply), call.reply 9 s = some reply →
            reply.status = .accessDenied → s.OnlyHooksRemoved reply.state := by
  intro hAll
  let first := (((openBy 2 BY_DRIVER).reply 9 bareDatabase).get rfl).state
  let second := (((openBy 3 BY_DRIVER).reply 9 first).get rfl).state
  have hFirst : (openDatabase 9).Reachable first :=
    .next (.start ⟨rfl, fun _ _ => rfl⟩) trivial ⟨_, (Option.some_get rfl).symm, rfl⟩
  have hSecond : (openDatabase 9).Reachable second :=
    .next hFirst trivial ⟨_, (Option.some_get rfl).symm, rfl⟩
  have hCompatible :=
    (hAll second hSecond).1 1 7 ⟨2, 1, BY_DRIVER⟩ (mem_cons_of_mem _ mem_cons_self)
      ⟨3, 1, BY_DRIVER⟩ mem_cons_self (by decide)
  exact hCompatible.2 ⟨rfl, rfl⟩

end Uboot.Efi.Protocols
