import BootFirmware.Lib.TransitionSystem
import BootFirmware.Uboot.Crc32
import BootFirmware.Uboot.Env.Transfer

/-
  The environment kept in two areas of an MMC device, each
  with a serial number, and what is left of it when areas
  cannot be read and the power is cut.

  The devices are found and their partitions chosen without
  failure.  Every completed save is one write of an area.

  Key definitions include:
    * `chooseArea` and `envImportRedund`
    * `envExport`
    * `State` and `step`
    * `SerialOk` and `CutOk`

  The main results are:
    * `env_keeps_completed_save`
    * `env_loses_completed_save`
-/

----
-- Areas
----

namespace Uboot.Env.Redundant

open List Option

/- The `ENV_SIZE` bytes of variables under their header. -/
structure EnvT where
  crc : UInt32
  flags : UInt8
  data : List UInt8
deriving DecidableEq, Repr

def crcOk (ep : EnvT) : Bool :=
  crc32 0 ep.data == ep.crc

inductive EnvValid where
  | invalid
  | valid
  | redund
deriving DecidableEq, Repr

/- What a board sets the environment up with. -/
structure Board where
  config : Config
  signed : Bool
  hooks : Hooks
  matchEntry : Entry → Bool
  envSize : Nat
  defaultEnvironment : List UInt8

----
-- Import
----

def setDefaultEnv (board : Board) (htab : Option HsearchData) :
    Option (Option HsearchData) :=
  if board.envSize < board.defaultEnvironment.length then
    some htab
  else
    (himportR board.config board.signed board.hooks htab board.defaultEnvironment
      board.defaultEnvironment.length 0 0 false []).map fun r => some r.2

/- The value returned is -EIO where the import fails. -/
def envImport (board : Board) (ep : EnvT) (check : Bool) (htab : Option HsearchData) :
    Option (Int × Option HsearchData) :=
  if check && !crcOk ep then
    (setDefaultEnv board htab).map fun htab => (-5, htab)
  else
    match himportR board.config board.signed board.hooks htab
        ep.data board.envSize 0 0 false [] with
    | none => none
    | some (r, htab) =>
      if r ≠ 0 then some (0, some htab)
      else
        (setDefaultEnv board (some htab)).map fun htab => (-5, htab)

/- The comparison of the serials of two good areas. -/
def serialCheck (flags1 flags2 : UInt8) : EnvValid :=
  if flags1 = 255 ∧ flags2 = 0 then .redund
  else if flags2 = 255 ∧ flags1 = 0 then .valid
  else if flags1 > flags2 then .valid
  else if flags2 > flags1 then .redund
  else .valid

/-
  What `env_import_redund` leaves in the two variables, and
  the area that it gives to `env_import`, with its argument
  `check`.
-/
structure Choice where
  envValid : EnvValid
  envFlags : UInt8
  area : Option (EnvT × Bool)

def chooseArea (envValid : EnvValid) (envFlags : UInt8) (buf1 : EnvT)
    (buf1ReadFail : Bool) (buf2 : EnvT) (buf2ReadFail : Bool) :
    Choice :=
  if buf1ReadFail && buf2ReadFail then
    ⟨envValid, envFlags, none⟩
  else if !buf1ReadFail && buf2ReadFail then
    ⟨.valid, envFlags, some (buf1, true)⟩
  else if buf1ReadFail && !buf2ReadFail then
    ⟨.redund, envFlags, some (buf2, true)⟩
  else
    let crc1Ok := crcOk buf1
    let crc2Ok := crcOk buf2
    if !crc1Ok && !crc2Ok then
      ⟨envValid, envFlags, none⟩
    else
      let envValid :=
        if crc1Ok && !crc2Ok then .valid
        else if !crc1Ok && crc2Ok then .redund
        else serialCheck buf1.flags buf2.flags
      let ep := if envValid = .valid then buf1 else buf2
      ⟨envValid, ep.flags, some (ep, false)⟩

/- The bytes that `env_import` gives to `himport_r`. -/
def Choice.imported (choice : Choice) : Option (List UInt8) :=
  match choice.area with
  | none => none
  | some (ep, check) =>
    if check && !crcOk ep then none else some ep.data

def envImportRedund (board : Board) (choice : Choice) (htab : Option HsearchData) :
    Option (Int × Option HsearchData) :=
  match choice.area with
  | none => (setDefaultEnv board htab).map fun htab => (-5, htab)
  | some (ep, check) => envImport board ep check htab

/- The table that `env_mmc_load` leaves. -/
def envMmcLoad (board : Board) (choice : Choice) :
    Option (Option HsearchData) :=
  match envImportRedund board choice none with
  | none => none
  | some (ret, htab) =>
    if ret ≠ 0 then setDefaultEnv board htab
    else some htab

----
-- Export
----

/- The table before anything was imported. -/
def emptyTable : HsearchData :=
  ⟨fun _ => .free, 0, 0⟩

/-
  The area to write, or `some none` where the variables do
  not fit.  The old bytes of the buffer are all overwritten.
-/
def envExport (board : Board) (envFlags : UInt8) (htab : Option HsearchData) :
    Option (Option EnvT) :=
  match hexportR board.matchEntry (htab.getD emptyTable) 0 0 (some (List.replicate board.envSize 0))
      board.envSize 0 with
  | none => none
  | some (len, res) =>
    if len < 0 then some none
    else some (some ⟨crc32 0 res, envFlags + 1, res⟩)

/- Whether `env_mmc_save` writes the redundant area. -/
def copy (envValid : EnvValid) : Bool :=
  envValid == .valid

def toggled (envValid : EnvValid) : EnvValid :=
  if envValid = .redund then .valid else .redund

@[simp] theorem copy_valid : copy .valid = true := rfl

@[simp] theorem copy_redund : copy .redund = false := rfl

/- The area written is the current one after the save. -/
theorem not_copy_toggled {envValid : EnvValid} (hValid : envValid ≠ .invalid) :
    (!copy (toggled envValid)) = copy envValid := by
  cases envValid with
  | invalid => exact absurd rfl hValid
  | valid => rfl
  | redund => rfl

----
-- Boots, Saves And Power Cuts
----

/- A write of an area, which is the redundant one or not. -/
inductive Event where
  | saved (copy : Bool) (data : List UInt8)
  | cut (copy : Bool)
deriving DecidableEq, Repr

def Event.copy : Event → Bool
  | .saved copy _ => copy
  | .cut copy => copy

def Event.isSave : Event → Bool
  | .saved _ _ => true
  | .cut _ => false

/-
  What a boot sets up.  The field `degraded` is not the
  code's: it says that an area could not be read.
-/
structure Ram where
  envValid : EnvValid
  envFlags : UInt8
  htab : Option HsearchData
  degraded : Bool

/-
  The two areas, the memory while the power is on, and the
  writes since the device held `factory`, latest first.
-/
structure State where
  flash : Bool → EnvT
  ram : Option Ram
  factory : Bool → EnvT
  history : List Event

inductive Step where
  | boot (read1Fail read2Fail : Bool)
  | edit (htab : Option HsearchData)
  | save
  | cutSave (left : EnvT)

/- What a boot finds, after `env_init`. -/
def State.choice (s : State) (read1Fail read2Fail : Bool) :
    Choice :=
  chooseArea .valid 0 (s.flash false) read1Fail (s.flash true) read2Fail

def State.boot (board : Board) (s : State) (read1Fail read2Fail : Bool) :
    Option State :=
  let choice := s.choice read1Fail read2Fail
  (envMmcLoad board choice).map fun htab =>
    { s with
      ram := some
        { envValid := choice.envValid
          envFlags := choice.envFlags
          htab
          degraded := read1Fail || read2Fail } }

def State.write (s : State) (copy : Bool) (ep : EnvT) (event : Event) (ram : Option Ram) :
    State :=
  { s with
    flash := fun area =>
      if area = copy then ep else s.flash area
    history := event :: s.history
    ram }

def step (board : Board) (s : State) : Step → Option State
  | .boot read1Fail read2Fail => s.boot board read1Fail read2Fail
  | .edit htab =>
    s.ram.map fun ram => { s with ram := some { ram with htab } }
  | .save =>
    s.ram.bind fun ram =>
      (envExport board ram.envFlags ram.htab).map fun
        | none => s
        | some ep =>
          s.write (copy ram.envValid) ep (.saved (copy ram.envValid) ep.data)
            (some
              { ram with
                envFlags := ep.flags
                envValid := toggled ram.envValid })
  | .cutSave left =>
    s.ram.bind fun ram =>
      (envExport board ram.envFlags ram.htab).bind fun
        | none => none
        | some _ =>
          if crcOk left then none
          else
            some (s.write (copy ram.envValid) left (.cut (copy ram.envValid)) none)

/- The device with any contents, before its first boot. -/
def start (factory : Bool → EnvT) : State :=
  ⟨factory, none, factory, []⟩

def system (board : Board) (factory : Bool → EnvT) :
    TransitionSystem State Step :=
  .ofStep (start factory) (step board)

----
-- What A Boot Must Import
----

/- The latest save that completed. -/
def State.LatestSave (s : State) (copy : Bool)
    (data : List UInt8) : Prop :=
  s.history.find? Event.isSave = some (.saved copy data)

/- The latest write of the area was cut. -/
def State.IsCut (s : State) (copy : Bool) : Prop :=
  s.history.find? (fun event => event.copy == copy) = some (.cut copy)

/- The variables of a save, or of a good area at first. -/
def State.Saved (s : State) (data : List UInt8) : Prop :=
  (∃ copy, .saved copy data ∈ s.history) ∨
    ∃ copy, crcOk (s.factory copy) = true ∧ (s.factory copy).data = data

/- What a boot that can read both areas imports. -/
def State.imported (s : State) : Option (List UInt8) :=
  (s.choice false false).imported

/-
  Such a boot imports the latest save that completed, or an
  older one where that save's area was cut.
-/
def State.KeepsSave (s : State) : Prop :=
  ∀ copy data, s.LatestSave copy data →
    s.imported = some data ∨ s.IsCut copy ∧ ∃ old, s.imported = some old ∧ s.Saved old

----
-- Conditions On The Steps
----

/- The area that a save does not write. -/
def State.other (s : State) (ram : Ram) : EnvT :=
  s.flash (!copy ram.envValid)

/- The serial check prefers the area `copy`. -/
def selects (copy : Bool) (flags other : UInt8) : Bool :=
  if copy then serialCheck other flags == .redund
  else serialCheck flags other == .valid

def exports (board : Board) (ram : Ram) : Bool :=
  match envExport board ram.envFlags ram.htab with
  | some (some _) => true
  | _ => false

/-
  A save that completes after a boot which could not read an
  area finds in the other area a bad CRC, or a serial that
  the new one beats.
-/
def SerialOk (board : Board) (s : State) : Step → Prop
  | .save =>
    ∀ ram ∈ s.ram, ram.degraded = true → exports board ram = true → crcOk (s.other ram) = true →
      selects (copy ram.envValid) (ram.envFlags + 1) (s.other ram).flags = true
  | _ => True

/-
  Once a save has completed, no power cut strikes a write
  while the other area is bad.
-/
def CutOk (s : State) : Step → Prop
  | .cutSave _ =>
    ∀ ram ∈ s.ram, crcOk (s.other ram) = true ∨ s.history.all (fun event => !event.isSave) = true
  | _ => True

instance instDecidableSerialOk
    (board : Board) (s : State) (l : Step) :
    Decidable (SerialOk board s l) :=
  match l with
  | .boot _ _ => inferInstanceAs (Decidable True)
  | .edit _ => inferInstanceAs (Decidable True)
  | .save =>
    inferInstanceAs (Decidable (∀ ram ∈ s.ram, ram.degraded = true → exports board ram = true →
        crcOk (s.other ram) = true →
          selects (copy ram.envValid) (ram.envFlags + 1) (s.other ram).flags = true))
  | .cutSave _ => inferInstanceAs (Decidable True)

instance instDecidableCutOk
    (s : State) (l : Step) :
    Decidable (CutOk s l) :=
  match l with
  | .boot _ _ => inferInstanceAs (Decidable True)
  | .edit _ => inferInstanceAs (Decidable True)
  | .save => inferInstanceAs (Decidable True)
  | .cutSave _ =>
    inferInstanceAs (Decidable (∀ ram ∈ s.ram,
      crcOk (s.other ram) = true ∨ s.history.all (fun event => !event.isSave) = true))

----
-- The Serials
----

/- The next serial is preferred, also past 255. -/
theorem selects_succ (copy : Bool) (flags : UInt8) :
    selects copy (flags + 1) flags = true := by
  have hSucc := UInt8.toNat_add flags 1
  have hLt := flags.toNat_lt
  by_cases hLast : flags = 255
  · subst hLast
    cases copy <;> decide
  · have hNe : flags.toNat ≠ 255 :=
      fun h => hLast (UInt8.toNat_inj.mp h)
    have hNext : (flags + 1).toNat = flags.toNat + 1 := by
      rw [hSucc]
      have hOne : (1 : UInt8).toNat = 1 := rfl
      omega
    have hGt : flags + 1 > flags := UInt8.lt_iff_toNat_lt.mpr (by omega)
    have hNotGt : ¬ flags > flags + 1 := fun h => absurd (UInt8.lt_iff_toNat_lt.mp h) (by omega)
    have hNotZero : flags + 1 ≠ 0 := by
      intro h
      have hZero := congrArg UInt8.toNat h
      rw [hNext] at hZero
      cases hZero
    have hNotWrapped : ¬ (flags + 1 = 255 ∧ flags = 0) := by
      rintro ⟨hTop, rfl⟩
      exact absurd hTop (by decide)
    unfold selects serialCheck
    cases copy with
    | false => simp [hLast, hNotZero, hGt, hNotWrapped]
    | true => simp [hLast, hNotZero, hGt, hNotGt, hNotWrapped]

/- A boot prefers the selected one of two good areas. -/
theorem imported_of_selects {s : State} {copy : Bool} (hOk : crcOk (s.flash copy) = true)
    (hSelects : crcOk (s.flash (!copy)) = true →
      selects copy (s.flash copy).flags (s.flash (!copy)).flags = true) :
    s.imported = some (s.flash copy).data := by
  unfold State.imported State.choice chooseArea Choice.imported
  unfold selects at hSelects
  cases copy with
  | false =>
    cases hOther : crcOk (s.flash true) with
    | false => simp [hOk]
    | true =>
      have hFirst := hSelects hOther
      simp only [Bool.not_false, Bool.false_eq_true, if_false, beq_iff_eq] at hFirst
      simp [hOk, hFirst]
  | true =>
    cases hOther : crcOk (s.flash false) with
    | false => simp [hOk]
    | true =>
      have hSecond := hSelects hOther
      simp only [Bool.not_true, if_true, beq_iff_eq] at hSecond
      simp [hOk, hSecond]

theorem serialCheck_ne_invalid (flags1 flags2 : UInt8) :
    serialCheck flags1 flags2 ≠ .invalid := by
  unfold serialCheck
  split_ifs <;> nofun

/- A boot that can read both areas knows the serial. -/
theorem choice_flags
    (s : State) (hOk : crcOk (s.flash (!copy (s.choice false false).envValid)) = true) :
    (s.choice false false).envFlags = (s.flash (!copy (s.choice false false).envValid)).flags := by
  have hSerial := serialCheck_ne_invalid (s.flash false).flags (s.flash true).flags
  unfold State.choice chooseArea at hOk ⊢
  cases hFirst : crcOk (s.flash false) with
  | false =>
    cases hSecond : crcOk (s.flash true) with
    | false => simp [hFirst, hSecond] at hOk
    | true => simp
  | true =>
    cases hSecond : crcOk (s.flash true) with
    | false => simp
    | true =>
      cases hCheck : serialCheck (s.flash false).flags (s.flash true).flags with
      | invalid => exact absurd hCheck hSerial
      | valid => simp
      | redund => simp

theorem choice_valid (s : State) (read1Fail read2Fail : Bool) :
    (s.choice read1Fail read2Fail).envValid ≠ .invalid := by
  have hSerial := serialCheck_ne_invalid (s.flash false).flags (s.flash true).flags
  unfold State.choice chooseArea
  dsimp only
  split_ifs <;> first | assumption | nofun

----
-- What A Step Does
----

section Write

variable (s : State) (copy : Bool) (ep : EnvT) (event : Event) (ram : Option Ram)

@[simp] theorem write_flash_self : (s.write copy ep event ram).flash copy = ep := by
  simp [State.write]

@[simp] theorem write_flash_other :
    (s.write copy ep event ram).flash (!copy) = s.flash (!copy) := by
  simp [State.write]

@[simp] theorem write_history : (s.write copy ep event ram).history = event :: s.history := rfl

@[simp] theorem write_factory : (s.write copy ep event ram).factory = s.factory := rfl

@[simp] theorem write_ram : (s.write copy ep event ram).ram = ram := rfl

end Write

variable {ep : EnvT} {htab : Option HsearchData}

theorem envExport_area
    {board : Board} {envFlags : UInt8} (hExport : envExport board envFlags htab = some (some ep)) :
    crcOk ep = true ∧ ep.flags = envFlags + 1 := by
  unfold envExport at hExport
  split at hExport
  · cases hExport
  · split at hExport
    · cases hExport
    · cases hExport
      exact ⟨beq_self_eq_true _, rfl⟩

variable {board : Board} {s t : State}

/- A boot and an edit leave everything but the memory. -/
def SameFlash (s t : State) : Prop :=
  t.flash = s.flash ∧ t.factory = s.factory ∧ t.history = s.history

theorem step_boot
    {read1Fail read2Fail : Bool} (hStep : step board s (.boot read1Fail read2Fail) = some t) :
    SameFlash s t ∧ ∃ htab, t.ram = some
      ⟨(s.choice read1Fail read2Fail).envValid, (s.choice read1Fail read2Fail).envFlags, htab,
        read1Fail || read2Fail⟩ := by
  rcases map_eq_some_iff.mp hStep with ⟨htab, -, rfl⟩
  exact ⟨⟨rfl, rfl, rfl⟩, htab, rfl⟩

theorem step_edit (hStep : step board s (.edit htab) = some t) :
    SameFlash s t ∧ ∃ ram, s.ram = some ram ∧ t.ram = some { ram with htab } := by
  rcases map_eq_some_iff.mp hStep with ⟨ram, hRam, rfl⟩
  exact ⟨⟨rfl, rfl, rfl⟩, ram, hRam, rfl⟩

theorem step_save (hStep : step board s .save = some t) :
    ∃ ram, s.ram = some ram ∧ (t = s ∨
        ∃ ep, exports board ram = true ∧ crcOk ep = true ∧ ep.flags = ram.envFlags + 1 ∧
          t = s.write (copy ram.envValid) ep (.saved (copy ram.envValid) ep.data)
            (some
              { ram with
                envFlags := ep.flags
                envValid := toggled ram.envValid })) := by
  rcases bind_eq_some_iff.mp hStep with ⟨ram, hRam, hMap⟩
  rcases map_eq_some_iff.mp hMap with ⟨area, hExport, rfl⟩
  refine ⟨ram, hRam, ?_⟩
  cases area with
  | none => exact Or.inl rfl
  | some ep =>
    rcases envExport_area hExport with ⟨hOk, hFlags⟩
    refine Or.inr ⟨ep, ?_, hOk, hFlags, rfl⟩
    unfold exports
    rw [hExport]

theorem step_cutSave {left : EnvT} (hStep : step board s (.cutSave left) = some t) :
    ∃ ram, s.ram = some ram ∧ crcOk left = false ∧
      t = s.write (copy ram.envValid) left (.cut (copy ram.envValid)) none := by
  rcases bind_eq_some_iff.mp hStep with ⟨ram, hRam, hBind⟩
  rcases bind_eq_some_iff.mp hBind with ⟨area, -, hCut⟩
  refine ⟨ram, hRam, ?_⟩
  cases area with
  | none => cases hCut
  | some ep =>
    split_ifs at hCut with hLeft
    cases hCut
    exact ⟨Bool.eq_false_iff.mpr hLeft, rfl⟩

----
-- The Invariant
----

/- What the latest write of an area says about it. -/
def AreaHolds (now factory : EnvT) : Option Event → Prop
  | none => now = factory
  | some (.saved _ data) => crcOk now = true ∧ now.data = data
  | some (.cut _) => crcOk now = false

def latestWrite (s : State) (area : Bool) : Option Event :=
  s.history.find? (fun event => event.copy == area)

/- The serial check prefers the area, if both are good. -/
def State.Preferred (s : State) (area : Bool) : Prop :=
  crcOk (s.flash (!area)) = true → selects area (s.flash area).flags (s.flash (!area)).flags = true

def AreasHold (s : State) : Prop :=
  ∀ area, AreaHolds (s.flash area) (s.factory area) (latestWrite s area)

/- The latest save is preferred, unless it was cut. -/
def Newest (s : State) : Prop :=
  ∀ area data, s.LatestSave area data → ¬ s.IsCut area → s.Preferred area

/- The serial in memory is that of the current area. -/
def SerialKnown (s : State) (ram : Ram) : Prop :=
  ram.envValid ≠ .invalid ∧
    (ram.degraded = false → crcOk (s.other ram) = true → ram.envFlags = (s.other ram).flags)

/- Some area is good once a save has completed. -/
def GoodArea (s : State) : Prop :=
  ∀ copy data, s.LatestSave copy data → ∃ area, crcOk (s.flash area) = true

structure SerialInv (s : State) : Prop where
  newest : Newest s
  known : ∀ ram, s.ram = some ram → SerialKnown s ram

theorem latestWrite_write_self (event : Event) (ep : EnvT) (ram : Option Ram) :
    latestWrite (s.write event.copy ep event ram) event.copy = some event :=
  find?_cons_of_pos (by simp)

theorem latestWrite_write_other (event : Event) (ep : EnvT) (ram : Option Ram) :
    latestWrite (s.write event.copy ep event ram) (!event.copy) = latestWrite s (!event.copy) :=
  find?_cons_of_neg (by simp)

theorem AreasHold.write (hInv : AreasHold s) {event : Event}
    (ram : Option Ram) (hEvent : AreaHolds ep (s.factory event.copy) (some event)) :
    AreasHold (s.write event.copy ep event ram) := by
  intro area
  by_cases hArea : area = event.copy
  · rw [hArea, latestWrite_write_self, write_flash_self]
    exact hEvent
  · rw [Bool.eq_not_of_ne hArea, latestWrite_write_other, write_flash_other]
    exact hInv _

variable {area area' : Bool}

theorem latestSave_write_saved {data data' : List UInt8} {ram : Option Ram} :
    (s.write area ep (.saved area data) ram).LatestSave area' data' ↔
      area = area' ∧ data = data' := by
  unfold State.LatestSave
  rw [write_history, find?_cons_of_pos (by rfl), Option.some.injEq, Event.saved.injEq]

variable {data : List UInt8}

theorem latestSave_write_cut {ram : Option Ram} :
    (s.write area ep (.cut area) ram).LatestSave area' data ↔ s.LatestSave area' data := by
  unfold State.LatestSave
  rw [write_history, find?_cons_of_neg (by exact Bool.false_ne_true)]

/- The steps that only change the memory. -/
theorem AreasHold.sameFlash (hInv : AreasHold s) (hSame : SameFlash s t) :
    AreasHold t := by
  rcases hSame with ⟨hFlash, hFactory, hHistory⟩
  intro area
  unfold latestWrite
  rw [hFlash, hFactory, hHistory]
  exact hInv area

theorem Newest.sameFlash (hNewest : Newest s) (hSame : SameFlash s t) :
    Newest t := by
  rcases hSame with ⟨hFlash, -, hHistory⟩
  intro area data hLatest hNotCut
  unfold State.LatestSave at hLatest
  unfold State.IsCut at hNotCut
  unfold State.Preferred
  rw [hHistory] at hLatest hNotCut
  rw [hFlash]
  exact hNewest area data hLatest hNotCut

theorem GoodArea.sameFlash (hGood : GoodArea s) (hSame : SameFlash s t) :
    GoodArea t := by
  rcases hSame with ⟨hFlash, -, hHistory⟩
  intro area data hLatest
  unfold State.LatestSave at hLatest
  rw [hHistory] at hLatest
  rw [hFlash]
  exact hGood area data hLatest

variable {l : Step}

theorem areasHold_step (hInv : AreasHold s) (hStep : step board s l = some t) :
    AreasHold t := by
  cases l with
  | boot read1Fail read2Fail => exact hInv.sameFlash (step_boot hStep).1
  | edit htab => exact hInv.sameFlash (step_edit hStep).1
  | save =>
    rcases step_save hStep with ⟨ram, -, rfl | ⟨ep, -, hOk, -, rfl⟩⟩
    · exact hInv
    · exact hInv.write _ ⟨hOk, rfl⟩
  | cutSave left =>
    rcases step_cutSave hStep with ⟨ram, -, hBad, rfl⟩
    exact hInv.write _ hBad

/- The new serial is preferred to that of the other area. -/
theorem selects_new {ram : Ram} (hKnown : SerialKnown s ram) (hOk : SerialOk board s .save)
    (hRam : s.ram = some ram) (hExports : exports board ram = true)
    (hOther : crcOk (s.other ram) = true) :
    selects (copy ram.envValid) (ram.envFlags + 1) (s.other ram).flags = true := by
  cases hDegraded : ram.degraded with
  | false =>
    rw [hKnown.2 hDegraded hOther]
    exact selects_succ _ _
  | true => exact hOk ram hRam hDegraded hExports hOther

theorem newest_step
    (hInv : SerialInv s) (hOk : SerialOk board s l) (hStep : step board s l = some t) :
    Newest t := by
  cases l with
  | boot read1Fail read2Fail => exact hInv.newest.sameFlash (step_boot hStep).1
  | edit htab => exact hInv.newest.sameFlash (step_edit hStep).1
  | save =>
    rcases step_save hStep with ⟨ram, hRam, rfl | ⟨ep, hExports, -, hFlags, rfl⟩⟩
    · exact hInv.newest
    · intro area data hLatest _ hOther
      rcases latestSave_write_saved.mp hLatest with ⟨rfl, -⟩
      rw [write_flash_other] at hOther ⊢
      rw [write_flash_self, hFlags]
      exact selects_new (hInv.known ram hRam) hOk hRam hExports hOther
  | cutSave left =>
    rcases step_cutSave hStep with ⟨ram, -, hBad, rfl⟩
    intro area data hLatest hNotCut hOther
    by_cases hArea : area = copy ram.envValid
    · refine absurd ?_ hNotCut
      rw [hArea]
      exact latestWrite_write_self (.cut _) left none
    · have hNot : area = !copy ram.envValid := Bool.eq_not_of_ne hArea
      rw [hNot, Bool.not_not, write_flash_self, hBad] at hOther
      cases hOther

theorem known_step
    (hInv : SerialInv s) (hStep : step board s l = some t) {ram : Ram} (hRam : t.ram = some ram) :
    SerialKnown t ram := by
  cases l with
  | boot read1Fail read2Fail =>
    rcases step_boot hStep with ⟨⟨hFlash, -⟩, htab, hNew⟩
    rw [hNew] at hRam
    cases hRam
    refine ⟨choice_valid s _ _, ?_⟩
    intro hReadable hOther
    rcases Bool.or_eq_false_iff.mp hReadable with ⟨rfl, rfl⟩
    unfold State.other at hOther ⊢
    rw [hFlash] at hOther ⊢
    exact choice_flags s hOther
  | edit htab =>
    rcases step_edit hStep with ⟨⟨hFlash, -⟩, old, hOld, hNew⟩
    rw [hNew] at hRam
    cases hRam
    unfold SerialKnown State.other
    rw [hFlash]
    exact hInv.known old hOld
  | save =>
    rcases step_save hStep with ⟨old, hOld, rfl | ⟨ep, -, -, -, rfl⟩⟩
    · exact hInv.known ram hRam
    · cases hRam
      have hValid := (hInv.known old hOld).1
      refine ⟨?_, fun _ _ => ?_⟩
      · unfold toggled
        split_ifs <;> nofun
      · unfold State.other
        rw [not_copy_toggled hValid, write_flash_self]
  | cutSave left =>
    rcases step_cutSave hStep with ⟨old, -, -, rfl⟩
    cases hRam

theorem goodArea_step (hGood : GoodArea s) (hOk : CutOk s l) (hStep : step board s l = some t) :
    GoodArea t := by
  cases l with
  | boot read1Fail read2Fail => exact hGood.sameFlash (step_boot hStep).1
  | edit htab => exact hGood.sameFlash (step_edit hStep).1
  | save =>
    rcases step_save hStep with ⟨ram, -, rfl | ⟨ep, -, hCrc, -, rfl⟩⟩
    · exact hGood
    · intro area data _
      refine ⟨copy ram.envValid, ?_⟩
      rw [write_flash_self]
      exact hCrc
  | cutSave left =>
    rcases step_cutSave hStep with ⟨ram, hRam, -, rfl⟩
    intro area data hLatest
    have hSaved := latestSave_write_cut.mp hLatest
    rcases hOk ram hRam with hOther | hNone
    · refine ⟨!copy ram.envValid, ?_⟩
      rw [write_flash_other]
      exact hOther
    · have hMem := mem_of_find?_eq_some hSaved
      exact absurd (all_eq_true.mp hNone _ hMem) (by simp [Event.isSave])

----
-- Completed Saves Are Kept
----

theorem latestWrite_of_latestSave {area : Bool} (hLatest : s.LatestSave area data) :
    latestWrite s area = some (.saved area data) ∨ s.IsCut area := by
  unfold State.LatestSave at hLatest
  unfold State.IsCut latestWrite
  generalize s.history = history at hLatest ⊢
  induction history with
  | nil => cases hLatest
  | cons event history ih =>
    cases event with
    | saved area' data' =>
      rw [find?_cons_of_pos (by rfl)] at hLatest
      cases hLatest
      exact Or.inl (find?_cons_of_pos (by simp [Event.copy]))
    | cut area' =>
      rw [find?_cons_of_neg (by exact Bool.false_ne_true)] at hLatest
      by_cases hArea : area' = area
      · subst hArea
        exact Or.inr (find?_cons_of_pos (by simp [Event.copy]))
      · rw [find?_cons_of_neg (by simpa [Event.copy] using hArea)]
        exact ih hLatest

theorem imported_latest (hAreas : AreasHold s) (hNewest : Newest s) {area : Bool}
    (hLatest : s.LatestSave area data) (hNotCut : ¬ s.IsCut area) :
    s.imported = some data := by
  rcases latestWrite_of_latestSave hLatest with
    hWrite | hCut
  · have hArea := hAreas area
    rw [hWrite] at hArea
    rcases hArea with ⟨hOk, hData⟩
    rw [imported_of_selects hOk (hNewest area data hLatest hNotCut), hData]
  · exact absurd hCut hNotCut

theorem imported_older (hAreas : AreasHold s) {area good : Bool}
    (hCut : s.IsCut area) (hGood : crcOk (s.flash good) = true) :
    ∃ old, s.imported = some old ∧ s.Saved old := by
  have hBad : crcOk (s.flash area) = false := by
    have hArea := hAreas area
    rw [show latestWrite s area = _ from hCut] at hArea
    exact hArea
  have hOther : (!good) = area := by
    by_contra hNe
    have hSame : good = area := by simpa using hNe
    rw [hSame, hBad] at hGood
    cases hGood
  refine ⟨(s.flash good).data, ?_, ?_⟩
  · apply imported_of_selects hGood
    intro hOk
    rw [hOther, hBad] at hOk
    cases hOk
  · have hHolds := hAreas good
    cases hWrite : latestWrite s good with
    | none =>
      rw [hWrite] at hHolds
      have hFactory : s.flash good = s.factory good := hHolds
      rw [hFactory] at hGood ⊢
      exact Or.inr ⟨good, hGood, rfl⟩
    | some event =>
      rw [hWrite] at hHolds
      cases event with
      | saved copy data =>
        rw [hHolds.2]
        exact Or.inl ⟨copy, mem_of_find?_eq_some hWrite⟩
      | cut copy =>
        have hBadGood : crcOk (s.flash good) = false := hHolds
        rw [hGood] at hBadGood
        cases hBadGood

variable (board : Board) (factory : Bool → EnvT)

variable {ok : State → Step → Prop}

theorem areasHold_run (hReach : (system board factory).ReachableBy ok s) :
    AreasHold s := by
  refine hReach.invariant ?_ ?_
  · rintro _ rfl area
    rfl
  · intro s l t hInv _ hStep
    have hNext : step board s l = some t := hStep
    exact areasHold_step hInv hNext

theorem serialInv_run (hReach : (system board factory).ReachableBy (SerialOk board) s) :
    SerialInv s := by
  refine hReach.invariant ?_ ?_
  · rintro _ rfl
    exact ⟨nofun, nofun⟩
  · intro s l t hInv hOk hStep
    have hNext : step board s l = some t := hStep
    exact ⟨newest_step hInv hOk hNext, fun _ hRam => known_step hInv hNext hRam⟩

theorem goodArea_run
    (hOk : ∀ s l, ok s l → CutOk s l) (hReach : (system board factory).ReachableBy ok s) :
    GoodArea s := by
  refine hReach.invariant ?_ ?_
  · rintro _ rfl
    exact nofun
  · intro s l t hGood hStepOk hStep
    have hNext : step board s l = some t := hStep
    exact goodArea_step hGood (hOk s l hStepOk) hNext

/-
  In every run whose saves beat the serial of the other area,
  a boot that can read both areas imports the latest save that
  completed, unless that save's area was cut, and the memory
  knows the serial wherever no area failed to read.  If no cut
  strikes the last good area either, such a boot imports an
  older save where the latest one was cut.
-/
theorem env_keeps_completed_save (s : State) :
    ((system board factory).ReachableBy (SerialOk board) s →
      (∀ copy data, s.LatestSave copy data → s.imported = some data ∨ s.IsCut copy) ∧
      ∀ ram, s.ram = some ram → SerialKnown s ram) ∧
    ((system board factory).ReachableBy (fun s l => SerialOk board s l ∧ CutOk s l) s →
      s.KeepsSave) := by
  constructor
  · intro hReach
    have hAreas := areasHold_run board factory hReach
    have hSerial := serialInv_run board factory hReach
    refine ⟨?_, hSerial.known⟩
    intro copy data hLatest
    by_cases hCut : s.IsCut copy
    · exact Or.inr hCut
    · exact Or.inl (imported_latest hAreas hSerial.newest hLatest hCut)
  · intro hReach copy data hLatest
    have hAreas := areasHold_run board factory hReach
    have hSerial := serialInv_run board factory (hReach.mono fun _ _ hOk => hOk.1)
    by_cases hCut : s.IsCut copy
    · rcases goodArea_run board factory (fun _ _ hOk => hOk.2) hReach copy data hLatest with
        ⟨good, hGood⟩
      exact Or.inr ⟨hCut, imported_older hAreas hCut hGood⟩
    · exact Or.inl (imported_latest hAreas hSerial.newest hLatest hCut)

----
-- A Save That Is Kept And One That Is Lost
----

/- A board with eight bytes of environment. -/
def smallBoard : Board where
  config := ⟨64, 512⟩
  signed := false
  hooks := ⟨fun _ _ _ _ => false, fun _ _ _ _ => false⟩
  matchEntry := fun _ => false
  envSize := 8
  defaultEnvironment := [98, 61, 48, 0, 0]

/- The text "n=" with one more character. -/
def textN (c : UInt8) : List UInt8 :=
  [110, 61, c, 0, 0, 0, 0, 0]

def areaN (flags c : UInt8) : EnvT :=
  ⟨crc32 0 (textN c), flags, textN c⟩

/- The redundant area holds the newer environment. -/
def usedDevice (copy : Bool) : EnvT :=
  if copy then areaN 5 50 else areaN 4 49

def nameN : CString := ⟨[110], by decide⟩

def three : CString := ⟨[51], by decide⟩

/- The table with the one variable "n". -/
def tableN : HsearchData where
  table i :=
    if i = 3 then .live 3 ⟨nameN, three⟩ else .free
  size := 5
  filled := 1

/- The serial of the save is 6, and the boot saw both areas. -/
theorem env_keeps_new_save :
    ∃ s : State, (system smallBoard usedDevice).ReachableBy
        (fun s l => SerialOk smallBoard s l ∧ CutOk s l) s ∧
      s.history = [.saved false (textN 51)] ∧ s.KeepsSave := by
  rcases TransitionSystem.exists_reachableBy (step smallBoard)
      (fun s l => SerialOk smallBoard s l ∧ CutOk s l)
      (start usedDevice)
      [.boot false false, .edit (some tableN), .save]
      (fun s => s.history = [.saved false (textN 51)])
      (by decide +kernel) with
    ⟨s, hReach, hHistory⟩
  exact ⟨s, hReach, hHistory, (env_keeps_completed_save smallBoard usedDevice s).2 hReach⟩

/-
  The redundant area cannot be read once, and the save that
  follows gets the serial 1.
-/
theorem env_loses_completed_save :
    ∃ s : State, (system smallBoard usedDevice).Reachable s ∧ s.history = [.saved true (textN 51)] ∧
      s.imported = some (textN 49) ∧ ¬ s.KeepsSave := by
  rcases TransitionSystem.exists_reachableBy (step smallBoard) (fun _ _ => True) (start usedDevice)
      [.boot false true, .edit (some tableN), .save]
      (fun s => s.history = [.saved true (textN 51)] ∧ s.imported = some (textN 49))
      (by decide +kernel) with
    ⟨s, hReach, hHistory, hImported⟩
  refine ⟨s, hReach, hHistory, hImported, ?_⟩
  intro hKeeps
  have hLatest : s.LatestSave true (textN 51) := by
    unfold State.LatestSave
    rw [hHistory]
    rfl
  rcases hKeeps true (textN 51) hLatest with hNew | ⟨hCut, -⟩
  · rw [hImported] at hNew
    exact absurd hNew (by decide)
  · unfold State.IsCut at hCut
    rw [hHistory] at hCut
    exact absurd hCut (by decide)

end Uboot.Env.Redundant
