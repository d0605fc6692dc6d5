import BootFirmware.Uboot.Env.Redundant

/-
  Two areas of an MMC device that U-Boot and the tools for
  Linux both write, each in turn.

  Each program loads the areas again before it saves, after
  whatever write came last.  A power cut in a write leaves
  its area with a bad CRC.

  Key definitions include:
    * `Tools` and `flagScheme`
    * `fwEnvOpen` and `fwEnvFlush`
    * `Shared.State` and `Shared.step`
    * `Prefers`

  The main results are:
    * `Prefers.choose`
    * `Prefers.fwEnvOpen`
    * `Shared.areas_select_latest_save`
-/

----
-- The Tools
----

namespace Uboot.Env.Redundant

open Option

inductive MtdType where
  | absent
  | norFlash
  | nandFlash
  | dataFlash
  | ubiVolume
deriving DecidableEq, Repr

inductive FlagScheme where
  | none
  | boolean
  | incremental
deriving DecidableEq, Repr

/- What the tools know of the two devices. -/
structure Tools where
  mtdType : Bool → MtdType
  isUbi : Bool → Bool
  defaultEnvironment : List UInt8

/- The scheme for two devices, if they are compatible. -/
def flagScheme (tools : Tools) : Option FlagScheme :=
  let both type := tools.mtdType true = type ∧ tools.mtdType false = type
  if both .norFlash then some .boolean
  else if both .nandFlash then some .incremental
  else if both .dataFlash then some .boolean
  else if both .ubiVolume then some .incremental
  else if both .absent ∧ tools.isUbi true = tools.isUbi false then
    some .incremental
  else none

/- The comparison of the flags of two good areas. -/
def currentOfFlags : FlagScheme → UInt8 → UInt8 → Option Bool
  | .boolean, flag0, flag1 =>
    if flag0 = 1 ∧ flag1 = 0 then some false
    else if flag0 = 0 ∧ flag1 = 1 then some true
    else if flag0 = flag1 then some false
    else if flag0 = 255 then some false
    else if flag1 = 255 then some true
    else some false
  | .incremental, flag0, flag1 =>
    if flag0 = 255 ∧ flag1 = 0 then some true
    else if (flag1 = 255 ∧ flag0 = 0) ∨ flag0 ≥ flag1 then
      some false
    else some true
  | .none, _, _ => none

/- The environment that `fw_env_open` leaves. -/
structure Opened where
  devCurrent : Bool
  scheme : FlagScheme
  flags : UInt8
  data : List UInt8
deriving DecidableEq, Repr

/-
  Where both areas are bad, the default environment is copied
  over the start of the first one's data.
-/
def fwEnvOpen (tools : Tools) (flash : Bool → EnvT) :
    Option Opened :=
  (flagScheme tools).bind fun scheme =>
    let env0 := flash false
    let env1 := flash true
    let crc0Ok := crcOk env0
    let crc1Ok := crcOk env1
    if crc0Ok && !crc1Ok then
      some ⟨false, scheme, env0.flags, env0.data⟩
    else if !crc0Ok && crc1Ok then
      some ⟨true, scheme, env1.flags, env1.data⟩
    else if !crc0Ok && !crc1Ok then
      if env0.data.length < tools.defaultEnvironment.length then
        none
      else
        some ⟨false, scheme, env0.flags,
          tools.defaultEnvironment ++ env0.data.drop tools.defaultEnvironment.length⟩
    else
      (currentOfFlags scheme env0.flags env1.flags).map
        fun dev => ⟨dev, scheme, (flash dev).flags, (flash dev).data⟩

/- The flags that `flash_write` gives the new area. -/
def newFlags : FlagScheme → UInt8 → UInt8
  | .none, flags => flags
  | .incremental, flags => flags + 1
  | .boolean, _ => 1

/- The area that `fw_env_flush` writes. -/
def Opened.image (env : Opened) : EnvT :=
  ⟨crc32 0 env.data, newFlags env.scheme env.flags, env.data⟩

/- The areas after that, with the obsolete flag set. -/
def fwEnvFlush (env : Opened) (flash : Bool → EnvT) :
    Bool → EnvT :=
  fun area =>
    if area = !env.devCurrent then env.image
    else if env.scheme = .boolean then
      { flash area with flags := 0 }
    else flash area

----
-- The Preferred Area
----

variable {flash : Bool → EnvT} {area : Bool}

/- A good area whose serial beats that of the other one. -/
def Prefers (flash : Bool → EnvT) (area : Bool) : Prop :=
  crcOk (flash area) = true ∧
    (crcOk (flash (!area)) = true → selects area (flash area).flags (flash (!area)).flags = true)

/- Where one area is good, one of the two is preferred. -/
theorem exists_prefers (hOk : crcOk (flash area) = true) :
    ∃ a, Prefers flash a := by
  by_cases hSelects : crcOk (flash (!area)) = true →
      selects area (flash area).flags (flash (!area)).flags = true
  · exact ⟨area, hOk, hSelects⟩
  · rcases Classical.not_imp.mp hSelects with ⟨hOther, hNot⟩
    refine ⟨!area, hOther, fun _ => ?_⟩
    rw [Bool.not_not]
    have hSerial := serialCheck_ne_invalid (flash false).flags (flash true).flags
    unfold selects at hNot ⊢
    cases area with
    | false =>
      cases hCheck : serialCheck (flash false).flags (flash true).flags with
      | invalid => exact absurd hCheck hSerial
      | valid => simp [hCheck] at hNot
      | redund => simp [hCheck]
    | true =>
      cases hCheck : serialCheck (flash false).flags (flash true).flags with
      | invalid => exact absurd hCheck hSerial
      | valid => simp [hCheck]
      | redund => simp [hCheck] at hNot

/- How U-Boot names the areas. -/
def validOf (area : Bool) : EnvValid :=
  if area then .redund else .valid

theorem copy_validOf (area : Bool) : copy (validOf area) = !area := by
  cases area with
  | false => rfl
  | true => rfl

/- U-Boot selects the preferred area. -/
theorem Prefers.choose (hPrefers : Prefers flash area) (envValid : EnvValid) (envFlags : UInt8) :
    chooseArea envValid envFlags (flash false) false (flash true) false =
      ⟨validOf area, (flash area).flags, some (flash area, false)⟩ := by
  rcases hPrefers with ⟨hOk, hSelects⟩
  unfold chooseArea
  unfold selects at hSelects
  cases area with
  | false =>
    cases hOther : crcOk (flash true) with
    | false => simp [hOk, validOf]
    | true =>
      have hFirst := hSelects hOther
      simp only [Bool.not_false, Bool.false_eq_true, if_false, beq_iff_eq] at hFirst
      simp [hOk, hFirst, validOf]
  | true =>
    cases hOther : crcOk (flash false) with
    | false => simp [hOk, validOf]
    | true =>
      have hSecond := hSelects hOther
      simp only [Bool.not_true, if_true, beq_iff_eq] at hSecond
      simp [hOk, hSecond, validOf]

/- Both programs compare two serials in the same way. -/
theorem currentOfFlags_incremental (flags0 flags1 : UInt8) :
    currentOfFlags .incremental flags0 flags1 = some (serialCheck flags0 flags1 == .redund) := by
  unfold currentOfFlags serialCheck
  dsimp only
  by_cases hWrapped : flags0 = 255 ∧ flags1 = 0
  · rw [if_pos hWrapped, if_pos hWrapped]
    rfl
  rw [if_neg hWrapped, if_neg hWrapped]
  by_cases hOther : flags1 = 255 ∧ flags0 = 0
  · rw [if_pos (Or.inl hOther), if_pos hOther]
    rfl
  rw [if_neg hOther]
  by_cases hLess : flags1 > flags0
  · have hNotGe : ¬ flags0 ≥ flags1 := fun hGe =>
      absurd (UInt8.lt_iff_toNat_lt.mp hLess) (Nat.not_lt.mpr (UInt8.le_iff_toNat_le.mp hGe))
    have hNotGt : ¬ flags0 > flags1 := fun hGt =>
      absurd (UInt8.lt_iff_toNat_lt.mp hLess)
        (Nat.not_lt.mpr (Nat.le_of_lt (UInt8.lt_iff_toNat_lt.mp hGt)))
    rw [if_neg (not_or.mpr ⟨hOther, hNotGe⟩), if_neg hNotGt, if_pos hLess]
    rfl
  · have hGe : flags0 ≥ flags1 :=
      UInt8.le_iff_toNat_le.mpr (Nat.not_lt.mp fun hLt => hLess (UInt8.lt_iff_toNat_lt.mpr hLt))
    rw [if_pos (Or.inr hGe), if_neg hLess]
    split
    · rfl
    · rfl

theorem Prefers.fwEnvOpen (hPrefers : Prefers flash area) {tools : Tools}
    (hScheme : flagScheme tools = some .incremental) :
    Redundant.fwEnvOpen tools flash =
      some ⟨area, .incremental, (flash area).flags, (flash area).data⟩ := by
  rcases hPrefers with ⟨hOk, hSelects⟩
  unfold Redundant.fwEnvOpen
  rw [hScheme, bind_some]
  unfold selects at hSelects
  cases area with
  | false =>
    cases hOther : crcOk (flash true) with
    | false => simp [hOk, hOther]
    | true =>
      have hFirst := hSelects hOther
      simp only [Bool.not_false, Bool.false_eq_true, if_false, beq_iff_eq] at hFirst
      have hFlags := currentOfFlags_incremental (flash false).flags (flash true).flags
      rw [hFirst] at hFlags
      simp [hOk, hOther, hFlags, show (EnvValid.valid == .redund) = false from rfl]
  | true =>
    cases hOther : crcOk (flash false) with
    | false => simp [hOk, hOther]
    | true =>
      have hSecond := hSelects hOther
      simp only [Bool.not_true, if_true, beq_iff_eq] at hSecond
      have hFlags := currentOfFlags_incremental (flash false).flags (flash true).flags
      rw [hSecond] at hFlags
      simp [hOk, hOther, hFlags]

/- Replace one area. -/
def put (flash : Bool → EnvT) (area : Bool)
    (ep : EnvT) : Bool → EnvT :=
  fun a => if a = area then ep else flash a

@[simp] theorem put_self (ep : EnvT) : put flash area ep area = ep := by
  simp [put]

@[simp] theorem put_other (ep : EnvT) : put flash area ep (!area) = flash (!area) := by
  simp [put]

theorem fwEnvFlush_incremental
    {env : Opened} (hScheme : env.scheme = .incremental) (flash : Bool → EnvT) :
    fwEnvFlush env flash = put flash (!env.devCurrent) env.image := by
  funext a
  unfold fwEnvFlush put
  rw [hScheme]
  rfl

/-
  A program that knows the areas writes the other one than
  the preferred one, with the next serial.
-/
def Knows (flash : Bool → EnvT) (target : Bool)
    (flags : UInt8) : Prop :=
  ∀ a, Prefers flash a → target = !a ∧ flags = (flash a).flags

variable {target : Bool} {flags : UInt8} {ep : EnvT}

/- What it writes is preferred from then on. -/
theorem Knows.save
    (hKnows : Knows flash target flags) (hOk : crcOk ep = true) (hFlags : ep.flags = flags + 1) :
    Prefers (put flash target ep) target := by
  refine ⟨by rw [put_self]; exact hOk, ?_⟩
  rw [put_self, put_other]
  intro hOther
  rcases exists_prefers hOther with ⟨a, hPrefers⟩
  rcases hKnows a hPrefers with ⟨rfl, rfl⟩
  rw [Bool.not_not, hFlags]
  exact selects_succ _ _

theorem Knows.cut
    (hKnows : Knows flash target flags) (hBad : crcOk ep = false) (hPrefers : Prefers flash area) :
    Prefers (put flash target ep) area ∧ put flash target ep area = flash area := by
  rcases hKnows area hPrefers with ⟨rfl, -⟩
  have hSame : put flash (!area) ep area = flash area := by simp [put]
  refine ⟨⟨by rw [hSame]; exact hPrefers.1, ?_⟩, hSame⟩
  rw [put_self, hBad]
  exact nofun

----
-- Interleavings
----

namespace Shared

/-
  The areas, the variables of U-Boot and the environment of
  the tools.  The fields `loaded` and `history` are not the
  code's: they say that U-Boot has loaded since the latest
  write, and what was written, latest first.  An environment
  that the tools have open is given up with every write.
-/
structure State where
  flash : Bool → EnvT
  envValid : EnvValid
  envFlags : UInt8
  htab : Option HsearchData
  loaded : Bool
  opened : Option Opened
  history : List Event

inductive Step where
  | reset
  | ubootLoad
  | ubootEdit (htab : Option HsearchData)
  | ubootSave
  | ubootCut (left : EnvT)
  | fwOpen
  | fwEdit (data : List UInt8)
  | fwSave
  | fwCut (left : EnvT)

/- What U-Boot's load selects. -/
def State.choice (s : State) : Choice :=
  chooseArea s.envValid s.envFlags (s.flash false) false (s.flash true) false

/- The table that `env_mmc_load` leaves for an old one. -/
def reload (board : Board) (choice : Choice) (htab : Option HsearchData) :
    Option (Option HsearchData) :=
  match envImportRedund board choice htab with
  | none => none
  | some (ret, htab) =>
    if ret ≠ 0 then setDefaultEnv board htab
    else some htab

/- The power goes off: U-Boot's variables are set up anew. -/
def State.off (s : State) : State :=
  { s with
    envValid := .valid
    envFlags := 0
    htab := none
    loaded := false
    opened := none }

/- A write, after which both programs have to load again. -/
def State.write (s : State) (flash : Bool → EnvT) (event : Event) :
    State :=
  { s with
    flash
    loaded := false
    opened := none
    history := event :: s.history }

/- What U-Boot writes if it has loaded. -/
def State.exported (board : Board)
    (s : State) : Option (Option EnvT) :=
  if s.loaded then envExport board s.envFlags s.htab
  else none

def step (board : Board) (tools : Tools)
    (s : State) : Step → Option State
  | .reset => some s.off
  | .ubootLoad =>
    (reload board s.choice s.htab).map fun htab =>
      { s with
        envValid := s.choice.envValid
        envFlags := s.choice.envFlags
        htab
        loaded := true }
  | .ubootEdit htab => some { s with htab }
  | .ubootSave =>
    (s.exported board).map fun
      | none => s
      | some ep =>
        { s.write (put s.flash (copy s.envValid) ep) (.saved (copy s.envValid) ep.data) with
          envFlags := ep.flags
          envValid := toggled s.envValid }
  | .ubootCut left =>
    (s.exported board).bind fun
      | none => none
      | some _ =>
        if crcOk left then none
        else
          some (s.write (put s.flash (copy s.envValid) left) (.cut (copy s.envValid))).off
  | .fwOpen =>
    (fwEnvOpen tools s.flash).map fun env => { s with opened := some env }
  | .fwEdit data =>
    s.opened.map fun env => { s with opened := some { env with data } }
  | .fwSave =>
    s.opened.map fun env => s.write (fwEnvFlush env s.flash) (.saved (!env.devCurrent) env.data)
  | .fwCut left =>
    s.opened.bind fun env =>
      if crcOk left then none
      else
        some (s.write (put s.flash (!env.devCurrent) left) (.cut (!env.devCurrent))).off

/- Two areas with any contents, and the power just on. -/
def start (factory : Bool → EnvT) : State :=
  ⟨factory, .valid, 0, none, false, none, []⟩

def system (board : Board) (tools : Tools) (factory : Bool → EnvT) :
    TransitionSystem State Step :=
  .ofStep (start factory) (step board tools)

/- The latest save that completed. -/
def State.LatestSave (s : State) (area : Bool)
    (data : List UInt8) : Prop :=
  s.history.find? Event.isSave = some (.saved area data)

/-
  The latest save is in the preferred area, and a program
  that has loaded knows the areas.
-/
structure Inv (s : State) : Prop where
  latest : ∀ area data, s.LatestSave area data → Prefers s.flash area ∧ (s.flash area).data = data
  uboot : s.loaded = true → Knows s.flash (copy s.envValid) s.envFlags
  tools : ∀ env, s.opened = some env →
    env.scheme = .incremental ∧ Knows s.flash (!env.devCurrent) env.flags

variable {s t : State} {board : Board} {tools : Tools}

theorem Inv.off (hInv : Inv s) : Inv s.off :=
  ⟨hInv.latest, nofun, nofun⟩

/- A completed save, by whichever program. -/
theorem Inv.saved (hKnows : Knows s.flash target flags) {ep : EnvT}
    (hOk : crcOk ep = true) (hFlags : ep.flags = flags + 1) :
    Inv (s.write (put s.flash target ep) (.saved target ep.data)) := by
  refine ⟨?_, nofun, nofun⟩
  intro area data hLatest
  have hEvent : some (Event.saved target ep.data) = some (.saved area data) := hLatest
  cases hEvent
  refine ⟨hKnows.save hOk hFlags, ?_⟩
  exact congrArg EnvT.data (put_self ep)

theorem Inv.cut
    (hInv : Inv s) (hKnows : Knows s.flash target flags) {left : EnvT} (hBad : crcOk left = false) :
    Inv (s.write (put s.flash target left) (.cut target)) := by
  refine ⟨?_, nofun, nofun⟩
  intro area data hLatest
  have hOld : s.LatestSave area data := hLatest
  rcases hInv.latest area data hOld with ⟨hPrefers, hData⟩
  rcases hKnows.cut hBad hPrefers with ⟨hStill, hSame⟩
  exact ⟨hStill, (congrArg EnvT.data hSame).trans hData⟩

/- What a load has selected is known. -/
theorem knows_choice (s : State) :
    Knows s.flash (copy s.choice.envValid)
      s.choice.envFlags := by
  intro a hPrefers
  unfold State.choice
  rw [hPrefers.choose]
  exact ⟨copy_validOf a, rfl⟩

theorem knows_opened (hScheme : flagScheme tools = some .incremental) {env : Opened}
    (hOpen : fwEnvOpen tools s.flash = some env) :
    env.scheme = .incremental ∧ Knows s.flash (!env.devCurrent) env.flags := by
  refine ⟨?_, ?_⟩
  · unfold fwEnvOpen at hOpen
    rw [hScheme, bind_some] at hOpen
    dsimp only at hOpen
    split at hOpen
    · cases hOpen
      rfl
    · split at hOpen
      · cases hOpen
        rfl
      · split at hOpen
        · split at hOpen
          · cases hOpen
          · cases hOpen
            rfl
        · rcases map_eq_some_iff.mp hOpen with ⟨dev, -, rfl⟩
          rfl
  · intro a hPrefers
    rw [hPrefers.fwEnvOpen hScheme] at hOpen
    cases hOpen
    exact ⟨rfl, rfl⟩

theorem inv_step (hScheme : flagScheme tools = some .incremental) {l : Step}
    (hInv : Inv s) (hStep : step board tools s l = some t) :
    Inv t := by
  cases l with
  | reset =>
    cases hStep
    exact hInv.off
  | ubootLoad =>
    rcases map_eq_some_iff.mp hStep with ⟨htab, -, rfl⟩
    exact ⟨hInv.latest, fun _ => knows_choice s, hInv.tools⟩
  | ubootEdit htab =>
    cases hStep
    exact ⟨hInv.latest, hInv.uboot, hInv.tools⟩
  | ubootSave =>
    rcases map_eq_some_iff.mp hStep with ⟨left, hExport, rfl⟩
    cases left with
    | none => exact hInv
    | some ep =>
      unfold State.exported at hExport
      split at hExport
      · rename_i hLoaded
        rcases envExport_area hExport with ⟨hOk, hFlags⟩
        have hSaved := Inv.saved (hInv.uboot hLoaded) hOk hFlags
        exact ⟨hSaved.latest, nofun, nofun⟩
      · cases hExport
  | ubootCut left =>
    rcases bind_eq_some_iff.mp hStep with ⟨ep, hExport, hLeft⟩
    cases ep with
    | none => cases hLeft
    | some ep =>
      unfold State.exported at hExport
      split at hExport
      · rename_i hLoaded
        dsimp only at hLeft
        split at hLeft
        · cases hLeft
        · rename_i hBad
          cases hLeft
          exact (hInv.cut (hInv.uboot hLoaded) (Bool.eq_false_iff.mpr hBad)).off
      · cases hExport
  | fwOpen =>
    rcases map_eq_some_iff.mp hStep with ⟨env, hOpen, rfl⟩
    refine ⟨hInv.latest, hInv.uboot, ?_⟩
    rintro _ ⟨⟩
    exact knows_opened hScheme hOpen
  | fwEdit data =>
    rcases map_eq_some_iff.mp hStep with ⟨env, hOpened, rfl⟩
    refine ⟨hInv.latest, hInv.uboot, ?_⟩
    rintro _ ⟨⟩
    exact hInv.tools env hOpened
  | fwSave =>
    rcases map_eq_some_iff.mp hStep with ⟨env, hOpened, rfl⟩
    rcases hInv.tools env hOpened with ⟨hIncr, hKnows⟩
    rw [fwEnvFlush_incremental hIncr]
    have hOk : crcOk env.image = true := beq_self_eq_true _
    have hFlags : env.image.flags = env.flags + 1 := by
      unfold Opened.image
      rw [hIncr]
      rfl
    exact Inv.saved hKnows hOk hFlags
  | fwCut left =>
    rcases bind_eq_some_iff.mp hStep with ⟨env, hOpened, hLeft⟩
    split at hLeft
    · cases hLeft
    · rename_i hBad
      cases hLeft
      exact (hInv.cut (hInv.tools env hOpened).2 (Bool.eq_false_iff.mpr hBad)).off

/-
  Once a save has completed, a load by either program selects
  the area of the latest one, and finds what that saved.
-/
theorem areas_select_latest_save
    (board : Board) (tools : Tools) (hScheme : flagScheme tools = some .incremental)
    (factory : Bool → EnvT) {s : State} (hReach : (system board tools factory).Reachable s)
    {area : Bool} {data : List UInt8} (hLatest : s.LatestSave area data) :
    s.choice.envValid = validOf area ∧ s.choice.area = some (s.flash area, false) ∧
    s.choice.imported = some data ∧
    ∃ env, fwEnvOpen tools s.flash = some env ∧ env.devCurrent = area ∧ env.data = data := by
  have hInv : Inv s := by
    refine TransitionSystem.ReachableBy.invariant ?_ ?_ hReach
    · rintro _ rfl
      exact ⟨nofun, nofun, nofun⟩
    · intro s l t hInv _ hStep
      exact inv_step hScheme hInv hStep
  rcases hInv.latest area data hLatest with ⟨hPrefers, hData⟩
  have hChoice := hPrefers.choose s.envValid s.envFlags
  unfold State.choice
  rw [hChoice]
  refine ⟨rfl, rfl, ?_, _, hPrefers.fwEnvOpen hScheme, rfl, hData⟩
  unfold Choice.imported
  rw [← hData]
  rfl

/- Two files of a block device. -/
def blockTools : Tools :=
  ⟨fun _ => .absent, fun _ => false, [98, 61, 48, 0, 0]⟩

/- The next serial wraps. -/
def wrappingDevice (area : Bool) : EnvT :=
  if area then areaN 255 50 else areaN 254 49

/- The tools save with serial 0, then U-Boot with serial 1. -/
theorem areas_select_save_after_wrap :
    ∃ s : State, (system smallBoard blockTools wrappingDevice).Reachable s ∧
      s.history = [.saved true (textN 51), .saved false (textN 55)] ∧ s.choice.envValid = .redund ∧
      ∃ env, fwEnvOpen blockTools s.flash = some env ∧ env.devCurrent = true ∧
        env.data = textN 51 := by
  rcases TransitionSystem.exists_reachableBy (step smallBoard blockTools) (fun _ _ => True)
      (start wrappingDevice)
      [.fwOpen, .fwEdit (textN 55), .fwSave, .ubootLoad, .ubootEdit (some tableN), .ubootSave]
      (fun s => s.history = [.saved true (textN 51), .saved false (textN 55)])
      (by decide +kernel) with
    ⟨s, hReach, hHistory⟩
  have hLatest : s.LatestSave true (textN 51) := by
    unfold State.LatestSave
    rw [hHistory]
    rfl
  rcases areas_select_latest_save smallBoard blockTools
    (by decide) wrappingDevice hReach hLatest with ⟨hValid, -, -, hOpen⟩
  exact ⟨s, hReach, hHistory, hValid, hOpen⟩

end Shared

end Uboot.Env.Redundant
