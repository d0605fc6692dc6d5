import BootFirmware.Uboot.Env.SpiFlash

/-
  The environment in SPI flash after power cuts.

  The area that a save does not erase is good and holds a
  recent environment until the flag of that area is cleared.
  By then the other area is good and holds the new one.

  Key definitions include:
    * `Survives`

  The main results are:
    * `env_sf_survives_power_cut`
    * `env_sf_keeps_earlier_interrupted`
-/

----
-- What Is Written
----

namespace Uboot.Env.SpiFlash

open Redundant NorFlash Words List Function Option

theorem length_clearBuffer
    {buf cleared : List UInt8} (hClear : clearBuffer (some buf) buf.length = some cleared) :
    cleared.length = buf.length := by
  unfold clearBuffer at hClear
  dsimp only at hClear
  rw [if_neg (Nat.lt_irrefl _)] at hClear
  cases hClear
  simp

theorem length_writeText
    {cleared text res : List UInt8} (hWrite : writeText cleared text = some res) :
    res.length = cleared.length := by
  unfold writeText at hWrite
  split at hWrite
  · cases hWrite
  · rename_i hFits
    cases hWrite
    rw [length_append, length_drop]
    exact Nat.add_sub_of_le (Nat.not_lt.mp hFits)

variable {matchEntry : Entry → Bool} {htab : HsearchData}

/- An export fills a buffer that is not empty. -/
theorem length_hexportR
    {sep : UInt8} {flag argc : Nat} {buf res : List UInt8} {len : Int} {size : Nat}
    (hSize : buf.length = size) (hExport : hexportR matchEntry htab sep flag (some buf)
      size argc = some (len, res))
    (hLen : ¬ len < 0) (hBuf : size ≠ 0) :
    res.length = size := by
  subst hSize
  unfold hexportR at hExport
  split at hExport
  · cases hExport
  · dsimp only at hExport
    split at hExport
    · cases hExport
      exact absurd (by decide : (-1 : Int) < 0) hLen
    · split at hExport
      · cases hExport
      · rename_i cleared hClear
        rcases map_eq_some_iff.mp hExport with ⟨text, hText, hRes⟩
        cases hRes
        exact (length_writeText hText).trans (length_clearBuffer hClear)

/- No text fits an empty buffer. -/
theorem hexportR_empty {sep : UInt8} {flag argc : Nat} :
    hexportR matchEntry htab sep flag (some []) 0 argc = none := by
  unfold hexportR
  split
  · rfl
  · simp [clearBuffer]

theorem envNew_spec {board : FlashBoard} {htab : Option HsearchData} {ep : EnvT}
    (hNew : envNew board htab = some (some ep)) :
    crcOk ep = true ∧ ep.flags = activeFlag ∧ ep.data.length = board.envSize := by
  rcases map_eq_some_iff.mp hNew with ⟨res, hExport, hRes⟩
  rcases map_eq_some_iff.mp hRes with ⟨old, rfl, rfl⟩
  refine ⟨(envExport_area hExport).1, rfl, ?_⟩
  have hBuf : (List.replicate board.envSize (0 : UInt8)).length = board.envSize := length_replicate
  unfold envExport at hExport
  split at hExport
  · cases hExport
  · rename_i len res hText
    split at hExport
    · cases hExport
    · rename_i hLen
      cases hExport
      by_cases hZero : board.envSize = 0
      · rw [hZero, replicate_zero, hexportR_empty] at hText
        cases hText
      · exact length_hexportR hBuf hText hLen hZero

theorem length_envBytes (ep : EnvT) : (envBytes ep).length = configEnvSize ep.data.length := by
  unfold envBytes configEnvSize
  rw [length_append, length_wordBytes, length_cons]
  omega

theorem readArea_of_bytes {flash : Memory UInt8} {off : Nat} {ep : EnvT}
    (hBytes : flash.slice off (envBytes ep).length = envBytes ep) :
    readArea ep.data.length flash off = ep := by
  rw [length_envBytes,
    show configEnvSize ep.data.length = 4 + (ep.data.length + 1) by unfold configEnvSize; omega,
    Memory.slice_add] at hBytes
  rcases append_inj hBytes (by simp) with ⟨hCrc, hRest⟩
  rw [Memory.slice_succ] at hRest
  rcases List.cons.inj hRest with ⟨hFlags, hData⟩
  unfold readArea
  rw [hCrc, hFlags, wordOfBytes_wordBytes, show off + 5 = off + 4 + 1 from rfl, hData]

variable {flash flash' : Memory UInt8} {envSize off : Nat}

theorem readArea_congr
    (hSame : ∀ j, off ≤ j → j < off + configEnvSize envSize → flash' j = flash j) :
    readArea envSize flash' off = readArea envSize flash off := by
  have hSlice : ∀ start len, start + len ≤ 5 + envSize →
      flash'.slice (off + start) len = flash.slice (off + start) len := by
    intro start len hIn
    apply Memory.slice_congr
    intro i hi
    apply hSame _ (by omega)
    unfold configEnvSize
    omega
  have hFlags : flash' (off + 4) = flash (off + 4) :=
    hSame _ (by omega) (by unfold configEnvSize; omega)
  have hCrc : flash'.slice off 4 = flash.slice off 4 := hSlice 0 4 (by omega)
  unfold readArea
  rw [hFlags, hCrc, hSlice 5 envSize (Nat.le_refl _)]

theorem readArea_congr_flag
    (hSame : ∀ j, off ≤ j → j < off + configEnvSize envSize → j ≠ off + 4 → flash' j = flash j) :
    readArea envSize flash' off =
      { readArea envSize flash off with
        flags := flash' (off + 4) } := by
  have hAll : ∀ j, off ≤ j → j < off + configEnvSize envSize →
      flash' j = update flash (off + 4) (flash' (off + 4)) j := by
    intro j hLe hLt
    by_cases hFlag : j = off + 4
    · rw [hFlag, update_self]
    · rw [update_of_ne hFlag]
      exact hSame j hLe hLt hFlag
  have hSlice : ∀ start len, start + len ≤ off + 4 ∨ off + 4 < start →
      Memory.slice (update flash (off + 4) (flash' (off + 4))) start len =
        flash.slice start len := by
    intro start len hApart
    apply Memory.slice_congr
    intro i hi
    apply update_of_ne
    omega
  rw [readArea_congr hAll]
  unfold readArea
  rw [update_self, hSlice off 4 (Or.inl (Nat.le_refl _)),
    hSlice (off + 5) envSize (Or.inr (by omega))]

----
-- What The Steps Of A Save Leave
----

section Save

variable (board : FlashBoard)

theorem configEnvSize_le_eraseLen : board.configEnvSize ≤ board.eraseLen := by
  have hSect := board.hSect
  have hDiv := Nat.div_add_mod (board.configEnvSize + board.envSectSize - 1) board.envSectSize
  have hMod := Nat.mod_lt (board.configEnvSize + board.envSectSize - 1) hSect
  rw [Nat.mul_comm] at hDiv
  have hLen : board.eraseLen =
      (board.configEnvSize + board.envSectSize - 1) / board.envSectSize * board.envSectSize := rfl
  omega

theorem configEnvSize_pos : 0 < board.configEnvSize :=
  Nat.succ_pos _

/- At least one sector is erased. -/
theorem envSectSize_le_eraseLen : board.envSectSize ≤ board.eraseLen := by
  have hSect := board.hSect
  have hPos := configEnvSize_pos board
  apply Nat.le_mul_of_pos_left
  apply Nat.div_pos _ hSect
  show board.envSectSize ≤ board.configEnvSize + board.envSectSize - 1
  omega

theorem offset_apart (copy : Bool) :
    board.offset copy + board.eraseLen ≤ board.offset (!copy) ∨
      board.offset (!copy) + board.eraseLen ≤ board.offset copy := by
  cases copy with
  | false => exact board.hApart
  | true => exact board.hApart.symm

variable {board : FlashBoard} {copy : Bool} {flash : Memory UInt8} {ep : EnvT} {j : Nat}

theorem eraseBlocks (hAligned : board.aligned copy = true) :
    board.eraseLen / board.eraseSize * board.eraseSize = board.eraseLen := by
  rcases Bool.and_eq_true_iff.mp hAligned with ⟨-, hLen⟩
  apply Nat.div_mul_cancel
  exact Nat.dvd_of_mod_eq_zero (beq_iff_eq.mp hLen)

theorem avoids_areaSteps
    (hAligned : board.aligned copy = true) (hLength : ep.data.length = board.envSize)
    (hOut : j < board.offset copy ∨ board.offset copy + board.eraseLen ≤ j) :
    ∀ step ∈ areaSteps board copy ep, step.Avoids board.eraseSize j := by
  intro step hStep
  have hFits := configEnvSize_le_eraseLen board
  have hBytes : (envBytes ep).length = board.configEnvSize :=
    (length_envBytes ep).trans (congrArg configEnvSize hLength)
  rcases mem_append.mp hStep with hErase | hProgram
  · apply avoids_eraseSteps _ _ step hErase
    rw [eraseBlocks hAligned]
    exact hOut
  · apply avoids_programSteps _ _ _ step hProgram
    omega

/- The rest of the sector lies behind the environment. -/
theorem avoids_savedSteps
    (hOut : j < board.offset copy + board.configEnvSize ∨ board.offset copy + board.eraseLen ≤ j) :
    ∀ step ∈ savedSteps board copy flash, step.Avoids board.eraseSize j := by
  intro step hStep
  have hFits := envSectSize_le_eraseLen board
  unfold savedSteps at hStep
  split at hStep
  · rename_i hLarge
    apply avoids_programSteps _ _ _ step hStep
    rw [Memory.length_slice]
    omega
  · cases hStep

theorem avoids_flagSteps (hOut : j ≠ board.offset (!copy) + 4) :
    ∀ step ∈ flagSteps board copy, step.Avoids board.eraseSize j := by
  apply avoids_programSteps
  rw [length_singleton]
  omega

section

variable (flash : Memory UInt8) (hAligned : board.aligned copy = true)
  (hLength : ep.data.length = board.envSize)
include hAligned hLength

theorem other_saveSteps (done : Nat) :
    area board (runSteps board.eraseSize flash
        ((saveSteps board copy flash ep).take done)) (!copy) =
      { area board flash (!copy) with
        flags := runSteps board.eraseSize flash ((saveSteps board copy flash ep).take done)
          (board.offset (!copy) + 4) } := by
  apply readArea_congr_flag
  intro j hLe hLt hFlag
  have hApart := offset_apart board copy
  have hFits : configEnvSize board.envSize ≤ board.eraseLen := configEnvSize_le_eraseLen board
  have hOut : j < board.offset copy ∨ board.offset copy + board.eraseLen ≤ j := by omega
  apply runSteps_avoids
  intro step hTake
  have hStep := mem_of_mem_take hTake
  rcases mem_append.mp hStep with hArea | hRest
  · exact avoids_areaSteps hAligned hLength hOut step hArea
  · rcases mem_append.mp hRest with hSaved | hFlags
    · apply avoids_savedSteps _ step hSaved
      exact hOut.imp_left (Nat.lt_add_right _)
    · exact avoids_flagSteps hFlag step hFlags

/- The environment is in the area once it was written. -/
theorem area_areaSteps :
    area board (runSteps board.eraseSize flash (areaSteps board copy ep)) copy = ep := by
  have hFits := configEnvSize_le_eraseLen board
  have hBytes : (envBytes ep).length = board.configEnvSize :=
    (length_envBytes ep).trans (congrArg configEnvSize hLength)
  unfold area
  rw [← hLength]
  apply readArea_of_bytes
  unfold areaSteps
  rw [runSteps_append]
  apply slice_programSteps
  intro i hi
  apply runSteps_eraseSteps
  rw [eraseBlocks hAligned]
  omega

theorem area_saveSteps {done : Nat} (hDone : (areaSteps board copy ep).length ≤ done) :
    area board (runSteps board.eraseSize flash
      ((saveSteps board copy flash ep).take done)) copy = ep := by
  have hApart := offset_apart board copy
  have hFits := configEnvSize_le_eraseLen board
  have hOther : 4 < configEnvSize board.envSize := by
    unfold configEnvSize
    omega
  refine Eq.trans ?_ (area_areaSteps flash hAligned hLength)
  unfold saveSteps
  rw [take_append, take_of_length_le hDone, runSteps_append]
  apply readArea_congr
  intro j hLe hLt
  apply runSteps_avoids
  intro step hTake
  rcases mem_append.mp (mem_of_mem_take hTake) with
    hSaved | hFlags
  · exact avoids_savedSteps (Or.inl hLt) step hSaved
  · apply avoids_flagSteps _ step hFlags
    have hSize : configEnvSize board.envSize ≤ board.eraseLen := hFits
    omega

theorem area_saved :
    area board (runSteps board.eraseSize flash (saveSteps board copy flash ep)) copy = ep := by
  have hDone : (areaSteps board copy ep).length ≤ (saveSteps board copy flash ep).length := by
    unfold saveSteps
    rw [length_append]
    exact Nat.le_add_right _ _
  have hAll := area_saveSteps flash hAligned hLength hDone
  rwa [take_length] at hAll

end

theorem flags_saveSteps :
    (area board (runSteps board.eraseSize flash
      (saveSteps board copy flash ep)) (!copy)).flags = obsoleteFlag := by
  unfold saveSteps flagSteps
  rw [runSteps_append, runSteps_append]
  refine (if_pos rfl).trans ?_
  exact UInt8.and_zero

end Save

----
-- What A Boot Chooses
----

section Boot

variable {board : FlashBoard} {flash : Memory UInt8} {copy : Bool}

theorem imported_selected (hOk : crcOk (area board flash copy) = true)
    (hSelects : crcOk (area board flash (!copy)) = true →
      selects copy (area board flash copy).flags (area board flash (!copy)).flags = true) :
    (choice board flash).imported = some (area board flash copy).data := by
  have hImported := imported_of_selects (s := Redundant.start (area board flash)) hOk hSelects
  exact hImported

theorem selects_or (copy : Bool) (flags other : UInt8) :
    selects copy flags other = true ∨ selects (!copy) other flags = true := by
  unfold selects
  cases copy with
  | false =>
    have hSerial := serialCheck_ne_invalid flags other
    cases hCheck : serialCheck flags other with
    | invalid => exact absurd hCheck hSerial
    | valid => exact Or.inl rfl
    | redund => exact Or.inr rfl
  | true =>
    have hSerial := serialCheck_ne_invalid other flags
    cases hCheck : serialCheck other flags with
    | invalid => exact absurd hCheck hSerial
    | valid => exact Or.inr rfl
    | redund => exact Or.inl rfl

/- With a good area, a boot imports it or the other one. -/
theorem imported_either (hOk : crcOk (area board flash copy) = true) :
    (choice board flash).imported = some (area board flash copy).data ∨
      (choice board flash).imported = some (area board flash (!copy)).data := by
  rcases selects_or copy (area board flash copy).flags
      (area board flash (!copy)).flags with hThis | hOther
  · exact Or.inl (imported_selected hOk fun _ => hThis)
  · cases hOtherOk : crcOk (area board flash (!copy)) with
    | false =>
      apply Or.inl
      apply imported_selected hOk
      intro hGood
      rw [hOtherOk] at hGood
      cases hGood
    | true =>
      apply Or.inr
      apply imported_selected hOtherOk
      intro _
      rw [Bool.not_not]
      exact hOther

/- The area that a boot takes its variables from. -/
theorem choice_area {data : List UInt8} (hImported : (choice board flash).imported = some data) :
    ∃ ep, ep = area board flash (!Redundant.copy (choice board flash).envValid) ∧
      (choice board flash).area = some (ep, false) ∧ crcOk ep = true ∧ ep.data = data := by
  have hSerial := serialCheck_ne_invalid (area board flash false).flags
    (area board flash true).flags
  unfold choice chooseArea Choice.imported at *
  cases hFirst : crcOk (area board flash false) with
  | false =>
    cases hSecond : crcOk (area board flash true) with
    | false => simp [hFirst, hSecond] at hImported
    | true =>
      simp only [hFirst, hSecond] at hImported ⊢
      exact ⟨_, rfl, rfl, hSecond, Option.some.inj hImported⟩
  | true =>
    cases hSecond : crcOk (area board flash true) with
    | false =>
      simp only [hFirst, hSecond] at hImported ⊢
      exact ⟨_, rfl, rfl, hFirst, Option.some.inj hImported⟩
    | true =>
      cases hCheck : serialCheck (area board flash false).flags (area board flash true).flags with
      | invalid => exact absurd hCheck hSerial
      | valid =>
        simp only [hFirst, hSecond, hCheck] at hImported ⊢
        exact ⟨_, rfl, rfl, hFirst, Option.some.inj hImported⟩
      | redund =>
        simp only [hFirst, hSecond, hCheck] at hImported ⊢
        exact ⟨_, rfl, rfl, hSecond, Option.some.inj hImported⟩

end Boot

----
-- What A Step Does
----

section Steps

variable {board : FlashBoard} {s t : State}

variable {ram : Ram} {ep : EnvT}

theorem writes_spec (hWrites : s.writes board = some (some (ram, ep))) :
    s.ram = some ram ∧ board.aligned (copy ram.envValid) = true ∧
      crcOk ep = true ∧ ep.flags = activeFlag ∧ ep.data.length = board.envSize := by
  rcases bind_eq_some_iff.mp hWrites with ⟨ram', hRam, hRest⟩
  rcases map_eq_some_iff.mp hRest with ⟨res, hNew, hRes⟩
  rcases map_eq_some_iff.mp hRes with ⟨ep', hFilter, hPair⟩
  cases hPair
  rcases filter_eq_some_iff.mp hFilter with ⟨rfl, hAligned⟩
  exact ⟨hRam, hAligned, envNew_spec hNew⟩

theorem step_boot (hStep : step board s .boot = some t) :
    ∃ htab, t =
      { s with
        ram := some ⟨(choice board s.flash).envValid, htab⟩ } := by
  rcases map_eq_some_iff.mp hStep with ⟨r, -, rfl⟩
  exact ⟨r.2, rfl⟩

theorem step_edit {htab : Option HsearchData} (hStep : step board s (.edit htab) = some t) :
    ∃ ram, s.ram = some ram ∧ t = { s with ram := some { ram with htab } } := by
  rcases map_eq_some_iff.mp hStep with ⟨ram, hRam, rfl⟩
  exact ⟨ram, hRam, rfl⟩

theorem step_save {noMem : Bool} (hStep : step board s (.save noMem) = some t) :
    t = s ∨ ∃ ram ep, s.writes board = some (some (ram, ep)) ∧ t = s.afterSave board ram ep := by
  rcases map_eq_some_iff.mp hStep with ⟨res, hWrites, hRes⟩
  cases res with
  | none => exact Or.inl hRes.symm
  | some pair =>
    dsimp only at hRes
    split at hRes
    · exact Or.inl hRes.symm
    · exact Or.inr ⟨pair.1, pair.2, hWrites, hRes.symm⟩

variable {done : Nat}

theorem step_failSave (hStep : step board s (.failSave done) = some t) :
    ∃ ram ep, s.writes board = some (some (ram, ep)) ∧ t = s.stop board ram ep done := by
  rcases bind_eq_some_iff.mp hStep with ⟨res, hWrites, hRes⟩
  cases res with
  | none => cases hRes
  | some pair => exact ⟨pair.1, pair.2, hWrites, (Option.some.inj hRes).symm⟩

theorem step_cutSave (hStep : step board s (.cutSave done) = some t) :
    ∃ ram ep, s.writes board = some (some (ram, ep)) ∧
      t = { s.stop board ram ep done with ram := none } := by
  rcases bind_eq_some_iff.mp hStep with ⟨res, hWrites, hRes⟩
  cases res with
  | none => cases hRes
  | some pair => exact ⟨pair.1, pair.2, hWrites, (Option.some.inj hRes).symm⟩

theorem latestSave_stopped
    {data stopped : List UInt8} (hHistory : t.history = .stopped stopped :: s.history) :
    t.LatestSave data ↔ s.LatestSave data := by
  unfold State.LatestSave
  rw [hHistory, find?_cons_of_neg (by exact Bool.false_ne_true)]

----
-- A Recent Environment Survives
----

/- The area that the next save does not erase. -/
def State.other (board : FlashBoard) (s : State) (ram : Ram) :
    EnvT :=
  area board s.flash (!copy ram.envValid)

structure Survives (board : FlashBoard) (s : State) : Prop where
  imported : ∃ data ∈ recent s.history, s.imported board = some data
  other : ∀ ram, s.ram = some ram →
    crcOk (s.other board ram) = true ∧ (s.other board ram).data ∈ recent s.history

structure PowerInv (board : FlashBoard) (s : State) : Prop where
  valid : ∀ ram, s.ram = some ram → ram.envValid ≠ .invalid
  survives : ∀ data, s.LatestSave data → Survives board s

/- An imported area is good, and the next save spares it. -/
theorem Survives.boot (hSurvives : Survives board s) (htab : Option HsearchData) :
    Survives board
      { s with
        ram := some ⟨(choice board s.flash).envValid, htab⟩ } := by
  rcases hSurvives.imported with ⟨data, hRecent, hImported⟩
  rcases choice_area hImported with ⟨ep, hArea, -, hOk, rfl⟩
  refine ⟨⟨ep.data, hRecent, hImported⟩, ?_⟩
  intro ram hRam
  cases hRam
  unfold State.other
  rw [← hArea]
  exact ⟨hOk, hRecent⟩

/- A completed save is what the next boot imports. -/
theorem survives_afterSave
    (hValid : ram.envValid ≠ .invalid) (hWrites : s.writes board = some (some (ram, ep))) :
    Survives board (s.afterSave board ram ep) := by
  rcases writes_spec hWrites with ⟨-, hAligned, hOk, hFlags, hLength⟩
  have hNew : area board (s.afterSave board ram ep).flash (copy ram.envValid) = ep :=
    area_saved s.flash hAligned hLength
  have hOld : (area board (s.afterSave board ram ep).flash
      (!copy ram.envValid)).flags = obsoleteFlag :=
    flags_saveSteps
  have hRecent : ep.data ∈ recent (s.afterSave board ram ep).history := mem_singleton_self _
  constructor
  · refine ⟨ep.data, hRecent, ?_⟩
    have hImported : (s.afterSave board ram ep).imported
        board = some (area board (s.afterSave board ram ep).flash (copy ram.envValid)).data := by
      apply imported_selected
      · rwa [hNew]
      · intro _
        rw [hNew, hOld, hFlags]
        cases copy ram.envValid <;> rfl
    rwa [hNew] at hImported
  · intro ram' hRam
    cases hRam
    unfold State.other
    rw [not_copy_toggled hValid, hNew]
    exact ⟨hOk, hRecent⟩

theorem partlyWritten_eq (hWrites : s.writes board = some (some (ram, ep)))
    (hPart : 0 < done ∧ done < (areaSteps board (copy ram.envValid) ep).length) :
    s.partlyWritten board done =
      some (area board (s.stop board ram ep done).flash (copy ram.envValid)) := by
  unfold State.partlyWritten
  rw [hWrites]
  exact if_pos hPart

/-
  A save that stops leaves the old environment, the new one
  or both.  Until the new one is complete, the old one is the
  only good area.
-/
theorem Survives.stop
    (hSurvives : Survives board s) (hWrites : s.writes board = some (some (ram, ep)))
    (hDetects : ∀ ep ∈ s.partlyWritten board done, crcOk ep = false) :
    Survives board (s.stop board ram ep done) := by
  rcases writes_spec hWrites with ⟨hRam, hAligned, hOk, -, hLength⟩
  rcases hSurvives.other ram hRam with ⟨hOther, hRecent⟩
  have hOld := other_saveSteps s.flash hAligned hLength done
  have hOldOk : crcOk (area board (s.stop board ram ep done).flash (!copy ram.envValid)) = true :=
    (congrArg crcOk hOld).trans hOther
  have hOldData : (area board (s.stop board ram ep done).flash
      (!copy ram.envValid)).data ∈ recent (s.stop board ram ep done).history := by
    apply mem_cons_of_mem
    exact (congrArg EnvT.data hOld).symm ▸ hRecent
  constructor
  · by_cases hPart : done < (areaSteps board (copy ram.envValid) ep).length
    · rcases Nat.eq_zero_or_pos done with rfl | hPos
      · rcases hSurvives.imported with ⟨data, hData, hImported⟩
        exact ⟨data, mem_cons_of_mem _ hData, hImported⟩
      · refine ⟨_, hOldData, ?_⟩
        apply imported_selected hOldOk
        intro hNew
        have hBad := hDetects _ (partlyWritten_eq hWrites ⟨hPos, hPart⟩)
        rw [Bool.not_not, hBad] at hNew
        cases hNew
    · have hNew : area board (s.stop board ram ep done).flash (copy ram.envValid) = ep :=
        area_saveSteps s.flash hAligned hLength (Nat.not_lt.mp hPart)
      rcases imported_either (hNew.symm ▸ hOk) with
        hImported | hImported
      · refine ⟨ep.data, mem_cons_self, ?_⟩
        rwa [hNew] at hImported
      · exact ⟨_, hOldData, hImported⟩
  · intro ram' hRam'
    have hSame : ram = ram' := Option.some.inj (hRam.symm.trans hRam')
    subst hSame
    exact ⟨hOldOk, hOldData⟩

theorem powerInv_step {l : Step}
    (hInv : PowerInv board s) (hDetects : CrcDetects board s l) (hStep : step board s l = some t) :
    PowerInv board t := by
  cases l with
  | boot =>
    rcases step_boot hStep with ⟨htab, rfl⟩
    refine ⟨?_, fun data hLatest => (hInv.survives data hLatest).boot htab⟩
    intro ram hRam
    cases hRam
    exact choice_valid (Redundant.start (area board s.flash)) false false
  | edit htab =>
    rcases step_edit hStep with ⟨old, hOld, rfl⟩
    have hKnown := hInv.valid old hOld
    refine ⟨?_, ?_⟩
    · intro ram hRam
      cases hRam
      exact hKnown
    · intro data hLatest
      have hSurvives := hInv.survives data hLatest
      refine ⟨hSurvives.imported, ?_⟩
      intro ram hRam
      cases hRam
      exact hSurvives.other old hOld
  | save noMem =>
    rcases step_save hStep with
      rfl | ⟨ram, ep, hWrites, rfl⟩
    · exact hInv
    · have hRam := (writes_spec hWrites).1
      have hValid := hInv.valid ram hRam
      refine ⟨?_, fun _ _ => survives_afterSave hValid hWrites⟩
      intro ram' hRam'
      cases hRam'
      unfold toggled
      split_ifs <;> nofun
  | failSave done =>
    rcases step_failSave hStep with ⟨ram, ep, hWrites, rfl⟩
    refine ⟨hInv.valid, fun data hLatest => ?_⟩
    have hBefore : s.LatestSave data := (latestSave_stopped rfl).mp hLatest
    exact (hInv.survives data hBefore).stop hWrites hDetects
  | cutSave done =>
    rcases step_cutSave hStep with ⟨ram, ep, hWrites, rfl⟩
    refine ⟨nofun, fun data hLatest => ?_⟩
    have hBefore : s.LatestSave data := (latestSave_stopped rfl).mp hLatest
    have hStopped := (hInv.survives data hBefore).stop hWrites hDetects
    exact ⟨hStopped.imported, nofun⟩

end Steps

section Runs

variable (board : FlashBoard) (flash : Memory UInt8)

theorem powerInv_run {s : State} (hReach : (system board flash).ReachableBy (CrcDetects board) s) :
    PowerInv board s := by
  refine hReach.invariant ?_ ?_
  · rintro _ rfl
    exact ⟨nofun, nofun⟩
  · intro s l t hInv hDetects hStep
    have hNext : step board s l = some t := hStep
    exact powerInv_step hInv hDetects hNext

/- The table of a boot whose import is accepted. -/
theorem envSfLoad_imported
    {board : FlashBoard} {flash : Memory UInt8} {data : List UInt8} {r : Int} {htab : HsearchData}
    (hImported : (choice board flash).imported = some data)
    (hImport : himportR board.config board.signed board.hooks
      none data board.envSize 0 0 false [] = some (r, htab))
    (hAccepted : r ≠ 0) :
    envSfLoad board flash = some (0, some htab) := by
  rcases choice_area hImported with ⟨ep, -, hArea, -, rfl⟩
  unfold envSfLoad envImportRedund envImport
  rw [hArea]
  simp [hImport, hAccepted]

/-
  Once a save has returned 0, every boot imports what the
  latest such save wrote, or what a save wrote that stopped
  after it, and only these bytes are in its table.
-/
theorem env_sf_survives_power_cut
    (s : State) (hReach : (system board flash).ReachableBy (CrcDetects board) s)
    (saved : List UInt8) (hLatest : s.LatestSave saved) :
    ∃ data ∈ recent s.history, s.imported board = some data ∧ ∀ r htab,
        himportR board.config board.signed board.hooks none
            data board.envSize 0 0 false [] = some (r, htab) →
        r ≠ 0 → envSfLoad board s.flash = some (0, some htab) := by
  have hSurvives := (powerInv_run board flash hReach).survives saved hLatest
  rcases hSurvives.imported with ⟨data, hRecent, hImported⟩
  refine ⟨data, hRecent, hImported, ?_⟩
  intro r htab hImport hAccepted
  exact envSfLoad_imported hImported hImport hAccepted

end Runs

----
-- Two Saves That Stop
----

/- Eight bytes of environment in sectors of sixteen. -/
def smallFlash : FlashBoard where
  toBoard := smallBoard
  envOffset := 0
  envOffsetRedund := 16
  envSectSize := 16
  eraseSize := 16
  hSect := by decide
  hApart := Or.inl (by decide)

/- The table with the one variable "n" and its value. -/
def tableOf (c : UInt8) : HsearchData where
  table i :=
    if i = 3 then .live 3 ⟨nameN, CString.ofBytes [c]⟩
    else .free
  size := 5
  filled := 1

/- A save that completes and one cut in its first erase. -/
theorem env_sf_survives_one_cut :
    ∃ s : State, (system smallFlash fun _ => 255).ReachableBy (CrcDetects smallFlash) s ∧
      s.history = [.stopped (textN 50), .saved (textN 49)] ∧
      ∃ data ∈ recent s.history, s.imported smallFlash = some data ∧ ∀ r htab,
          himportR smallFlash.config smallFlash.signed smallFlash.hooks none data smallFlash.envSize
              0 0 false [] = some (r, htab) →
          r ≠ 0 → envSfLoad smallFlash s.flash = some (0, some htab) := by
  rcases TransitionSystem.exists_reachableBy (step smallFlash) (CrcDetects smallFlash)
      (start fun _ => 255)
      [.boot, .edit (some (tableOf 49)), .save false, .edit (some (tableOf 50)), .cutSave 1]
      (fun s => s.history = [.stopped (textN 50), .saved (textN 49)])
      (by decide +kernel) with
    ⟨s, hReach, hHistory⟩
  have hLatest : s.LatestSave (textN 49) := by
    unfold State.LatestSave
    rw [hHistory]
    rfl
  exact ⟨s, hReach, hHistory,
    env_sf_survives_power_cut smallFlash (fun _ => 255) s hReach (textN 49) hLatest⟩

/-
  A save is cut once its area is written, and a boot takes
  its variables.  The next save is cut in its erase, and the
  boot that follows takes the ones of the earlier cut again.
-/
theorem env_sf_keeps_earlier_interrupted :
    ∃ s : State, (system smallFlash fun _ => 255).ReachableBy (CrcDetects smallFlash) s ∧
      s.history = [.stopped (textN 51), .stopped (textN 50), .saved (textN 49)] ∧
      s.imported smallFlash = some (textN 50) ∧ ¬ s.KeepsOneOfTwo smallFlash := by
  rcases TransitionSystem.exists_reachableBy (step smallFlash) (CrcDetects smallFlash)
      (start fun _ => 255)
      [.boot, .edit (some (tableOf 49)), .save false, .edit (some (tableOf 50)), .cutSave 14,
        .boot, .edit (some (tableOf 51)), .cutSave 1]
      (fun s => s.history = [.stopped (textN 51), .stopped (textN 50), .saved (textN 49)] ∧
        s.imported smallFlash = some (textN 50))
      (by decide +kernel) with
    ⟨s, hReach, hHistory, hImported⟩
  refine ⟨s, hReach, hHistory, hImported, ?_⟩
  intro hKeeps
  have hLatest : s.LatestSave (textN 49) := by
    unfold State.LatestSave
    rw [hHistory]
    rfl
  rcases hKeeps (textN 49) hLatest with
    hSaved | ⟨data, hStop, hStopped⟩
  · rw [hImported] at hSaved
    exact absurd hSaved (by decide)
  · unfold State.LatestStop at hStop
    rw [hHistory, find?_cons_of_pos (by rfl)] at hStop
    cases hStop
    rw [hImported] at hStopped
    exact absurd hStopped (by decide)

end Uboot.Env.SpiFlash
