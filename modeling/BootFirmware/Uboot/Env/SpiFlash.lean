import BootFirmware.Lib.NorFlash
import BootFirmware.Lib.Words
import BootFirmware.Uboot.Env.Redundant

/-
  The environment kept in two areas of a SPI flash, each
  with a flag for the active one, and what a power cut in a
  save leaves to the next boot.

  The flash is found, and its bytes can be read.

  Key definitions include:
    * `saveSteps`
    * `State` and `step`
    * `CrcDetects`
    * `recent`
-/

----
-- Areas Of The Flash
----

namespace Uboot.Env.SpiFlash

open Redundant NorFlash Words

def activeFlag : UInt8 := 1
def obsoleteFlag : UInt8 := 0

/- `CONFIG_ENV_SIZE`, with the header's CRC and flag. -/
def configEnvSize (envSize : Nat) : Nat := envSize + 5

/- What is erased of an area, in whole sectors. -/
def eraseLen (envSize envSectSize : Nat) : Nat :=
  (configEnvSize envSize + envSectSize - 1) / envSectSize * envSectSize

/- A board whose two areas lie in different sectors. -/
structure FlashBoard extends Board where
  envOffset : Nat
  envOffsetRedund : Nat
  envSectSize : Nat
  eraseSize : Nat
  hSect : 0 < envSectSize
  hApart :
    envOffset + eraseLen envSize envSectSize ≤ envOffsetRedund ∨
      envOffsetRedund + eraseLen envSize envSectSize ≤ envOffset

namespace FlashBoard

variable (board : FlashBoard)

def offset (copy : Bool) : Nat :=
  if copy then board.envOffsetRedund else board.envOffset

def eraseLen : Nat :=
  SpiFlash.eraseLen board.envSize board.envSectSize

def configEnvSize : Nat :=
  SpiFlash.configEnvSize board.envSize

/- The erase works on an area only in blocks of the chip. -/
def aligned (copy : Bool) : Bool :=
  board.offset copy % board.eraseSize == 0 && board.eraseLen % board.eraseSize == 0

end FlashBoard

/- An area as it lies in the flash. -/
def envBytes (ep : EnvT) : List UInt8 :=
  wordBytes 4 ep.crc.toBitVec ++ ep.flags :: ep.data

def readArea (envSize : Nat) (flash : Memory UInt8) (off : Nat) :
    EnvT where
  crc := UInt32.ofBitVec (wordOfBytes 4 (flash.slice off 4))
  flags := flash (off + 4)
  data := flash.slice (off + 5) envSize

def area (board : FlashBoard) (flash : Memory UInt8) (copy : Bool) :
    EnvT :=
  readArea board.envSize flash (board.offset copy)

----
-- Load And Save
----

/- What `env_sf_load` finds, after `env_init`. -/
def choice (board : FlashBoard) (flash : Memory UInt8) :
    Choice :=
  chooseArea .valid 0 (area board flash false) false (area board flash true) false

def envSfLoad (board : FlashBoard) (flash : Memory UInt8) :
    Option (Int × Option HsearchData) :=
  envImportRedund board.toBoard (choice board flash) none

/- The area to write, or `some none` for a failed export. -/
def envNew (board : FlashBoard) (htab : Option HsearchData) :
    Option (Option EnvT) :=
  (envExport board.toBoard 0 htab).map (Option.map fun ep => { ep with flags := activeFlag })

/- The sector is larger than the environment. -/
def embedded (board : FlashBoard) : Bool :=
  board.configEnvSize < board.envSectSize

/- The erase of the area and the write of the environment. -/
def areaSteps (board : FlashBoard) (copy : Bool) (ep : EnvT) :
    List FlashStep :=
  eraseSteps board.eraseSize (board.offset copy) (board.eraseLen / board.eraseSize) ++
    programSteps (board.offset copy) (envBytes ep)

/- The rest of the sector is written back. -/
def savedSteps (board : FlashBoard) (copy : Bool) (flash : Memory UInt8) :
    List FlashStep :=
  if embedded board then
    let savedSize := board.envSectSize - board.configEnvSize
    let savedOffset := board.offset copy + board.configEnvSize
    programSteps savedOffset (flash.slice savedOffset savedSize)
  else []

def flagSteps (board : FlashBoard) (copy : Bool) : List FlashStep :=
  programSteps (board.offset (!copy) + 4) [obsoleteFlag]

/- All that `env_sf_save` does to the flash. -/
def saveSteps (board : FlashBoard) (copy : Bool) (flash : Memory UInt8) (ep : EnvT) :
    List FlashStep :=
  areaSteps board copy ep ++ (savedSteps board copy flash ++ flagSteps board copy)

----
-- Boots, Saves And Power Cuts
----

/- The variables of a save that returned 0, or that stopped. -/
inductive Event where
  | saved (data : List UInt8)
  | stopped (data : List UInt8)
deriving DecidableEq, Repr

def Event.isSave : Event → Bool
  | .saved _ => true
  | .stopped _ => false

structure Ram where
  envValid : EnvValid
  htab : Option HsearchData

/-
  The flash, the memory while the power is on, and the saves
  that changed the flash, latest first.
-/
structure State where
  flash : Memory UInt8
  ram : Option Ram
  history : List Event

/-
  A boot can come at any time.  A save returns an error
  before it erases anything where there is no memory for the
  rest of the sector, or its export or its erase is refused.
  It also stops after its first `done` steps, where the power
  is cut or where the next step fails.
-/
inductive Step where
  | boot
  | edit (htab : Option HsearchData)
  | save (noMem : Bool)
  | failSave (done : Nat)
  | cutSave (done : Nat)

def State.afterSave (board : FlashBoard) (s : State) (ram : Ram) (ep : EnvT) :
    State where
  flash := runSteps board.eraseSize s.flash (saveSteps board (copy ram.envValid) s.flash ep)
  ram := some { ram with envValid := toggled ram.envValid }
  history := .saved ep.data :: s.history

def State.stop (board : FlashBoard) (s : State) (ram : Ram) (ep : EnvT) (done : Nat) :
    State where
  flash := runSteps board.eraseSize s.flash
    ((saveSteps board (copy ram.envValid) s.flash ep).take done)
  ram := s.ram
  history := .stopped ep.data :: s.history

/- The save that erases and writes, if there is one. -/
def State.writes (board : FlashBoard) (s : State) :
    Option (Option (Ram × EnvT)) :=
  s.ram.bind fun ram =>
    (envNew board ram.htab).map fun res =>
      (res.filter fun _ => board.aligned (copy ram.envValid)).map fun ep => (ram, ep)

def step (board : FlashBoard) (s : State) : Step → Option State
  | .boot =>
    (envSfLoad board s.flash).map fun r =>
      { s with
        ram := some ⟨(choice board s.flash).envValid, r.2⟩ }
  | .edit htab =>
    s.ram.map fun ram => { s with ram := some { ram with htab } }
  | .save noMem =>
    (s.writes board).map fun
      | none => s
      | some (ram, ep) =>
        if embedded board && noMem then s
        else s.afterSave board ram ep
  | .failSave done =>
    (s.writes board).bind fun
      | none => none
      | some (ram, ep) => some (s.stop board ram ep done)
  | .cutSave done =>
    (s.writes board).bind fun
      | none => none
      | some (ram, ep) => some { s.stop board ram ep done with ram := none }

def start (flash : Memory UInt8) : State :=
  ⟨flash, none, []⟩

def system (board : FlashBoard) (flash : Memory UInt8) :
    TransitionSystem State Step :=
  .ofStep (start flash) (step board)

----
-- What A Boot Imports
----

/- The bytes that a boot gives to `himport_r`. -/
def State.imported (board : FlashBoard) (s : State) :
    Option (List UInt8) :=
  (choice board s.flash).imported

/- The latest save that returned 0. -/
def State.LatestSave (s : State) (data : List UInt8) : Prop :=
  s.history.find? Event.isSave = some (.saved data)

/- The latest save that stopped. -/
def State.LatestStop (s : State) (data : List UInt8) : Prop :=
  s.history.find? (fun event => !event.isSave) = some (.stopped data)

/- The latest save that returned 0 and the ones after it. -/
def recent : List Event → List (List UInt8)
  | [] => []
  | .saved data :: _ => [data]
  | .stopped data :: history => data :: recent history

/- A boot imports one of just two saves. -/
def State.KeepsOneOfTwo (board : FlashBoard) (s : State) :
    Prop :=
  ∀ data, s.LatestSave data →
    s.imported board = some data ∨ ∃ stopped, s.LatestStop stopped ∧ s.imported board = some stopped

/-
  The area that a save leaves partly erased or partly
  written when it stops.
-/
def State.partlyWritten (board : FlashBoard) (s : State) (done : Nat) :
    Option EnvT :=
  (s.writes board).bind fun
    | none => none
    | some (ram, ep) =>
      let copy := copy ram.envValid
      if 0 < done ∧ done < (areaSteps board copy ep).length then
        some (area board (s.stop board ram ep done).flash copy)
      else none

/- Such an area fails its CRC. -/
def CrcDetects (board : FlashBoard) (s : State) : Step → Prop
  | .failSave done => ∀ ep ∈ s.partlyWritten board done, crcOk ep = false
  | .cutSave done => ∀ ep ∈ s.partlyWritten board done, crcOk ep = false
  | _ => True

instance instDecidableCrcDetects
    (board : FlashBoard) (s : State) (l : Step) :
    Decidable (CrcDetects board s l) :=
  match l with
  | .boot => inferInstanceAs (Decidable True)
  | .edit _ => inferInstanceAs (Decidable True)
  | .save _ => inferInstanceAs (Decidable True)
  | .failSave done =>
    inferInstanceAs (Decidable (∀ ep ∈ s.partlyWritten board done, crcOk ep = false))
  | .cutSave done =>
    inferInstanceAs (Decidable (∀ ep ∈ s.partlyWritten board done, crcOk ep = false))

end Uboot.Env.SpiFlash
