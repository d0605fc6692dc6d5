import BootFirmware.Uboot.Tftp.Put
import Mathlib.Tactic.Ring

/-
  Files that the client loads from a server.

  The server sends a block only after the acknowledgement of
  the block before, and may send it again.  The network loses,
  repeats, delays and reorders the packets of both sides.

  Key definitions include:
    * `GetState` and `getStep`
    * `GetOk`

  The main results are:
    * `tftp_get_delivers_file`
    * `tftp_get_stores_stale_block`
-/

----
-- The Transfer
----

namespace Uboot.Tftp

open List

/- A server with a file, whose default is the client's. -/
structure Source extends Server where
  file : List UInt8
  default : options = false → blksize = TFTP_BLOCK_SIZE
  blksize_le : blksize ≤ 1468

def Source.lastBlock (source : Source) : Nat :=
  Tftp.lastBlock source.toServer source.file.length

/- The bytes of a block of the file. -/
def Source.block (source : Source) (index : Nat) : List UInt8 :=
  (source.file.drop ((index - 1) * source.blksize)).take source.blksize

/- An acknowledgement, sent after the block `index`. -/
structure Ack where
  block : Nat
  index : Nat
deriving DecidableEq, Repr

/-
  The client, the block that it stored last and the blocks
  that it stored, the acknowledgements that it sent, and the
  block that the server has come to, which is 0 while it
  sends its options.
-/
structure GetState where
  client : Client
  index : Nat
  got : List Nat
  acks : List Ack
  server : Nat

inductive GetStep where
  | oack
  | data (index : Nat)
  | timeout
  | ackArrives (ack : Ack)
deriving DecidableEq, Repr

/- The client replies, having stored the block `index` last. -/
def GetState.replied (s : GetState) (index : Nat) (got : List Nat) (r : Reply) :
    GetState :=
  { s with
    client := r.1
    index
    got
    acks :=
      match r.2 with
      | some (.ack block) => ⟨block, index⟩ :: s.acks
      | _ => s.acks }

/- The client stores a block where it does reply. -/
def GetState.arrived (s : GetState) (index : Nat) (r : Reply) :
    GetState :=
  if r.2.isSome then s.replied index (index :: s.got) r
  else s.replied s.index s.got r

def getStep (transfer : Transfer) (source : Source) (s : GetState) (l : GetStep) :
    Option GetState :=
  match l with
  | .oack =>
    if s.client.netState = .running ∧ source.options then
      some (s.replied s.index s.got (oackHandler transfer (some source.blksize) s.client))
    else none
  | .data index =>
    if s.client.netState = .running ∧ 1 ≤ index ∧ index ≤ s.server then
      some (s.arrived index (dataHandler transfer (ushort index) (source.block index) s.client))
    else none
  | .timeout =>
    if s.client.netState = .running then
      some (s.replied s.index s.got (tftpTimeoutHandler transfer s.client))
    else none
  | .ackArrives ack =>
    if ack ∈ s.acks then
      if ack.block = ushort s.server ∧ s.server < source.lastBlock then
        some { s with server := s.server + 1 }
      else some s
    else none

/- A server without options sends the first block at once. -/
def Source.first (source : Source) : Nat :=
  if source.options then 0 else 1

def getStart (transfer : Transfer) (source : Source) (last : Client) :
    GetState where
  client := (tftpStart transfer last).1
  index := 0
  got := []
  acks := []
  server := source.first

def getSystem (transfer : Transfer) (source : Source) (last : Client) :
    TransitionSystem GetState GetStep :=
  .ofStep (getStart transfer source last) (getStep transfer source)

----
-- What The Transfer Must Deliver
----

/- The byte of the file at an offset is in the memory. -/
def Holds (transfer : Transfer) (source : Source) (t : Client)
    (offset : Nat) : Prop :=
  source.file[offset]? = some (t.memory (ulong (transfer.loadAddr + offset)))

structure Delivered
    (transfer : Transfer) (source : Source)
    (t : Client) : Prop where
  memory : ∀ offset < source.file.length, Holds transfer source t offset
  size : t.netBootFileSize = source.file.length

----
-- The Condition On The Steps
----

/- The wraps that are counted once the block has come. -/
def wrapAfter (t : Client) (index : Nat) : Nat :=
  if ushort index = 0 ∧ t.prevBlock ≠ 0 then t.blockWrap + 1
  else t.blockWrap

/-
  A block that starts a transfer is the first one, and any
  other is stored in its own wrap and within 32 bits, or is
  ignored.  The server takes an acknowledgement for a block
  only where the client stored it.
-/
def GetOk (source : Source) (s : GetState) :
    GetStep → Prop
  | .data index =>
    if s.client.state = .data then
      ushort index = s.client.prevBlock ∨ wrapAfter s.client index = index / 2 ^ 16 ∧
        (index - 1) * source.blksize + (source.block index).length < 2 ^ 32
    else ushort index = 1 → index = 1
  | .ackArrives ack =>
    ack.block = ushort s.server ∧ s.server < source.lastBlock → ack.index = s.server
  | _ => True

----
-- The Bytes Of A Block
----

variable {transfer : Transfer} {source : Source}

theorem length_block (index : Nat) :
    (source.block index).length =
      min source.blksize (source.file.length - (index - 1) * source.blksize) := by
  unfold Source.block
  rw [length_take, length_drop]

/- The offset of a block. -/
def Source.blockStart (source : Source) (index : Nat) : Nat :=
  (index - 1) * source.blksize

/- The offset after a block. -/
def Source.blockEnd (source : Source) (index : Nat) : Nat :=
  source.blockStart index + (source.block index).length

variable {index : Nat}

theorem blockEnd_le (hLast : index ≤ source.lastBlock) :
    source.blockEnd index ≤ source.file.length := by
  have hStart := start_le_size hLast
  unfold Source.blockEnd Source.blockStart
  rw [length_block]
  omega

theorem length_block_lt_iff (hPos : 1 ≤ index) (hLast : index ≤ source.lastBlock) :
    (source.block index).length < source.blksize ↔ index = source.lastBlock := by
  have hStart := start_le_size hLast
  have hEnd := end_eq_start_add source.toServer hPos
  have hBefore := lt_lastBlock_iff source.toServer index source.file.length
  have hBlock := source.blksize_pos
  rw [length_block]
  unfold Source.lastBlock at hLast ⊢
  omega

theorem blockEnd_last (source : Source) :
    source.blockEnd source.lastBlock = source.file.length := by
  have hPos : 1 ≤ source.lastBlock := one_le_lastBlock _ _
  have hLe := Nat.le_refl source.lastBlock
  have hStart := start_le_size hLe
  have hShort := (length_block_lt_iff hPos hLe).mpr rfl
  rw [length_block] at hShort
  unfold Source.blockEnd Source.blockStart
  rw [length_block]
  omega

theorem block_getElem? (index k : Nat) (hk : k < source.blksize) :
    (source.block index)[k]? = source.file[(index - 1) * source.blksize + k]? := by
  unfold Source.block
  rw [getElem?_take_of_lt hk, getElem?_drop]

----
-- Where A Block Is Stored
----

theorem ulong_cell_sub
    (base offset start : Nat) (hOffset : offset < 2 ^ 32) (hStart : start < 2 ^ 32) :
    ulong ((ulong (base + offset) : Int) - ulong (base + start)) =
      if start ≤ offset then offset - start
      else 2 ^ 64 + offset - start := by
  unfold ulong
  split_ifs <;> omega

/- The bytes of a copy are found at their offsets. -/
theorem memcpy_cell (memory : Nat → UInt8) (base start offset : Nat) (src : List UInt8)
    (hOffset : offset < 2 ^ 32) (hStart : start < 2 ^ 32) (hLength : src.length ≤ 2 ^ 32) :
    memcpy memory (ulong (base + start)) src (ulong (base + offset)) =
      if start ≤ offset then
        src.getD (offset - start) (memory (ulong (base + offset)))
      else memory (ulong (base + offset)) := by
  unfold memcpy
  rw [ulong_cell_sub base offset start hOffset hStart]
  split_ifs with hLe
  · rfl
  · have hPast : src.length ≤ 2 ^ 64 + offset - start := by
      omega
    rw [getD_eq_getElem?_getD, getElem?_eq_none hPast]
    rfl

theorem toInt_ulong_sub_one {block : Nat} (hBlock : block < 2 ^ 16) :
    toInt (ulong ((block : Int) - 1)) = (block : Int) - 1 := by
  unfold ulong toInt
  split_ifs <;> omega

variable {t : Client}

/-
  A block is stored at its offset if the offset of the wraps
  is the one of its wrap.
-/
theorem storeOffset_eq {index bs : Nat} (hPos : 1 ≤ index) (hBlockSize : t.blockSize = bs)
    (hWrap : t.blockWrapOffset % 2 ^ 64 = index / 2 ^ 16 * (bs * 2 ^ 16) % 2 ^ 64)
    (hLt : (index - 1) * bs < 2 ^ 32) :
    storeOffset t ((ushort index : Int) - 1) = (index - 1) * bs := by
  have hSum :
      ((ushort index : Int) - 1) * bs + (index / 2 ^ 16 * (bs * 2 ^ 16) : Nat) =
        ((index - 1) * bs : Nat) := by
    have hParts : (index : Int) = 2 ^ 16 * (index / 2 ^ 16 : Nat) + ushort index := by
      have hDiv := Nat.div_add_mod index (2 ^ 16)
      unfold ushort TFTP_SEQUENCE_SIZE
      omega
    rw [Int.natCast_mul (index - 1), Int.natCast_sub hPos, hParts, Int.natCast_mul, Int.natCast_mul]
    push_cast
    ring
  unfold storeOffset ulong
  rw [hBlockSize]
  generalize (index - 1) * bs = start at *
  generalize ((ushort index : Int) - 1) * bs = part at *
  generalize index / 2 ^ 16 * (bs * 2 ^ 16) = wraps at *
  omega

----
-- What The Client Does With A Block
----

/- The client of a load, while it runs. -/
structure Loading (source : Source) (t : Client) : Prop where
  get : t.putActive = false
  state : t.state ≠ .sendWrq
  default : t.state = .sendRrq → t.blockSize = TFTP_BLOCK_SIZE
  blockSize : t.state ≠ .sendRrq → t.blockSize = source.blksize
  wrap : t.state = .data →
    t.blockWrapOffset % 2 ^ 64 = t.blockWrap * (source.blksize * 2 ^ 16) % 2 ^ 64

/- A block was stored where it belongs. -/
structure StoresBlock
    (transfer : Transfer) (source : Source) (index : Nat)
    (t t' : Client) : Prop where
  memory : t'.memory =
    memcpy t.memory (ulong (transfer.loadAddr + source.blockStart index)) (source.block index)
  size : t'.netBootFileSize =
    if t.netBootFileSize < source.blockEnd index then
      source.blockEnd index
    else t.netBootFileSize

theorem storeBlock_stores (hBlockSize : t.blockSize = source.blksize)
    (hCur : t.curBlock = ushort index) (hPos : 1 ≤ index)
    (hWrap : t.blockWrapOffset % 2 ^ 64 = index / 2 ^ 16 * (source.blksize * 2 ^ 16) % 2 ^ 64)
    (hEnd : source.blockEnd index < 2 ^ 32) :
    StoresBlock transfer source index t
      (storeBlock transfer (toInt (ulong ((t.curBlock : Int) - 1))) (source.block index) t) := by
  have hStart : source.blockStart index < 2 ^ 32 := Nat.lt_of_le_of_lt (Nat.le_add_right _ _) hEnd
  have hOffset :
      storeOffset t (toInt (ulong ((t.curBlock : Int) - 1))) = source.blockStart index := by
    rw [hCur, toInt_ulong_sub_one (ushort_lt index)]
    exact storeOffset_eq hPos hBlockSize hWrap hStart
  have hNew :
      ulong ((source.blockStart index : Int) + (source.block index).length) =
        source.blockEnd index := by
    unfold Source.blockEnd at hEnd ⊢
    unfold ulong
    omega
  unfold storeBlock
  rw [hOffset]
  dsimp only
  rw [hNew, u32_of_lt hEnd]
  exact ⟨rfl, rfl⟩

/- The client with a block stored. -/
def withBlock (transfer : Transfer) (bytes : List UInt8) (t : Client) :
    Client :=
  storeBlock transfer (toInt (ulong ((t.curBlock : Int) - 1)))
    bytes { t with prevBlock := t.curBlock }

theorem dataStore_eq (bytes : List UInt8) (hGet : t.putActive = false)
    (hState : t.state = .data) (hNew : t.curBlock ≠ t.prevBlock) :
    dataStore transfer bytes t = (if bytes.length < t.blockSize then
        tftpComplete (withBlock transfer bytes t)
      else withBlock transfer bytes t, some (.ack (ushort t.curBlock))) := by
  have hSend :
      tftpSend transfer (withBlock transfer bytes t) =
        (withBlock transfer bytes t, .ack (ushort t.curBlock)) := by
    unfold tftpSend withBlock storeBlock
    simp only [hState, hGet, Bool.false_eq_true, if_false]
  unfold dataStore
  rw [if_neg hNew]
  dsimp only
  rw [show storeBlock transfer _ bytes _ = withBlock transfer bytes t from rfl, hSend]
  rw [show (withBlock transfer bytes t).blockSize = t.blockSize from rfl]
  split_ifs <;> rfl

/- What is left of the client that stored a block. -/
structure Stores
    (transfer : Transfer) (source : Source) (index : Nat)
    (t t' : Client) : Prop
    extends StoresBlock transfer source index t t' where
  inRange : source.blockEnd index < 2 ^ 32
  loading : Loading source t'
  state : t'.state = .data
  prevBlock : t'.prevBlock = ushort index
  wrap : t'.blockWrap = index / 2 ^ 16
  netState : t'.netState =
    if index = source.lastBlock then .success else .running

/- A block that is not ignored is stored and acknowledged. -/
theorem dataStore_stores (transfer : Transfer) (hRunning : t.netState = .running)
    (hLoading : Loading source t) (hState : t.state = .data)
    (hCur : t.curBlock = ushort index) (hNew : t.curBlock ≠ t.prevBlock)
    (hPos : 1 ≤ index) (hLast : index ≤ source.lastBlock) (hWrap : t.blockWrap = index / 2 ^ 16)
    (hEnd : source.blockEnd index < 2 ^ 32) :
    ∃ t', dataStore transfer (source.block index) t = (t', some (.ack (ushort index))) ∧
      Stores transfer source index t t' := by
  have hBlockSize : t.blockSize = source.blksize := hLoading.blockSize (by rw [hState]; nofun)
  have hFinal : (source.block index).length < t.blockSize ↔ index = source.lastBlock := by
    rw [hBlockSize]
    exact length_block_lt_iff hPos hLast
  have hStores :
      StoresBlock transfer source index { t with prevBlock := t.curBlock }
        (withBlock transfer (source.block index) t) :=
    storeBlock_stores hBlockSize hCur hPos (hWrap ▸ hLoading.wrap hState) hEnd
  have hKept : Loading source (withBlock transfer (source.block index) t) := { hLoading with }
  rw [dataStore_eq _ hLoading.get hState hNew, hCur, ushort_ushort]
  refine ⟨_, rfl, ?_⟩
  by_cases hIs : index = source.lastBlock
  · rw [if_pos (hFinal.mpr hIs)]
    exact
      { memory := hStores.memory
        size := hStores.size
        inRange := hEnd
        loading := { hKept with }
        state := hState
        prevBlock := hCur
        wrap := hWrap
        netState := by rw [if_pos hIs]; rfl }
  · rw [if_neg (fun h => hIs (hFinal.mp h))]
    exact
      { memory := hStores.memory
        size := hStores.size
        inRange := hEnd
        loading := hKept
        state := hState
        prevBlock := hCur
        wrap := hWrap
        netState := by rw [if_neg hIs]; exact hRunning }

/- What is left of the client that ignored a block. -/
structure Ignores
    (source : Source)
    (t t' : Client) : Prop where
  memory : t'.memory = t.memory
  size : t'.netBootFileSize = t.netBootFileSize
  running : t'.netState = .running → Loading source t' ∧ t'.state = .data
  success : t'.netState ≠ .success

section Update

variable (t : Client)

/- Only the count of the wraps and their offset change. -/
@[simp] theorem updateBlockNumber_same :
    (updateBlockNumber t).curBlock = t.curBlock ∧ (updateBlockNumber t).prevBlock = t.prevBlock ∧
      (updateBlockNumber t).state = t.state ∧ (updateBlockNumber t).putActive = t.putActive ∧
      (updateBlockNumber t).blockSize = t.blockSize ∧ (updateBlockNumber t).netState = t.netState ∧
      (updateBlockNumber t).memory = t.memory ∧
      (updateBlockNumber t).netBootFileSize = t.netBootFileSize := by
  unfold updateBlockNumber
  split_ifs <;> exact ⟨rfl, rfl, rfl, rfl, rfl, rfl, rfl, rfl⟩

end Update

/- The client once the number of a block was looked at. -/
def withNumber (t : Client) (index : Nat) : Client :=
  updateBlockNumber { t with curBlock := ushort index }

theorem withNumber_wrap
    (hLoading : Loading source t) (hState : t.state = .data) (hWrap : wrapAfter t index < 2 ^ 64) :
    (withNumber t index).blockWrap = wrapAfter t index ∧
      (withNumber t index).blockWrapOffset % 2 ^ 64 =
        wrapAfter t index * (source.blksize * 2 ^ 16) % 2 ^ 64 := by
  have hBlockSize : t.blockSize = source.blksize := hLoading.blockSize (by rw [hState]; nofun)
  have hOld := hLoading.wrap hState
  unfold withNumber updateBlockNumber
  unfold wrapAfter at hWrap ⊢
  split_ifs at hWrap ⊢
  · refine ⟨ulong_of_lt hWrap, ?_⟩
    have hNext := Nat.succ_mul t.blockWrap (source.blksize * 2 ^ 16)
    rw [Nat.succ_eq_add_one] at hNext
    dsimp only
    rw [hNext, hBlockSize]
    unfold ulong TFTP_SEQUENCE_SIZE
    omega
  · exact ⟨rfl, hOld⟩

theorem withNumber_loading
    (hLoading : Loading source t) (hState : t.state = .data) (hWrap : wrapAfter t index < 2 ^ 64) :
    Loading source (withNumber t index) := by
  have hCount := withNumber_wrap hLoading hState hWrap
  exact
    { get := by simpa [withNumber] using hLoading.get
      state := by simpa [withNumber] using hLoading.state
      default := by simpa [withNumber] using hLoading.default
      blockSize := by
        simpa [withNumber] using hLoading.blockSize
      wrap := fun _ => by rw [hCount.1, hCount.2] }

theorem dataHandler_stores (transfer : Transfer) (hRunning : t.netState = .running)
    (hLoading : Loading source t) (hState : t.state = .data)
    (hNew : ushort index ≠ t.prevBlock) (hPos : 1 ≤ index) (hLast : index ≤ source.lastBlock)
    (hWrap : wrapAfter t index = index / 2 ^ 16) (hEnd : source.blockEnd index < 2 ^ 32) :
    ∃ t', dataHandler transfer (ushort index) (source.block index) t =
        (t', some (.ack (ushort index))) ∧
      Stores transfer source index t t' := by
  have hIndex : index / 2 ^ 16 < 2 ^ 64 := by
    have hBlock := source.blksize_pos
    have hStart : source.blockStart index < 2 ^ 32 := Nat.lt_of_le_of_lt (Nat.le_add_right _ _) hEnd
    have hLe : index - 1 ≤ source.blockStart index := Nat.le_mul_of_pos_right _ hBlock
    omega
  have hCount := (withNumber_wrap hLoading hState (hWrap ▸ hIndex)).1
  have hCur : (withNumber t index).curBlock = ushort index := by simp [withNumber]
  rcases dataStore_stores transfer (by simpa [withNumber] using hRunning)
      (withNumber_loading hLoading hState (hWrap ▸ hIndex))
      (by simpa [withNumber] using hState) hCur
      (by simpa [withNumber] using hNew)
      hPos hLast (hCount.trans hWrap) hEnd with
    ⟨t', hRun, hStores⟩
  refine ⟨t', ?_, ?_⟩
  · unfold dataHandler
    rw [if_neg (by simp [hState])]
    exact hRun
  · exact
      { hStores with
        memory := by
          simpa [withNumber] using hStores.memory
        size := by simpa [withNumber] using hStores.size }

/- The client that begins a transfer with a block. -/
def withFirst (t : Client) (index : Nat) : Client :=
  newTransfer { withNumber t index with state := .data }

theorem withFirst_loading (hLoading : Loading source t)
    (hDefault : t.state = .sendRrq → source.blksize = TFTP_BLOCK_SIZE) :
    Loading source (withFirst t index) := by
  have hBlockSize : t.blockSize = source.blksize := by
    by_cases hState : t.state = .sendRrq
    · rw [hLoading.default hState, hDefault hState]
    · exact hLoading.blockSize hState
  exact
    { get := by
        simpa [withFirst, withNumber, newTransfer] using hLoading.get
      state := nofun
      default := nofun
      blockSize := fun _ => by
        simpa [withFirst, withNumber, newTransfer] using hBlockSize
      wrap := fun _ => by
        simp [withFirst, newTransfer] }

/- The transfer begins with a block, or is started again. -/
theorem dataHandler_begins (transfer : Transfer) (index : Nat) (bytes : List UInt8)
    (hLoading : Loading source t) (hState : t.state ≠ .data) :
    dataHandler transfer (ushort index) bytes t =
      if ushort index ≠ 1 then
        silent (restart (withFirst t index))
      else
        dataStore transfer bytes (withFirst t index) := by
  have hBegins : t.state = .sendRrq ∨ t.state = .oack := by
    cases hCase : t.state with
    | sendRrq => exact Or.inl rfl
    | data => exact absurd hCase hState
    | oack => exact Or.inr rfl
    | sendWrq => exact absurd hCase hLoading.state
  unfold dataHandler
  rw [if_pos (by simpa using hBegins)]
  simp [withFirst, withNumber, newTransfer]

theorem restart_ignores (source : Source) (t : Client) (index : Nat) :
    Ignores source t (restart (withFirst t index)) where
  memory := by
    simp [restart, withFirst, withNumber, newTransfer]
  size := by
    simp [restart, withFirst, withNumber, newTransfer]
  running := nofun
  success := nofun

section

variable (transfer : Transfer)

theorem dataHandler_first
    (hRunning : t.netState = .running) (hLoading : Loading source t) (hState : t.state ≠ .data)
    (hDefault : t.state = .sendRrq → source.blksize = TFTP_BLOCK_SIZE) :
    ∃ t', dataHandler transfer (ushort 1) (source.block 1) t = (t', some (.ack (ushort 1))) ∧
      Stores transfer source 1 t t' := by
  have hCur : (withFirst t 1).curBlock = ushort 1 := by simp [withFirst, withNumber, newTransfer]
  have hEnd : source.blockEnd 1 < 2 ^ 32 := by
    have hSmall := source.blksize_le
    unfold Source.blockEnd Source.blockStart
    rw [length_block]
    omega
  rw [dataHandler_begins transfer 1 _ hLoading hState,
    if_neg (show ¬ ushort 1 ≠ 1 from not_not.mpr rfl)]
  rcases dataStore_stores transfer
      (by simpa [withFirst, withNumber, newTransfer]
        using hRunning)
      (withFirst_loading hLoading hDefault) rfl hCur
      (by rw [hCur]; exact nofun) (Nat.le_refl 1)
      (one_le_lastBlock _ _) rfl hEnd with
    ⟨t', hStore, hStores⟩
  refine ⟨t', hStore, ?_⟩
  exact
    { hStores with
      memory := by
        simpa [withFirst, withNumber, newTransfer] using hStores.memory
      size := by
        simpa [withFirst, withNumber, newTransfer] using hStores.size }

/- A repeated block is ignored, and does not count a wrap. -/
theorem dataHandler_ignores (bytes : List UInt8) (hRunning : t.netState = .running)
    (hLoading : Loading source t) (hState : t.state = .data) (hSame : ushort index = t.prevBlock) :
    dataHandler transfer (ushort index) bytes t = ({ t with curBlock := ushort index }, none) ∧
      Ignores source t { t with curBlock := ushort index } := by
  have hUpdate :
      updateBlockNumber { t with curBlock := ushort index } =
        { t with curBlock := ushort index } := by
    unfold updateBlockNumber
    rw [if_neg]
    rintro ⟨hZero, hNe⟩
    exact hNe (hSame.symm.trans hZero)
  constructor
  · unfold dataHandler dataStore
    rw [hUpdate, if_neg (by simp [hState]), if_pos hSame]
    rfl
  · exact
      { memory := rfl
        size := rfl
        running := fun _ => ⟨{ hLoading with }, hState⟩
        success := by
          show t.netState ≠ .success
          rw [hRunning]
          nofun }

/- What the client does with a block that may come. -/
theorem dataHandler_cases
    {s : GetState} (hRunning : s.client.netState = .running) (hLoading : Loading source s.client)
    (hDefault : s.client.state = .sendRrq → source.blksize = TFTP_BLOCK_SIZE)
    (hPos : 1 ≤ index) (hLast : index ≤ source.lastBlock) (hOk : GetOk source s (.data index)) :
    (∃ t', dataHandler transfer (ushort index) (source.block index) s.client = (t', none) ∧
      Ignores source s.client t') ∨
    ∃ t', dataHandler transfer (ushort index) (source.block index) s.client =
        (t', some (.ack (ushort index))) ∧
      Stores transfer source index s.client t' := by
  unfold GetOk at hOk
  split_ifs at hOk with hState
  · by_cases hSame : ushort index = s.client.prevBlock
    · exact Or.inl ⟨_, dataHandler_ignores transfer _ hRunning hLoading hState hSame⟩
    · rcases hOk with hIs | ⟨hWrap, hEnd⟩
      · exact absurd hIs hSame
      · exact Or.inr (dataHandler_stores transfer hRunning
          hLoading hState hSame hPos hLast hWrap hEnd)
  · by_cases hFirst : ushort index = 1
    · rw [hOk hFirst]
      exact Or.inr (dataHandler_first transfer hRunning hLoading hState hDefault)
    · refine Or.inl ⟨_, ?_, restart_ignores source _ index⟩
      rw [dataHandler_begins transfer index _ hLoading hState, if_pos hFirst]
      rfl

end

----
-- The Invariant
----

/- The bytes of a block are in the memory. -/
def Stored (transfer : Transfer) (source : Source) (t : Client)
    (index : Nat) : Prop :=
  ∀ offset, source.blockStart index ≤ offset →
    offset < source.blockEnd index → Holds transfer source t offset

structure GetInv
    (transfer : Transfer) (source : Source)
    (s : GetState) : Prop where
  got_pos : ∀ index ∈ s.got, 1 ≤ index ∧ index ≤ s.server
  served : ∀ index, 1 ≤ index → index < s.server → index ∈ s.got
  server_le : s.server ≤ source.lastBlock
  stored : ∀ index ∈ s.got, Stored transfer source s.client index ∧ source.blockEnd index < 2 ^ 32
  size_le : s.client.netBootFileSize ≤ source.file.length
  size_last : source.lastBlock ∈ s.got → s.client.netBootFileSize = source.file.length
  complete : s.client.netState = .success → source.lastBlock ∈ s.got
  index : s.index = 0 ∨ s.index ∈ s.got
  acks : ∀ ack ∈ s.acks, ack.index = 0 ∨ ack.index ∈ s.got
  begun : s.acks = [] → s.server = source.first
  running : s.client.netState = .running →
    Loading source s.client ∧ (s.client.state = .sendRrq → s.acks = [])

variable {t t' : Client} {index offset : Nat}

theorem StoresBlock.holds_new
    (hStores : StoresBlock transfer source index t t') (hEnd : source.blockEnd index < 2 ^ 32)
    (hFrom : source.blockStart index ≤ offset) (hTo : offset < source.blockEnd index) :
    Holds transfer source t' offset := by
  have hIn : offset - source.blockStart index < (source.block index).length := by
    unfold Source.blockEnd at hTo
    omega
  have hSmall : offset - source.blockStart index < source.blksize := by
    rw [length_block] at hIn
    omega
  have hBlock := block_getElem? index _ hSmall
  rw [show (index - 1) * source.blksize = source.blockStart index from rfl,
    Nat.add_sub_cancel' hFrom, getElem?_eq_getElem hIn] at hBlock
  unfold Source.blockEnd at hEnd hTo
  unfold Holds
  rw [hStores.memory,
    memcpy_cell t.memory transfer.loadAddr _ offset _ (by omega) (by omega) (by omega),
    if_pos hFrom, getD_eq_getElem?_getD, getElem?_eq_getElem hIn, Option.getD_some]
  exact hBlock.symm

/- A byte that is in the memory stays there. -/
theorem StoresBlock.holds (hStores : StoresBlock transfer source index t t')
    (hEnd : source.blockEnd index < 2 ^ 32) (hOffset : offset < 2 ^ 32)
    (hHolds : Holds transfer source t offset) :
    Holds transfer source t' offset := by
  by_cases hIn : source.blockStart index ≤ offset ∧ offset < source.blockEnd index
  · exact hStores.holds_new hEnd hIn.1 hIn.2
  · unfold Source.blockEnd at hEnd hIn
    unfold Holds
    rw [hStores.memory,
      memcpy_cell t.memory transfer.loadAddr _ offset _ hOffset (by omega) (by omega)]
    split_ifs with hFrom
    · have hPast : (source.block index).length ≤ offset - source.blockStart index := by
        omega
      rw [getD_eq_getElem?_getD, getElem?_eq_none hPast]
      exact hHolds
    · exact hHolds

theorem Stored.congr (hStored : Stored transfer source t index) (hMemory : t'.memory = t.memory) :
    Stored transfer source t' index := by
  intro offset hFrom hTo
  unfold Holds
  rw [hMemory]
  exact hStored offset hFrom hTo

----
-- Each Step Keeps The Invariant
----

variable {s : GetState}

theorem first_le_lastBlock : source.first ≤ source.lastBlock := by
  have hPos : 1 ≤ source.lastBlock := one_le_lastBlock _ _
  unfold Source.first
  split_ifs
  · exact Nat.zero_le _
  · exact hPos

section

variable (hInv : GetInv transfer source s)
include hInv

/- A reply that stores nothing keeps the invariant. -/
theorem getInv_replied {r : Reply} (hMemory : r.1.memory = s.client.memory)
    (hSize : r.1.netBootFileSize = s.client.netBootFileSize) (hSuccess : r.1.netState ≠ .success)
    (hRunning : r.1.netState = .running → Loading source r.1 ∧
        (r.1.state = .sendRrq → s.acks = [] ∧ ∀ block, r.2 ≠ some (.ack block))) :
    GetInv transfer source (s.replied s.index s.got r) := by
  have hAcks : ∀ ack ∈ (s.replied s.index s.got r).acks, ack ∈ s.acks ∨ ack.index = s.index := by
    intro ack hAck
    unfold GetState.replied at hAck
    split at hAck
    · rcases mem_cons.mp hAck with rfl | hOld
      · exact Or.inr rfl
      · exact Or.inl hOld
    · exact Or.inl hAck
  have hMore : s.acks ≠ [] → (s.replied s.index s.got r).acks ≠ [] := by
    intro hSome
    unfold GetState.replied
    split
    · exact cons_ne_nil _ _
    · exact hSome
  exact
    { got_pos := hInv.got_pos
      served := hInv.served
      server_le := hInv.server_le
      stored := fun index hGot =>
        ⟨(hInv.stored index hGot).1.congr hMemory, (hInv.stored index hGot).2⟩
      size_le := hSize ▸ hInv.size_le
      size_last := fun hGot => hSize.trans (hInv.size_last hGot)
      complete := fun h => absurd h hSuccess
      index := hInv.index
      acks := by
        intro ack hAck
        rcases hAcks ack hAck with hOld | hNew
        · exact hInv.acks ack hOld
        · rw [hNew]
          exact hInv.index
      begun := fun hNone => hInv.begun (not_not.mp fun hSome => hMore hSome hNone)
      running := by
        intro hStill
        rcases hRunning hStill with ⟨hLoading, hFirst⟩
        refine ⟨hLoading, fun hState => ?_⟩
        rcases hFirst hState with ⟨hNone, hPacket⟩
        unfold GetState.replied
        split
        · exact absurd ‹_› (hPacket _)
        · exact hNone }

/- A block that is stored keeps the invariant. -/
theorem getInv_stores {t' : Client} (hPos : 1 ≤ index) (hServer : index ≤ s.server)
    (hStores : Stores transfer source index s.client t') :
    GetInv transfer source (s.replied index (index :: s.got) (t', some (.ack (ushort index)))) := by
  have hLast : index ≤ source.lastBlock := hServer.trans hInv.server_le
  have hEnd := hStores.inRange
  have hNewSize := hStores.size
  exact
    { got_pos := by
        intro i hGot
        rcases mem_cons.mp hGot with rfl | hOld
        · exact ⟨hPos, hServer⟩
        · exact hInv.got_pos i hOld
      served := fun i hFrom hTo => mem_cons_of_mem _ (hInv.served i hFrom hTo)
      server_le := hInv.server_le
      stored := by
        intro i hGot
        rcases mem_cons.mp hGot with rfl | hOld
        · exact ⟨fun offset hFrom hTo => hStores.holds_new hEnd hFrom hTo, hEnd⟩
        · have hStored := hInv.stored i hOld
          exact ⟨fun offset hFrom hTo =>
            hStores.holds hEnd (hTo.trans hStored.2) (hStored.1 offset hFrom hTo), hStored.2⟩
      size_le := by
        show t'.netBootFileSize ≤ _
        have hOldSize := hInv.size_le
        have hBlock := blockEnd_le hLast
        rw [hNewSize]
        split_ifs
        · exact hBlock
        · exact hOldSize
      size_last := by
        intro hGot
        show t'.netBootFileSize = _
        have hOldSize := hInv.size_le
        have hBlock := blockEnd_le hLast
        rcases mem_cons.mp hGot with hIs | hOld
        · have hAll := blockEnd_last source
          rw [hIs] at hAll
          rw [hNewSize]
          split_ifs <;> omega
        · have hAll := hInv.size_last hOld
          rw [hNewSize]
          split_ifs <;> omega
      complete := by
        intro hSuccess
        have hState := hStores.netState.symm.trans hSuccess
        split_ifs at hState with hIs
        exact hIs ▸ mem_cons_self
      index := Or.inr mem_cons_self
      acks := by
        intro ack hAck
        rcases mem_cons.mp hAck with rfl | hOld
        · exact Or.inr mem_cons_self
        · exact (hInv.acks ack hOld).imp_right (mem_cons_of_mem _)
      begun := nofun
      running := by
        intro _
        refine ⟨hStores.loading, fun hState => ?_⟩
        have hBoth : TftpState.data = .sendRrq := hStores.state.symm.trans hState
        cases hBoth }

/- The server answers a request without options at once. -/
theorem GetInv.default (hRunning : s.client.netState = .running)
    (hState : s.client.state = .sendRrq) (hServed : 1 ≤ s.server) :
    source.blksize = TFTP_BLOCK_SIZE := by
  apply source.default
  have hNone := (hInv.running hRunning).2 hState
  have hFirst := hInv.begun hNone
  unfold Source.first at hFirst
  split_ifs at hFirst with hOptions
  · omega
  · exact Bool.eq_false_iff.mpr hOptions

theorem getInv_data (hRunning : s.client.netState = .running) (hPos : 1 ≤ index)
    (hServer : index ≤ s.server) (hOk : GetOk source s (.data index)) :
    GetInv transfer source
      (s.arrived index (dataHandler transfer (ushort index) (source.block index) s.client)) := by
  have hLoading := (hInv.running hRunning).1
  have hLast := hServer.trans hInv.server_le
  rcases dataHandler_cases transfer hRunning hLoading
      (fun hState => hInv.default hRunning hState (hPos.trans hServer))
      hPos hLast hOk with
    ⟨t', hRun, hIgnores⟩ | ⟨t', hRun, hStores⟩
  · rw [hRun]
    refine getInv_replied hInv hIgnores.memory hIgnores.size hIgnores.success fun hStill => ?_
    rcases hIgnores.running hStill with ⟨hStays, hState⟩
    refine ⟨hStays, fun hBegins => ?_⟩
    have hBoth : TftpState.data = .sendRrq := hState.symm.trans hBegins
    cases hBoth
  · rw [hRun]
    exact getInv_stores hInv hPos hServer hStores

end

/- A load answers the options with an acknowledgement. -/
theorem oackHandler_load (transfer : Transfer) {source : Source} (hGet : t.putActive = false) :
    oackHandler transfer (some source.blksize) t = ({ t with
        state := .oack
        blockSize := source.blksize }, some (.ack (ushort t.curBlock))) := by
  have hSize : ushort source.blksize = source.blksize := ushort_of_lt source.blksize_lt
  unfold oackHandler tftpSend reply
  simp [hGet, hSize]

section

variable (hInv : GetInv transfer source s)
include hInv

theorem getInv_oack (hRunning : s.client.netState = .running) :
    GetInv transfer source
      (s.replied s.index s.got (oackHandler transfer (some source.blksize) s.client)) := by
  have hLoading := (hInv.running hRunning).1
  rw [oackHandler_load transfer hLoading.get]
  refine getInv_replied hInv rfl rfl ?_ fun _ => ?_
  · show s.client.netState ≠ .success
    rw [hRunning]
    nofun
  · exact
      ⟨{ get := hLoading.get
         state := nofun
         default := nofun
         blockSize := fun _ => rfl
         wrap := nofun }, nofun⟩

theorem getInv_timeout (hRunning : s.client.netState = .running) :
    GetInv transfer source (s.replied s.index s.got (tftpTimeoutHandler transfer s.client)) := by
  rcases hInv.running hRunning with ⟨hLoading, hFirst⟩
  unfold tftpTimeoutHandler
  dsimp only
  split_ifs with hCount
  · exact getInv_replied hInv rfl rfl nofun nofun
  · have hSend :
        (tftpSend transfer
          { s.client with
            timeoutCount := s.client.timeoutCount + 1 }).1 =
          { s.client with
            timeoutCount := s.client.timeoutCount + 1 } := by
      unfold tftpSend
      split
      · rfl
      · rfl
      · simp [hLoading.get]
      · simp [hLoading.get]
    unfold reply
    rw [hSend]
    refine getInv_replied hInv rfl rfl ?_ fun _ => ?_
    · show s.client.netState ≠ .success
      rw [hRunning]
      nofun
    · refine ⟨{ hLoading with }, fun hState => ?_⟩
      have hBegins : s.client.state = .sendRrq := hState
      refine ⟨hFirst hBegins, ?_⟩
      unfold tftpSend
      simp [hBegins]

/- The server goes on once its block was stored. -/
theorem getInv_ackArrives {ack : Ack}
    (hAck : ack ∈ s.acks) (hIndex : ack.index = s.server) (hMore : s.server < source.lastBlock) :
    GetInv transfer source { s with server := s.server + 1 } :=
  { hInv with
    got_pos := fun index hGot =>
      ⟨(hInv.got_pos index hGot).1, Nat.le_succ_of_le (hInv.got_pos index hGot).2⟩
    served := by
      intro index hFrom hTo
      rcases Nat.lt_succ_iff_lt_or_eq.mp hTo with hLt | hIs
      · exact hInv.served index hFrom hLt
      · rcases hInv.acks ack hAck with hZero | hGot
        · omega
        · rw [hIs, ← hIndex]
          exact hGot
    server_le := hMore
    begun := fun hNone => by
      have hSome : s.acks = [] := hNone
      rw [hSome] at hAck
      cases hAck }

theorem getInv_step {t : GetState} {l : GetStep}
    (hOk : GetOk source s l) (hStep : getStep transfer source s l = some t) :
    GetInv transfer source t := by
  cases l with
  | oack =>
    unfold getStep at hStep
    dsimp only at hStep
    split_ifs at hStep with hRuns
    cases hStep
    exact getInv_oack hInv hRuns.1
  | data index =>
    unfold getStep at hStep
    dsimp only at hStep
    split_ifs at hStep with hRuns
    cases hStep
    exact getInv_data hInv hRuns.1 hRuns.2.1 hRuns.2.2 hOk
  | timeout =>
    unfold getStep at hStep
    dsimp only at hStep
    split_ifs at hStep with hRuns
    cases hStep
    exact getInv_timeout hInv hRuns
  | ackArrives ack =>
    unfold getStep at hStep
    dsimp only at hStep
    split_ifs at hStep with hAck hTaken
    · cases hStep
      exact getInv_ackArrives hInv hAck (hOk hTaken) hTaken.2
    · cases hStep
      exact hInv

end

theorem tftpStart_load (transfer : Transfer) (last : Client) (hGet : transfer.put = false) :
    (tftpStart transfer last).1 =
      { last with
        netBootFileSize := 0
        netState := .running
        putActive := false
        state := .sendRrq
        timeoutCount := 0
        curBlock := 0
        blockSize := TFTP_BLOCK_SIZE } := by
  unfold tftpStart tftpSend reply
  simp [hGet]

theorem getInv_start
    (transfer : Transfer) (source : Source) (last : Client) (hGet : transfer.put = false) :
    GetInv transfer source (getStart transfer source last) := by
  have hFirst : source.first ≤ 1 := by
    unfold Source.first
    split_ifs <;> decide
  unfold getStart
  rw [tftpStart_load transfer last hGet]
  exact
    { got_pos := nofun
      served := by
        intro index hFrom hTo
        have hLt : index < source.first := hTo
        omega
      server_le := first_le_lastBlock
      stored := nofun
      size_le := Nat.zero_le _
      size_last := nofun
      complete := nofun
      index := Or.inl rfl
      acks := nofun
      begun := fun _ => rfl
      running := fun _ =>
        ⟨{ get := rfl
           state := nofun
           default := fun _ => rfl
           blockSize := fun h => absurd rfl h
           wrap := nofun }, fun _ => rfl⟩ }

----
-- The File Is Delivered
----

/- The whole file is there once the last block is. -/
theorem GetInv.delivered (hInv : GetInv transfer source s) (hLast : source.lastBlock ∈ s.got) :
    Delivered transfer source s.client := by
  refine ⟨?_, hInv.size_last hLast⟩
  intro offset hOffset
  have hBlock := source.blksize_pos
  have hLe := (hInv.got_pos _ hLast).2
  have hIndex : offset / source.blksize + 1 ≤ source.lastBlock :=
    Nat.succ_le_succ (Nat.div_le_div_right (Nat.le_of_lt hOffset))
  have hGot : offset / source.blksize + 1 ∈ s.got := by
    rcases Nat.lt_or_eq_of_le hIndex with hLt | hIs
    · exact hInv.served _ (Nat.le_add_left 1 _) (Nat.lt_of_lt_of_le hLt hLe)
    · rw [hIs]
      exact hLast
  have hStart : source.blockStart (offset / source.blksize + 1) ≤ offset :=
    Nat.div_mul_le_self offset source.blksize
  have hWithin : offset < source.blockStart (offset / source.blksize + 1) + source.blksize := by
    have hMod := Nat.mod_lt offset hBlock
    have hDiv := Nat.div_add_mod' offset source.blksize
    unfold Source.blockStart
    rw [Nat.add_sub_cancel]
    omega
  apply (hInv.stored _ hGot).1 offset hStart
  unfold Source.blockEnd
  rw [length_block]
  unfold Source.blockStart at hStart hWithin ⊢
  omega

/-
  In a run whose steps meet the condition, a load that is
  complete has delivered the file.
-/
theorem tftp_get_delivers_file (transfer : Transfer) (source : Source) (last : Client)
    (hGet : transfer.put = false) (s : GetState)
    (hReach : (getSystem transfer source last).ReachableBy (GetOk source) s)
    (hComplete : s.client.netState = .success) :
    Delivered transfer source s.client := by
  have hInv : GetInv transfer source s := by
    refine hReach.invariant ?_ ?_
    · rintro _ rfl
      exact getInv_start transfer source last hGet
    · intro s l t hInv hOk hStep
      have hNext : getStep transfer source s l = some t := hStep
      exact getInv_step hInv hOk hNext
  exact hInv.delivered (hInv.complete hComplete)

/- A load to address 0. -/
def load : Transfer where
  put := false
  loadAddr := 0
  saveAddr := 0
  saveSize := 0
  timeoutCountMax := 10

/- A file of ten bytes is loaded in two blocks. -/
def shortSource : Source where
  toServer := eightServer
  file := [1, 2, 3, 4, 5, 6, 7, 8, 9, 10]
  default := nofun
  blksize_le := by decide

instance instDecidableGetOk
    (source : Source) (s : GetState) (l : GetStep) :
    Decidable (GetOk source s l) :=
  match l with
  | .oack => inferInstanceAs (Decidable True)
  | .data index =>
    inferInstanceAs (Decidable
      (if s.client.state = .data then
        ushort index = s.client.prevBlock ∨ wrapAfter s.client index = index / 2 ^ 16 ∧
          (index - 1) * source.blksize + (source.block index).length < 2 ^ 32
      else ushort index = 1 → index = 1))
  | .timeout => inferInstanceAs (Decidable True)
  | .ackArrives ack =>
    inferInstanceAs (Decidable
      (ack.block = ushort s.server ∧ s.server < source.lastBlock → ack.index = s.server))

theorem tftp_get_delivers_ten_bytes :
    ∃ s : GetState, (getSystem load shortSource newClient).ReachableBy (GetOk shortSource) s ∧
      s.client.netState = .success ∧ Delivered load shortSource s.client := by
  rcases TransitionSystem.exists_reachableBy (getStep load shortSource) (GetOk shortSource)
      (getStart load shortSource newClient)
      [.oack, .oack, .ackArrives ⟨0, 0⟩, .data 1, .data 1, .ackArrives ⟨1, 1⟩, .data 2]
      (fun s => s.client.netState = .success)
      (by decide +kernel) with
    ⟨s, hReach, hSuccess⟩
  exact ⟨s, hReach, hSuccess,
    tftp_get_delivers_file load shortSource newClient rfl s hReach hSuccess⟩

----
-- A Stale Block
----

/- The blocks came in order up to the block `n`. -/
structure InOrder
    (source : Source) (n : Nat)
    (s : GetState) : Prop where
  running : s.client.netState = .running
  loading : Loading source s.client
  state : s.client.state = .data
  prevBlock : s.client.prevBlock = ushort n
  wrap : s.client.blockWrap = n / 2 ^ 16
  server : s.server = n
  ack : ⟨ushort n, n⟩ ∈ s.acks

variable {n : Nat}

theorem InOrder.of_stores {t' : Client} (hServer : s.server = n) (hMore : n < source.lastBlock)
    (hStores : Stores transfer source n s.client t') :
    InOrder source n (s.replied n (n :: s.got) (t', some (.ack (ushort n)))) where
  running := by
    have hState := hStores.netState
    rw [if_neg (Nat.ne_of_lt hMore)] at hState
    exact hState
  loading := hStores.loading
  state := hStores.state
  prevBlock := hStores.prevBlock
  wrap := hStores.wrap
  server := hServer
  ack := mem_cons_self

/- The next block is counted in its wrap. -/
theorem InOrder.wrapAfter (hIn : InOrder source n s) :
    Tftp.wrapAfter s.client (n + 1) = (n + 1) / 2 ^ 16 := by
  unfold Tftp.wrapAfter
  rw [hIn.prevBlock, hIn.wrap]
  unfold ushort TFTP_SEQUENCE_SIZE
  split_ifs <;> omega

theorem ushort_succ_ne (n : Nat) : ushort (n + 1) ≠ ushort n := by
  unfold ushort TFTP_SEQUENCE_SIZE
  omega

/- The server goes on to the next block. -/
theorem getStep_ackArrives (transfer : Transfer) (hServer : s.server = n)
    (hAck : ⟨ushort n, n⟩ ∈ s.acks) (hMore : n < source.lastBlock) :
    getStep transfer source s (.ackArrives ⟨ushort n, n⟩) = some { s with server := n + 1 } := by
  subst hServer
  unfold getStep
  dsimp only
  rw [if_pos hAck, if_pos ⟨rfl, hMore⟩]

theorem getStep_data {t' : Client} {block : Nat}
    (hRunning : s.client.netState = .running) (hPos : 1 ≤ index) (hServer : index ≤ s.server)
    (hRun :
      dataHandler transfer (ushort index) (source.block index) s.client = (t', some (.ack block))) :
    getStep transfer source s (.data index) =
      some (s.replied index (index :: s.got) (t', some (.ack block))) := by
  unfold getStep GetState.arrived
  dsimp only
  rw [if_pos ⟨hRunning, hPos, hServer⟩, hRun]
  rfl

variable (transfer source) (last : Client)

section

variable (hGet : transfer.put = false) (hOptions : source.options = true)
include hGet hOptions

theorem exists_optionsAcked :
    ∃ s, (getSystem transfer source last).Reachable s ∧ s.client.netState = .running ∧
      Loading source s.client ∧ s.client.state = .oack ∧ s.server = 0 ∧ ⟨ushort 0, 0⟩ ∈ s.acks := by
  have hClient := tftpStart_load transfer last hGet
  refine ⟨(getStart transfer source last).replied 0 []
    (oackHandler transfer (some source.blksize) (tftpStart transfer last).1), ?_, ?_⟩
  · refine .next (l := .oack) (.start rfl) trivial ?_
    show getStep transfer source _ .oack = some _
    unfold getStep
    rw [if_pos ⟨by unfold getStart; rw [hClient], hOptions⟩]
    rfl
  · rw [oackHandler_load transfer (by rw [hClient]), hClient]
    exact ⟨rfl,
      { get := rfl
        state := nofun
        default := nofun
        blockSize := fun _ => rfl
        wrap := nofun },
      rfl, if_pos hOptions, mem_cons_self⟩

/- The options and the first block come. -/
theorem exists_inOrder_one (hMore : 1 < source.lastBlock) :
    ∃ s, (getSystem transfer source last).Reachable s ∧ InOrder source 1 s := by
  rcases exists_optionsAcked transfer source last hGet hOptions with
    ⟨s, hReach, hRunning, hLoading, hState, hServer, hAck⟩
  have hFirst := getStep_ackArrives transfer hServer hAck (Nat.zero_lt_of_lt hMore)
  rcases dataHandler_first transfer hRunning hLoading (by rw [hState]; nofun)
      (fun hBegins => by rw [hState] at hBegins; cases hBegins)
    with ⟨t', hRun, hStores⟩
  have hData := getStep_data (s := { s with server := 0 + 1 }) hRunning
    (Nat.le_refl 1) (Nat.le_refl 1) hRun
  exact ⟨_, .next (.next hReach trivial hFirst) trivial hData,
    InOrder.of_stores (s := { s with server := 0 + 1 })
      rfl hMore hStores⟩

/- Without losses the blocks come in order. -/
theorem exists_inOrder
    (hEnd : source.file.length < 2 ^ 32) (n : Nat) (hMore : n + 1 < source.lastBlock) :
    ∃ s, (getSystem transfer source last).Reachable s ∧ InOrder source (n + 1) s := by
  induction n with
  | zero => exact exists_inOrder_one transfer source last hGet hOptions hMore
  | succ n ih =>
    have hBefore : n + 1 < source.lastBlock := Nat.lt_of_succ_lt hMore
    rcases ih hBefore with ⟨s, hReach, hIn⟩
    have hNext := getStep_ackArrives transfer hIn.server hIn.ack hBefore
    rcases dataHandler_stores transfer hIn.running hIn.loading hIn.state
        (by rw [hIn.prevBlock]; exact ushort_succ_ne (n + 1))
        (Nat.le_add_left 1 _) (Nat.le_of_lt hMore)
        hIn.wrapAfter
        (Nat.lt_of_le_of_lt (blockEnd_le (Nat.le_of_lt hMore)) hEnd) with
      ⟨t', hRun, hStores⟩
    have hData := getStep_data (s := { s with server := n + 1 + 1 }) hIn.running
      (Nat.le_add_left 1 _) (Nat.le_refl _) hRun
    exact ⟨_, .next (.next hReach trivial hNext) trivial hData,
      InOrder.of_stores (s := { s with server := n + 1 + 1 })
        rfl hMore hStores⟩

end

/- A file of 65536 blocks of eight bytes and an empty one. -/
structure Long (source : Source) : Prop where
  options : source.options = true
  blksize : source.blksize = 8
  length : source.file.length = 2 ^ 16 * 8

theorem Long.lastBlock {source : Source} (hLong : Long source) :
    source.lastBlock = 2 ^ 16 + 1 := by
  unfold Source.lastBlock Tftp.lastBlock
  rw [hLong.length, hLong.blksize, Nat.mul_div_cancel _ (by decide)]

theorem Long.length_block {source : Source} (hLong : Long source) :
    (source.block 65535).length = 8 := by
  rw [Tftp.length_block, hLong.length, hLong.blksize]
  rfl

/- A block of the wrap before is stored after the wrap. -/
theorem stale_netBootFileSize {source : Source} (hLong : Long source) (hLoading : Loading source t)
    (hState : t.state = .data) (hCur : t.curBlock = 65535) (hWrap : t.blockWrap = 1) :
    source.file.length < (withBlock load (source.block 65535) t).netBootFileSize := by
  have hBlockSize : t.blockSize = 8 :=
    (hLoading.blockSize (by rw [hState]; nofun)).trans hLong.blksize
  have hOffset : t.blockWrapOffset % 2 ^ 64 = 2 ^ 16 * 8 := by
    rw [hLoading.wrap hState, hWrap, hLong.blksize]
    rfl
  have hNumber : toInt (ulong ((t.curBlock : Int) - 1)) = 65534 := by
    rw [hCur]
    decide
  have hStore : storeOffset t (toInt (ulong ((t.curBlock : Int) - 1))) = 131070 * 8 := by
    rw [hNumber]
    unfold storeOffset ulong
    rw [hBlockSize]
    omega
  unfold withBlock storeBlock
  dsimp only
  rw [show storeOffset { t with prevBlock := t.curBlock }
      (toInt (ulong ((t.curBlock : Int) - 1))) = 131070 * 8
      from hStore, hLong.length_block, hLong.length]
  have hNew : ulong ((131070 * 8 : Nat) + (8 : Nat) : Int) = 131071 * 8 := by decide
  rw [hNew]
  split_ifs
  · decide
  · omega

/- The client once the stale block has come. -/
structure Spoiled (source : Source) (t : Client) : Prop where
  running : t.netState = .running
  loading : Loading source t
  state : t.state = .data
  prevBlock : t.prevBlock = 65535
  wrap : t.blockWrap = 1
  size : source.file.length < t.netBootFileSize

/- The block 65535 comes again after the block 65536. -/
theorem stale_arrives
    {source : Source} (hLong : Long source) {s : GetState} (hIn : InOrder source (65535 + 1) s) :
    ∃ t', dataHandler load (ushort 65535) (source.block 65535) s.client =
        (t', some (.ack (ushort 65535))) ∧
      Spoiled source t' := by
  have hNumber : ushort 65535 ≠ 0 := by decide
  have hOld : (65535 + 1) / 2 ^ 16 = 1 := by decide
  have hNoWrap : wrapAfter s.client 65535 = 1 := by
    unfold wrapAfter
    rw [if_neg (fun h => hNumber h.1), hIn.wrap, hOld]
  have hSmall : wrapAfter s.client 65535 < 2 ^ 64 := by
    rw [hNoWrap]
    decide
  have hCount := withNumber_wrap hIn.loading hIn.state hSmall
  have hLoading := withNumber_loading hIn.loading hIn.state hSmall
  have hState : (withNumber s.client 65535).state = .data := by simpa [withNumber] using hIn.state
  have hCur : (withNumber s.client 65535).curBlock = 65535 := by
    simp [withNumber, show ushort 65535 = 65535 from rfl]
  have hNew : (withNumber s.client 65535).curBlock ≠ (withNumber s.client 65535).prevBlock := by
    rw [hCur]
    simp [withNumber, hIn.prevBlock, show ushort 65536 = 0 from rfl]
  -- The stale block is full, so that the load goes on.
  have hFull : ¬ (source.block 65535).length < (withNumber s.client 65535).blockSize := by
    rw [hLong.length_block, hLoading.blockSize (by rw [hState]; nofun), hLong.blksize]
    decide
  have hStore : dataStore load (source.block 65535) (withNumber s.client 65535) = _ :=
    dataStore_eq _ hLoading.get hState hNew
  rw [if_neg hFull, hCur] at hStore
  refine ⟨withBlock load (source.block 65535) (withNumber s.client 65535), ?_, ?_⟩
  · unfold dataHandler
    rw [if_neg (by simp [hIn.state])]
    exact hStore
  · exact
      { running := by
          show (withNumber s.client 65535).netState = _
          simpa [withNumber] using hIn.running
        loading := { hLoading with }
        state := hState
        prevBlock := hCur
        wrap := hCount.1.trans hNoWrap
        size := stale_netBootFileSize hLong hLoading hState hCur (hCount.1.trans hNoWrap) }

theorem last_arrives {source : Source} (hLong : Long source) (hSpoiled : Spoiled source t) :
    ∃ t',
      dataHandler load (ushort 65537) (source.block 65537) t = (t', some (.ack (ushort 65537))) ∧
      t'.netState = .success ∧ source.file.length < t'.netBootFileSize := by
  have hLe : 65537 ≤ source.lastBlock := Nat.le_of_eq hLong.lastBlock.symm
  have hLength : source.file.length < 2 ^ 32 := by
    rw [hLong.length]
    decide
  have hNumber : ushort 65537 ≠ 0 := by decide
  have hNew : ushort 65537 ≠ 65535 := by decide
  have hWrap : 65537 / 2 ^ 16 = 1 := by decide
  rcases dataHandler_stores load hSpoiled.running hSpoiled.loading hSpoiled.state
      (by rw [hSpoiled.prevBlock]; exact hNew)
      (by decide) hLe
      (by
        unfold wrapAfter
        rw [if_neg (fun h => hNumber h.1), hSpoiled.wrap, hWrap])
      (Nat.lt_of_le_of_lt (blockEnd_le hLe) hLength) with
    ⟨t', hRun, hStores⟩
  refine ⟨t', hRun, ?_, ?_⟩
  · have hState := hStores.netState
    have hIs : 65537 = source.lastBlock := hLong.lastBlock.symm
    rw [if_pos hIs] at hState
    exact hState
  · have hSize := hSpoiled.size
    rw [hStores.size]
    split_ifs <;> omega

/-
  Once the numbers have come round, the block 65535 comes
  again before the last one.
-/
theorem Long.exists_wrong_size {source : Source} (hLong : Long source) :
    ∃ s, (getSystem load source newClient).Reachable s ∧ s.client.netState = .success ∧
      source.file.length < s.client.netBootFileSize := by
  have hLast := hLong.lastBlock
  rcases exists_inOrder load source newClient rfl hLong.options (by rw [hLong.length]; decide) 65535
      (by rw [hLast]; decide) with
    ⟨s, hReach, hIn⟩
  rcases stale_arrives hLong hIn with ⟨stale, hStale, hSpoiled⟩
  have hFirst := getStep_data hIn.running (by decide) (by rw [hIn.server]; decide) hStale
  have hSecond := getStep_ackArrives load
    (s := s.replied 65535 (65535 :: s.got)
      (stale, some (.ack (ushort 65535))))
    hIn.server (mem_cons_of_mem _ hIn.ack)
    (by rw [hLast]; decide)
  rcases last_arrives hLong hSpoiled with ⟨final, hRun, hSuccess, hSize⟩
  have hThird := getStep_data
    (s := { s.replied 65535 (65535 :: s.got)
      (stale, some (.ack (ushort 65535))) with
        server := 65535 + 1 + 1 })
    hSpoiled.running (Nat.le_add_left 1 (65535 + 1))
    (Nat.le_refl _) hRun
  exact ⟨_, .next (.next (.next hReach trivial hFirst)
    trivial hSecond) trivial hThird, hSuccess, hSize⟩

def longSource : Source :=
  { shortSource with file := List.replicate (2 ^ 16 * 8) 0 }

theorem longSource_long : Long longSource where
  options := rfl
  blksize := rfl
  length := length_replicate

theorem tftp_get_stores_stale_block :
    ∃ s, (getSystem load longSource newClient).Reachable s ∧ s.client.netState = .success ∧
      ¬ Delivered load longSource s.client := by
  rcases longSource_long.exists_wrong_size with ⟨s, hReach, hSuccess, hSize⟩
  refine ⟨s, hReach, hSuccess, ?_⟩
  intro hDelivered
  exact absurd hDelivered.size (Nat.ne_of_gt hSize)

end Uboot.Tftp
