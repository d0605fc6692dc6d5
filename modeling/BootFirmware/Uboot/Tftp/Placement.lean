import BootFirmware.Uboot.Tftp.Get

/-
  Where the blocks of a load are put, for every block size.

  The product of a block and the block size is an `int`, and
  the file size has 32 bits.  Blocks that come in order are
  put one after the other as long as both are large enough.

  Key definitions include:
    * `FitsInt` and `arrive`
    * `Started` and `Arrived`
    * `Placed`

  The main results are:
    * `Arrived.next`
    * `arriveAll_arrived`
    * `tftp_block_placement`
-/

----
-- Blocks That Come In Order
----

namespace Uboot.Tftp

/- The values of an `int`. -/
def FitsInt (n : Int) : Prop :=
  -2 ^ 31 ≤ n ∧ n < 2 ^ 31

instance (n : Int) : Decidable (FitsInt n) :=
  inferInstanceAs (Decidable (_ ∧ _))

/- `block * tftp_block_size` in `store_block`. -/
def storeProduct (t : Client) (block : Int) : Int :=
  block * t.blockSize

/-
  A block that is stored.  The result is not defined where
  the product overflows.
-/
def arrive (transfer : Transfer) (number : Nat) (bytes : List UInt8) (t : Client) :
    Option Client :=
  if FitsInt (storeProduct t (toInt (ulong ((number : Int) - 1))))
  then some (dataHandler transfer number bytes t).1
  else none

/- Blocks one after the other, from a number on. -/
def arriveAll (transfer : Transfer) :
    Nat → List (List UInt8) → Client → Option Client
  | _, [], t => some t
  | index, bytes :: rest, t =>
    (arrive transfer (ushort index) bytes t).bind (arriveAll transfer (index + 1) rest)

/-
  The client that waits for the first block: the server has
  taken no option, or one for the block size.
-/
inductive Started
    (transfer : Transfer) :
    Nat → Client → Prop where
  | default (last : Client) : Started transfer TFTP_BLOCK_SIZE (tftpStart transfer last).1
  | negotiated (last : Client) (bs : Nat) :
      Started transfer bs (oackHandler transfer (some bs) (tftpStart transfer last).1).1

/- Block `index` was put where it belongs. -/
structure Placed
    (transfer : Transfer) (bs index : Nat) (bytes : List UInt8)
    (t t' : Client) : Prop where
  memory :
    t'.memory = memcpy t.memory (ulong ((transfer.loadAddr + (index - 1) * bs : Nat) : Int)) bytes
  size : t'.netBootFileSize = (index - 1) * bs + bytes.length

/- The client after `n` full blocks. -/
structure Arrived (bs n : Nat) (t : Client) : Prop where
  get : t.putActive = false
  blockSize : t.blockSize = bs
  size : t.netBootFileSize = n * bs
  first : n = 0 → t.state = .sendRrq ∨ t.state = .oack
  later :
    n ≠ 0 →
      t.state = .data ∧ t.prevBlock = ushort n ∧ t.blockWrapOffset = n / 2 ^ 16 * (bs * 2 ^ 16)

section

variable {transfer : Transfer} {bs : Nat} {t : Client}

theorem Started.arrived
    (hGet : transfer.put = false) (hBs : bs < 2 ^ 16) (hStarted : Started transfer bs t) :
    Arrived bs 0 t := by
  cases hStarted with
  | default last =>
    rw [tftpStart_load transfer last hGet]
    exact ⟨rfl, rfl, (Nat.zero_mul _).symm, fun _ => Or.inl rfl, nofun⟩
  | negotiated last =>
    rw [tftpStart_load transfer last hGet]
    exact ⟨rfl, ushort_of_lt hBs, (Nat.zero_mul _).symm, fun _ => Or.inr rfl, nofun⟩

/- The client as it is when it stores a block. -/
structure Numbered
    (bs index : Nat)
    (t t' : Client) : Prop where
  get : t'.putActive = false
  blockSize : t'.blockSize = bs
  state : t'.state = .data
  curBlock : t'.curBlock = ushort index
  new : t'.curBlock ≠ t'.prevBlock
  wrap : t'.blockWrapOffset = index / 2 ^ 16 * (bs * 2 ^ 16)
  memory : t'.memory = t.memory
  size : t'.netBootFileSize = t.netBootFileSize

variable {n : Nat}

theorem wraps_succ (hLt : (n + 1) * bs < 2 ^ 48) :
    ulong ((n / 2 ^ 16 * (bs * 2 ^ 16) + bs * TFTP_SEQUENCE_SIZE : Nat) : Int) =
      (n / 2 ^ 16 + 1) * (bs * 2 ^ 16) := by
  have hDiv : n / 2 ^ 16 ≤ n := Nat.div_le_self n _
  have hLe : (n / 2 ^ 16 + 1) * bs ≤ (n + 1) * bs := Nat.mul_le_mul_right bs (Nat.succ_le_succ hDiv)
  have hEq : (n / 2 ^ 16 + 1) * (bs * 2 ^ 16) = (n / 2 ^ 16 + 1) * bs * 2 ^ 16 :=
    (Nat.mul_assoc _ _ _).symm
  have hSum : n / 2 ^ 16 * (bs * 2 ^ 16) +
      bs * TFTP_SEQUENCE_SIZE = (n / 2 ^ 16 + 1) * (bs * 2 ^ 16) :=
    (Nat.succ_mul _ _).symm
  rw [hSum]
  refine ulong_of_lt ?_
  rw [hEq]
  omega

/- What the handler makes of a block before it stores it. -/
theorem Arrived.handled
    (hArrived : Arrived bs n t) (hLt : (n + 1) * bs < 2 ^ 48) (bytes : List UInt8) :
    ∃ t', dataHandler transfer (ushort (n + 1)) bytes t = dataStore transfer bytes t' ∧
        Numbered bs (n + 1) t t' := by
  by_cases hFirst : n = 0
  · subst hFirst
    have hState := hArrived.first rfl
    have hOne : ushort (0 + 1) = 1 := rfl
    refine ⟨newTransfer { withNumber t 1 with state := .data }, ?_, ?_⟩
    · unfold dataHandler
      rw [hOne]
      rw [if_pos (by simpa using hState)]
      simp [withNumber, newTransfer, hOne]
    · exact
        { get := by
            simpa [withNumber, newTransfer] using hArrived.get
          blockSize := by
            simpa [withNumber, newTransfer] using hArrived.blockSize
          state := rfl
          curBlock := by simp [withNumber, newTransfer]
          new := by simp [withNumber, newTransfer, hOne]
          wrap := by simp [newTransfer]
          memory := by simp [withNumber, newTransfer]
          size := by simp [withNumber, newTransfer] }
  · rcases hArrived.later hFirst with ⟨hState, hPrev, hWrap⟩
    refine ⟨withNumber t (n + 1), ?_, ?_⟩
    · unfold dataHandler
      rw [if_neg (by simp [hState])]
      rfl
    · exact
        { get := by simpa [withNumber] using hArrived.get
          blockSize := by
            simpa [withNumber] using hArrived.blockSize
          state := by simpa [withNumber] using hState
          curBlock := by simp [withNumber]
          new := by
            simpa [withNumber, hPrev] using ushort_succ_ne n
          wrap := by
            unfold withNumber updateBlockNumber
            dsimp only
            split_ifs with hZero
            · have hNext : (n + 1) / 2 ^ 16 = n / 2 ^ 16 + 1 := by
                have hNumber := hZero.1
                unfold ushort TFTP_SEQUENCE_SIZE at hNumber
                omega
              rw [hWrap, hArrived.blockSize, hNext]
              exact_mod_cast wraps_succ hLt
            · have hSame : (n + 1) / 2 ^ 16 = n / 2 ^ 16 := by
                rw [hPrev] at hZero
                unfold ushort TFTP_SEQUENCE_SIZE at hZero
                omega
              rw [hWrap, hSame]
          memory := by simp [withNumber]
          size := by simp [withNumber] }

variable {bytes : List UInt8} {t' : Client}

/- A block that is stored is put after those before it. -/
theorem Numbered.stored (hSize : t.netBootFileSize = n * bs) (hNumbered : Numbered bs (n + 1) t t')
    (hLt : n * bs + bytes.length < 2 ^ 32) :
    Placed transfer bs (n + 1) bytes t (dataStore transfer bytes t').1 ∧
      (bytes.length = bs → Arrived bs (n + 1) (dataStore transfer bytes t').1) := by
  have hOffset : storeOffset t' (toInt (ulong ((t'.curBlock : Int) - 1))) = n * bs := by
    rw [hNumbered.curBlock, toInt_ulong_sub_one (ushort_lt _)]
    refine storeOffset_eq (Nat.succ_pos n) hNumbered.blockSize ?_ ?_
    · rw [hNumbered.wrap]
    · rw [Nat.add_sub_cancel]
      omega
  have hNew : ulong (((n * bs : Nat) : Int) + bytes.length) = n * bs + bytes.length := by
    unfold ulong
    omega
  have hBlock : withBlock transfer bytes t' =
      { t' with
        prevBlock := t'.curBlock
        memory := memcpy t.memory (ulong ((transfer.loadAddr + n * bs : Nat) : Int)) bytes
        netBootFileSize := n * bs + bytes.length } := by
    change { t' with
      prevBlock := t'.curBlock
      memory := memcpy t'.memory
        (ulong ((transfer.loadAddr : Int) + storeOffset t'
          (toInt (ulong ((t'.curBlock : Int) - 1))))) bytes
      netBootFileSize :=
        if t'.netBootFileSize < ulong ((storeOffset t'
              (toInt (ulong ((t'.curBlock : Int) - 1))) : Int) + bytes.length) then
          u32 (ulong ((storeOffset t'
            (toInt (ulong ((t'.curBlock : Int) - 1))) : Int) + bytes.length))
        else t'.netBootFileSize } = _
    rw [hOffset, hNew, u32_of_lt hLt, hNumbered.memory, hNumbered.size, hSize, Int.natCast_add]
    congr 1
    split_ifs with hMore
    · rfl
    · omega
  rw [dataStore_eq bytes hNumbered.get hNumbered.state hNumbered.new, hBlock]
  have hIndex : n + 1 - 1 = n := Nat.add_sub_cancel n 1
  constructor
  · split_ifs
    · exact ⟨by rw [hIndex]; rfl, by rw [hIndex]; rfl⟩
    · exact ⟨by rw [hIndex], by rw [hIndex]⟩
  · intro hFull
    rw [if_neg (by rw [hNumbered.blockSize]; omega)]
    exact
      { get := hNumbered.get
        blockSize := hNumbered.blockSize
        size := by
          rw [Nat.succ_mul]
          exact congrArg (n * bs + ·) hFull
        first := nofun
        later := fun _ => ⟨hNumbered.state, hNumbered.curBlock, hNumbered.wrap⟩ }

/- The product for block `n + 1`, up to a wrap and after it. -/
theorem arrive_eq (bytes : List UInt8) (hBlockSize : t.blockSize = bs) :
    arrive transfer (ushort (n + 1)) bytes t =
      if FitsInt (((ushort (n + 1) : Int) - 1) * bs) then
        some (dataHandler transfer (ushort (n + 1)) bytes t).1
      else none := by
  unfold arrive storeProduct
  rw [toInt_ulong_sub_one (ushort_lt _), hBlockSize]

theorem fitsInt_product
    {n j : Nat} (hBs : bs < 2 ^ 16) (hFits : min n 65534 * bs < 2 ^ 31) (hLe : j ≤ n) :
    FitsInt (((ushort (j + 1) : Int) - 1) * bs) := by
  have hNumber := ushort_lt (j + 1)
  rcases Nat.eq_zero_or_pos (ushort (j + 1)) with hZero | hPos
  · rw [hZero]
    unfold FitsInt
    omega
  · have hMin : ushort (j + 1) - 1 ≤ min n 65534 := by
      unfold ushort TFTP_SEQUENCE_SIZE at hPos hNumber ⊢
      omega
    have hMul := Nat.mul_le_mul_right bs hMin
    have hEq : ((ushort (j + 1) : Int) - 1) * bs = ((ushort (j + 1) - 1) * bs : Nat) := by
      rw [Int.natCast_mul, Int.natCast_sub hPos]
      rfl
    rw [hEq]
    unfold FitsInt
    omega

/- One more block in order. -/
theorem Arrived.next (hArrived : Arrived bs n t) (hBs : bs < 2 ^ 16)
    (hFits : FitsInt (((ushort (n + 1) : Int) - 1) * bs)) (hLt : n * bs + bytes.length < 2 ^ 32) :
    ∃ t',
      arrive transfer (ushort (n + 1)) bytes t = some t' ∧ Placed transfer bs (n + 1) bytes t t' ∧
        (bytes.length = bs → Arrived bs (n + 1) t') := by
  have hMul : (n + 1) * bs < 2 ^ 48 := by
    rw [Nat.succ_mul]
    omega
  rcases hArrived.handled hMul bytes with ⟨t', hHandled, hNumbered⟩
  rcases hNumbered.stored hArrived.size hLt with ⟨hPlaced, hNext⟩
  rw [arrive_eq bytes hArrived.blockSize, if_pos hFits, hHandled]
  exact ⟨_, rfl, hPlaced, hNext⟩

variable {full : List (List UInt8)}

/- All the full blocks, by induction on their list. -/
theorem arriveAll_arrived
    (hBs : bs < 2 ^ 16) (hFull : ∀ bytes ∈ full, bytes.length = bs) (hArrived : Arrived bs n t)
    (hFits : min (n + full.length) 65534 * bs < 2 ^ 31) (hLt : (n + full.length) * bs < 2 ^ 32) :
    ∃ t', arriveAll transfer (n + 1) full t = some t' ∧ Arrived bs (n + full.length) t' := by
  induction full generalizing n t with
  | nil => exact ⟨t, rfl, hArrived⟩
  | cons bytes rest ih =>
    have hLength := hFull bytes List.mem_cons_self
    have hCount : n + (bytes :: rest).length = n + 1 + rest.length := by
      rw [List.length_cons]
      omega
    rw [hCount] at hFits hLt ⊢
    have hHere : n * bs + bytes.length < 2 ^ 32 := by
      have hLe : (n + 1) * bs ≤ (n + 1 + rest.length) * bs := Nat.mul_le_mul_right bs (by omega)
      rw [hLength, ← Nat.succ_mul]
      exact Nat.lt_of_le_of_lt hLe hLt
    rcases hArrived.next hBs
      (fitsInt_product hBs hFits (by omega)) hHere with ⟨t₁, hArrive, -, hNext⟩
    rcases ih (fun b hb => hFull b (List.mem_cons_of_mem bytes hb))
      (hNext hLength) hFits hLt with ⟨t', hRest, hDone⟩
    refine ⟨t', ?_, hDone⟩
    rw [arriveAll, hArrive]
    exact hRest

----
-- Any Blocks
----

/- What no block changes. -/
structure Steady (bs : Nat) (t : Client) : Prop where
  blockSize : t.blockSize = bs
  size : t.netBootFileSize < 2 ^ 32

theorem Steady.dataStore (bytes : List UInt8) (hSteady : Steady bs t) :
    Steady bs (dataStore transfer bytes t).1 := by
  have hStore : ∀ block : Int, ∀ t₁ : Client, Steady bs t₁ →
      Steady bs (storeBlock transfer block bytes t₁) := by
    intro block t₁ hOld
    refine ⟨hOld.blockSize, ?_⟩
    unfold storeBlock
    dsimp only
    split_ifs
    · exact Nat.mod_lt _ (by decide)
    · exact hOld.size
  have hSend : ∀ t₁ : Client, Steady bs t₁ → Steady bs (tftpSend transfer t₁).1 := by
    intro t₁ hOld
    unfold tftpSend
    split
    · exact hOld
    · exact hOld
    all_goals
      split_ifs
      · exact ⟨hOld.blockSize, hOld.size⟩
      · exact hOld
  unfold Tftp.dataStore
  split_ifs
  · exact hSteady
  · have hSent := hSend _
      (hStore (toInt (ulong ((t.curBlock : Int) - 1))) { t with prevBlock := t.curBlock }
        ⟨hSteady.blockSize, hSteady.size⟩)
    dsimp only
    split_ifs
    · exact ⟨hSent.blockSize, hSent.size⟩
    · exact hSent

theorem Steady.dataHandler (number : Nat) (bytes : List UInt8) (hSteady : Steady bs t) :
    Steady bs (dataHandler transfer number bytes t).1 := by
  have hNumber : Steady bs (updateBlockNumber { t with curBlock := number }) := by
    refine ⟨?_, ?_⟩
    · simp only [updateBlockNumber_same]
      exact hSteady.blockSize
    · simp only [updateBlockNumber_same]
      exact hSteady.size
  unfold Tftp.dataHandler
  dsimp only
  split_ifs
  · exact ⟨hNumber.blockSize, hNumber.size⟩
  · exact Steady.dataStore bytes ⟨hNumber.blockSize, hNumber.size⟩
  · exact hNumber.dataStore bytes

theorem Steady.arrive
    (hSteady : Steady bs t) (hArrive : arrive transfer (ushort (n + 1)) bytes t = some t') :
    FitsInt (((ushort (n + 1) : Int) - 1) * bs) ∧ Steady bs t' := by
  rw [arrive_eq bytes hSteady.blockSize] at hArrive
  split_ifs at hArrive with hFits
  cases hArrive
  exact ⟨hFits, hSteady.dataHandler _ bytes⟩

/- No product has overflowed where all blocks have come. -/
theorem Steady.arriveAll
    (hSteady : Steady bs t) (hArrive : arriveAll transfer (n + 1) full t = some t') :
    (∀ j, n ≤ j → j < n + full.length →
      FitsInt (((ushort (j + 1) : Int) - 1) * bs)) ∧ Steady bs t' := by
  induction full generalizing n t with
  | nil =>
    cases hArrive
    refine ⟨fun j hLe hLt => ?_, hSteady⟩
    rw [List.length_nil] at hLt
    omega
  | cons bytes rest ih =>
    rw [Tftp.arriveAll, Option.bind_eq_some_iff] at hArrive
    rcases hArrive with ⟨t₁, hHead, hRest⟩
    rcases hSteady.arrive hHead with ⟨hFits, hNext⟩
    rcases ih hNext hRest with ⟨hAll, hDone⟩
    refine ⟨fun j hLe hLt => ?_, hDone⟩
    rw [List.length_cons] at hLt
    by_cases hHere : j = n
    · rw [hHere]
      exact hFits
    · exact hAll j (by omega) (by omega)

theorem product_lt_of_fitsInt (hFits : ∀ j ≤ n, FitsInt (((ushort (j + 1) : Int) - 1) * bs)) :
    min n 65534 * bs < 2 ^ 31 := by
  have hLargest := hFits (min n 65534) (Nat.min_le_left _ _)
  have hNumber : ushort (min n 65534 + 1) = min n 65534 + 1 := ushort_of_lt (by omega)
  have hEq : ((ushort (min n 65534 + 1) : Int) - 1) * bs = (min n 65534 * bs : Nat) := by
    rw [hNumber, Int.natCast_mul, Int.natCast_add]
    exact congrArg (· * (bs : Int)) (Int.add_sub_cancel _ 1)
  rw [hEq] at hLargest
  unfold FitsInt at hLargest
  omega

end

----
-- The Placement
----

/-
  The last of the blocks that come in order is put at its
  offset, and the file size is the end of it, exactly if no
  product on the way leaves the `int` and the size fits its
  32 bits.
-/
theorem tftp_block_placement (transfer : Transfer) (bs : Nat) (full : List (List UInt8))
    (bytes : List UInt8) (t : Client) (hGet : transfer.put = false)
    (hBs : bs ≤ 65464) (hFull : ∀ block ∈ full, block.length = bs)
    (hStarted : Started transfer bs t) :
    (∃ before after, arriveAll transfer 1 full t = some before ∧
        arrive transfer (ushort (full.length + 1)) bytes before = some after ∧
        Placed transfer bs (full.length + 1) bytes before after) ↔
      min full.length 65534 * bs < 2 ^ 31 ∧ full.length * bs + bytes.length < 2 ^ 32 := by
  have hShort : bs < 2 ^ 16 := by omega
  have hArrived := hStarted.arrived hGet hShort
  constructor
  · rintro ⟨before, after, hBefore, hAfter, hPlaced⟩
    have hSteady : Steady bs t := by
      refine ⟨hArrived.blockSize, ?_⟩
      rw [hArrived.size, Nat.zero_mul]
      decide
    rcases Steady.arriveAll hSteady hBefore with ⟨hAll, hMiddle⟩
    rcases hMiddle.arrive hAfter with ⟨hLast, hDone⟩
    refine ⟨product_lt_of_fitsInt fun j hj => ?_, ?_⟩
    · by_cases hEnd : j = full.length
      · rw [hEnd]
        exact hLast
      · exact hAll j (Nat.zero_le j) (by omega)
    · have hSize := hDone.size
      rw [hPlaced.size, Nat.add_sub_cancel] at hSize
      exact hSize
  · rintro ⟨hFits, hSize⟩
    rcases @arriveAll_arrived transfer bs t 0 full hShort hFull hArrived (by rwa [Nat.zero_add])
        (by rw [Nat.zero_add]; omega) with
      ⟨before, hBefore, hMiddle⟩
    rw [Nat.zero_add] at hMiddle
    rcases @Arrived.next transfer bs before _ bytes hMiddle hShort
        (fitsInt_product hShort hFits (Nat.le_refl _)) hSize
      with ⟨after, hAfter, hPlaced, -⟩
    exact ⟨before, after, hBefore, hAfter, hPlaced⟩

/- A load to the address 0. -/
def loadToZero : Transfer where
  put := false
  loadAddr := 0
  saveAddr := 0
  saveSize := 0
  timeoutCountMax := 10

/- A client before its first transfer. -/
def idleClient : Client where
  curBlock := 0
  prevBlock := 0
  blockWrap := 0
  blockWrapOffset := 0
  state := .sendRrq
  putActive := false
  putFinalBlockSent := false
  blockSize := TFTP_BLOCK_SIZE
  timeoutCount := 0
  netBootFileSize := 0
  netState := .running
  memory := fun _ => 0

/- Three bytes in blocks of two. -/
theorem tftp_block_placement_three_bytes :
    ∃ before after, arriveAll loadToZero 1 [[1, 2]]
          (oackHandler loadToZero (some 2) (tftpStart loadToZero idleClient).1).1 = some before ∧
        arrive loadToZero (ushort 2) [3] before = some after ∧
        Placed loadToZero 2 2 [3] before after :=
  (tftp_block_placement loadToZero 2 [[1, 2]] [3] _ rfl
    (by decide) (by decide) (.negotiated idleClient 2)).mpr (by decide)

/-
  With the largest block size the product for block 32806 is
  more than an `int` holds.
-/
theorem tftp_block_product_overflows :
    ¬ ∃ before after, arriveAll loadToZero 1 (List.replicate 32805 (List.replicate 65464 0))
          (oackHandler loadToZero (some 65464) (tftpStart loadToZero idleClient).1).1 =
          some before ∧
        arrive loadToZero (ushort 32806) [] before = some after := by
  rintro ⟨before, after, hBefore, hAfter⟩
  have hArrived := (Started.negotiated idleClient
    65464).arrived (show loadToZero.put = false from rfl) (by decide)
  have hSteady : Steady 65464
      (oackHandler loadToZero (some 65464) (tftpStart loadToZero idleClient).1).1 :=
    ⟨hArrived.blockSize, by rw [hArrived.size]; decide⟩
  have hMiddle := (Steady.arriveAll hSteady hBefore).2
  have hFits := (hMiddle.arrive hAfter).1
  exact absurd hFits (by decide)

end Uboot.Tftp
