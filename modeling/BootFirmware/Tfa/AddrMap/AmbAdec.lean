import BootFirmware.Lib.Alignment
import BootFirmware.Lib.Memory

/-
  The windows of the AXI to MBus bridge, which are checked,
  adjusted and then programmed one after the other.

  Key definitions include:
    * `ambCheckWin` and `ambEnableWin`
    * `initAmbAdec`
    * `Decodes` and `Implements`

  Main declarations:
    * `init_amb_adec_implements`
-/

----
-- The Driver
----

namespace Tfa.AmbAdec

open Alignment Function

def AMB_MAX_WIN_ID : Nat := 7

def WIN_ENABLE_BIT : BitVec 32 := 0x1#32

def AMB_ATTR_OFFSET : Nat := 8

def AMB_ATTR_MASK : BitVec 32 := 0xFF#32

def AMB_SIZE_OFFSET : Nat := 16

def AMB_SIZE_MASK : BitVec 32 := 0xFF#32

def AMB_BASE_OFFSET : Nat := 16

def AMB_BASE_ADDR_MASK : BitVec 64 := 0xFFFF#64

def AMB_WIN_ALIGNMENT_64K : BitVec 64 := 0x10000#64

def AMB_WIN_ALIGNMENT_1M : BitVec 32 := BitVec.twoPow 32 20

/- `struct addr_map_win`, with a base in units of 64 KB. -/
structure AddrMapWin where
  baseAddr : BitVec 64
  winSize : BitVec 64
  targetId : BitVec 32

def isNotAlign (number align : BitVec 32) : Bool :=
  number &&& (align - 1#32) ≠ 0#32

/- `ALIGN_UP` -/
def alignUpMacro (number align : BitVec 32) : BitVec 32 :=
  if isNotAlign number align then
    (number + align) &&& ~~~(align - 1#32)
  else number

def isPowerOf2 (number : BitVec 64) : Bool :=
  number ≠ 0#64 ∧ number &&& (number - 1#64) = 0#64

/- `__builtin_clz`, for a number that is not zero. -/
def builtinClz (x : BitVec 32) : Nat :=
  31 - x.toNat.log2

def roundUpToPowOf2 (number : BitVec 64) : BitVec 64 :=
  (1#32 <<< (32 - builtinClz ((number - 1#64).setWidth 32))).signExtend 64

/- A base with its bytes in the 32 bits of an address. -/
def addressOf (baseAddr : BitVec 64) : BitVec 32 :=
  (baseAddr <<< AMB_BASE_OFFSET).setWidth 32

/- The base is checked in both of its units. -/
def checkBase (baseAddr : BitVec 64) : BitVec 64 :=
  let baseAddr :=
    if baseAddr > AMB_BASE_ADDR_MASK then AMB_BASE_ADDR_MASK
    else baseAddr
  if isNotAlign (addressOf baseAddr) AMB_WIN_ALIGNMENT_1M then
    (alignUpMacro (addressOf baseAddr) AMB_WIN_ALIGNMENT_1M).setWidth 64
  else baseAddr

def checkSize (winSize : BitVec 64) : BitVec 64 :=
  if isPowerOf2 winSize then winSize else roundUpToPowOf2 winSize

def ambCheckWin (win : AddrMapWin) : AddrMapWin :=
  { win with
    baseAddr := checkBase win.baseAddr
    winSize := checkSize win.winSize }

/- The registers of the windows. -/
structure Regs where
  cr : Memory (BitVec 32)
  base : Memory (BitVec 32)

def Regs.writeCr (regs : Regs) (win : Nat) (value : BitVec 32) :
    Regs :=
  { regs with cr := update regs.cr win value }

def Regs.writeBase (regs : Regs) (win : Nat) (value : BitVec 32) : Regs :=
  { regs with base := update regs.base win value }

def ctrlOf (win : AddrMapWin) : BitVec 32 :=
  let size := (win.winSize / AMB_WIN_ALIGNMENT_64K - 1#64).setWidth 32
  (size <<< AMB_SIZE_OFFSET) ||| (win.targetId <<< AMB_ATTR_OFFSET)

def ambEnableWin (win : AddrMapWin) (winNum : Nat) (regs : Regs) : Regs :=
  let ctrl := ctrlOf win
  let regs := regs.writeBase winNum (addressOf win.baseAddr)
  let regs := regs.writeCr winNum ctrl
  regs.writeCr winNum (ctrl ||| WIN_ENABLE_BIT)

/- The first windows are disabled. -/
def disableWins : Nat → Regs → Regs
  | 0, regs => regs
  | n + 1, regs =>
    let regs := disableWins n regs
    regs.writeCr n (regs.cr n &&& ~~~WIN_ENABLE_BIT)

/- The windows of the list are enabled, from a number on. -/
def enableWins : List AddrMapWin → Nat → Regs → Regs
  | [], _, regs => regs
  | win :: rest, winId, regs =>
    enableWins rest (winId + 1) (ambEnableWin (ambCheckWin win) winId regs)

/- `init_amb_adec`, for the windows of the memory map. -/
def initAmbAdec (wins : List AddrMapWin) (regs : Regs) : Regs :=
  if wins.length > AMB_MAX_WIN_ID then regs
  else enableWins wins 0 (disableWins AMB_MAX_WIN_ID regs)

----
-- Decoding
----

/- The size of a window, as the debug dump reads it. -/
def windowSize (cr : BitVec 32) : Nat :=
  (((cr >>> AMB_SIZE_OFFSET) &&& AMB_SIZE_MASK).toNat + 1) * 2 ^ 16

def attrOf (cr : BitVec 32) : BitVec 32 :=
  (cr >>> AMB_ATTR_OFFSET) &&& AMB_ATTR_MASK

def Enabled (regs : Regs) (win : Nat) : Prop :=
  (regs.cr win).getLsbD 0 = true

/- A programmed window is the one that was asked for. -/
structure Decodes (win : AddrMapWin) (base cr : BitVec 32) : Prop where
  aligned : 2 ^ 20 ∣ base.toNat
  rounded : base.toNat = roundUp (2 ^ 20) (win.baseAddr.toNat * 2 ^ 16)
  power : ∃ k, windowSize cr = 2 ^ k
  covers : win.winSize.toNat ≤ windowSize cr
  atLeast : 2 ^ 16 ≤ windowSize cr
  target : attrOf cr = win.targetId

/- Each window that is enabled is one of the list. -/
def Implements (wins : List AddrMapWin) (regs : Regs) : Prop :=
  ∀ i, i < AMB_MAX_WIN_ID → Enabled regs i →
    ∃ win, wins[i]? = some win ∧ Decodes win (regs.base i) (regs.cr i)

/- What the hardware and both units of the base can hold. -/
def Plain (win : AddrMapWin) : Prop :=
  2 ^ 4 ∣ win.baseAddr.toNat ∧ win.baseAddr.toNat < 2 ^ 16 ∧ win.targetId.toNat < 2 ^ 8

----
-- The Base
----

theorem isNotAlign_iff (x : BitVec 32) :
    isNotAlign x AMB_WIN_ALIGNMENT_1M = true ↔ x.toNat % 2 ^ 20 ≠ 0 := by
  unfold isNotAlign AMB_WIN_ALIGNMENT_1M
  rw [decide_eq_true_iff, ne_eq, ← BitVec.toNat_inj,
    BitVec.toNat_and, toNat_twoPow_sub_one (by decide), Nat.and_two_pow_sub_one_eq_mod]
  rfl

theorem addressOf_toNat (b : BitVec 64) :
    (addressOf b).toNat = b.toNat * 2 ^ 16 % 2 ^ 32 := by
  unfold addressOf AMB_BASE_OFFSET
  rw [BitVec.toNat_setWidth, BitVec.toNat_shiftLeft, Nat.shiftLeft_eq]
  omega

/- A base that was adjusted is shifted once too often. -/
theorem addressOf_adjusted (x : BitVec 32) (hNot : isNotAlign x AMB_WIN_ALIGNMENT_1M = true) :
    (addressOf ((alignUpMacro x AMB_WIN_ALIGNMENT_1M).setWidth 64)).toNat = 0 := by
  unfold alignUpMacro
  rw [if_pos hNot, addressOf_toNat, BitVec.toNat_setWidth]
  unfold AMB_WIN_ALIGNMENT_1M
  rw [toNat_and_not_mask _ (by decide)]
  omega

theorem checkBase_plain {b : BitVec 64} (hDvd : 2 ^ 4 ∣ b.toNat) (hLt : b.toNat < 2 ^ 16) :
    checkBase b = b := by
  have hLe : ¬ b > AMB_BASE_ADDR_MASK := by
    rw [gt_iff_lt, BitVec.lt_def]
    change ¬ 0xFFFF < b.toNat
    omega
  have hAligned : ¬ isNotAlign (addressOf b) AMB_WIN_ALIGNMENT_1M = true := by
    rw [isNotAlign_iff, addressOf_toNat]
    omega
  unfold checkBase
  rw [if_neg hLe, if_neg hAligned]

theorem address_checkBase_other {b : BitVec 64} (hNot : ¬ (2 ^ 4 ∣ b.toNat ∧ b.toNat < 2 ^ 16)) :
    (addressOf (checkBase b)).toNat = 0 := by
  unfold checkBase
  by_cases hBig : b > AMB_BASE_ADDR_MASK
  · rw [if_pos hBig, if_pos (by decide)]
    exact addressOf_adjusted _ (by decide)
  · have hLt : b.toNat < 2 ^ 16 := by
      rw [gt_iff_lt, BitVec.lt_def] at hBig
      change ¬ 0xFFFF < b.toNat at hBig
      omega
    have hOdd : isNotAlign (addressOf b) AMB_WIN_ALIGNMENT_1M = true := by
      rw [isNotAlign_iff, addressOf_toNat]
      omega
    rw [if_neg hBig, if_pos hOdd]
    exact addressOf_adjusted _ hOdd

theorem base_right_iff (b : BitVec 64) :
    (addressOf (checkBase b)).toNat = roundUp (2 ^ 20) (b.toNat * 2 ^ 16) ↔
      2 ^ 4 ∣ b.toNat ∧ b.toNat < 2 ^ 16 := by
  by_cases hPlain : 2 ^ 4 ∣ b.toNat ∧ b.toNat < 2 ^ 16
  · refine iff_of_true ?_ hPlain
    rw [checkBase_plain hPlain.1 hPlain.2, addressOf_toNat, roundUp_of_dvd (by decide) (by omega)]
    omega
  · refine iff_of_false ?_ hPlain
    rw [address_checkBase_other hPlain]
    have hLe := le_roundUp (a := 2 ^ 20) (b.toNat * 2 ^ 16)
      (by decide)
    intro hZero
    rw [← hZero] at hLe
    exact hPlain (by omega)

----
-- Size And Target
----

theorem checkSize_power {size : BitVec 64} (hPos : 1 ≤ size.toNat) (hLe : size.toNat ≤ 2 ^ 24) :
    ∃ k, k ≤ 24 ∧ (checkSize size).toNat = 2 ^ k ∧ size.toNat ≤ 2 ^ k := by
  have hOne : (size - 1#64).toNat = size.toNat - 1 := by
    have hLow : 1#64 ≤ size := BitVec.le_def.mpr hPos
    rw [BitVec.toNat_sub_of_le hLow]
    rfl
  have hPower : isPowerOf2 size = true ↔ size.toNat.isPowerOfTwo := by
    unfold isPowerOf2
    rw [decide_eq_true_iff, ← Nat.ne_zero_and_sub_one_eq_zero_iff_isPowerOfTwo,
      ne_eq, ← BitVec.toNat_inj, ← BitVec.toNat_inj, BitVec.toNat_and, hOne]
    rfl
  unfold checkSize
  by_cases hIs : isPowerOf2 size = true
  · rcases hPower.mp hIs with ⟨k, hk⟩
    rw [if_pos hIs]
    refine ⟨k, ?_, hk, Nat.le_of_eq hk⟩
    rw [hk] at hLe
    exact (Nat.pow_le_pow_iff_right (by decide)).mp hLe
  · have hMany : 2 ≤ size.toNat := by
      by_contra hFew
      have hEq : size.toNat = 1 := by omega
      exact hIs (hPower.mpr (hEq ▸ ⟨0, rfl⟩))
    have hNe : size.toNat - 1 ≠ 0 := by omega
    have hLow : ((size - 1#64).setWidth 32).toNat = size.toNat - 1 := by
      rw [BitVec.toNat_setWidth, hOne]
      omega
    have hLog : (size.toNat - 1).log2 < 24 := (Nat.log2_lt hNe).mpr (by omega)
    have hUp : size.toNat - 1 < 2 ^ ((size.toNat - 1).log2 + 1) := Nat.lt_log2_self
    rw [if_neg hIs]
    unfold roundUpToPowOf2 builtinClz
    rw [hLow]
    generalize (size.toNat - 1).log2 = l at hLog hUp
    have hEach : ∀ l : Fin 24,
        ((1#32 <<< (32 - (31 - l.val))).signExtend 64).toNat = 2 ^ (l.val + 1) := by
      decide
    exact ⟨l + 1, hLog, hEach ⟨l, hLog⟩, by omega⟩

/- The high bits of a small number are clear. -/
theorem getLsbD_of_byte {x : BitVec 32} {i : Nat} (hByte : x.toNat < 2 ^ 8) (hi : 8 ≤ i) :
    x.getLsbD i = false :=
  Nat.testBit_lt_two_pow (Nat.lt_of_lt_of_le hByte (Nat.pow_le_pow_right (by decide) hi))

theorem attrOf_ctrlOf (win : AddrMapWin) :
    attrOf (ctrlOf win ||| WIN_ENABLE_BIT) = win.targetId &&& AMB_ATTR_MASK := by
  unfold attrOf ctrlOf AMB_ATTR_OFFSET AMB_ATTR_MASK AMB_SIZE_OFFSET WIN_ENABLE_BIT
  ext i hi
  have hMask := getLsbD_of_byte (x := 0xFF#32) (i := i) (by decide)
  grind

/- The size field, where the target leaves it alone. -/
theorem windowSize_ctrlOf (win : AddrMapWin) {k : Nat}
    (hTarget : win.targetId.toNat < 2 ^ 8) (hSize : win.winSize.toNat = 2 ^ k) (hk : k ≤ 24) :
    ∃ j, windowSize (ctrlOf win ||| WIN_ENABLE_BIT) = 2 ^ j ∧ k ≤ j ∧ 16 ≤ j := by
  have hField :
      ((ctrlOf win ||| WIN_ENABLE_BIT) >>> AMB_SIZE_OFFSET) &&& AMB_SIZE_MASK =
        (win.winSize / AMB_WIN_ALIGNMENT_64K - 1#64).setWidth 32 &&& AMB_SIZE_MASK := by
    unfold ctrlOf AMB_ATTR_OFFSET AMB_SIZE_MASK AMB_SIZE_OFFSET WIN_ENABLE_BIT
    ext i hi
    have hMask := getLsbD_of_byte (x := 0xFF#32) (i := i) (by decide)
    have hNone := getLsbD_of_byte (i := i + 8) hTarget (by omega)
    grind
  have hEq : win.winSize = BitVec.ofNat 64 (2 ^ k) := by
    rw [← hSize, BitVec.ofNat_toNat, BitVec.setWidth_eq]
  have hEach : ∀ k : Fin 25, ∃ j : Fin 25, (((BitVec.ofNat 64 (2 ^ k.val) / AMB_WIN_ALIGNMENT_64K -
        1#64).setWidth 32 &&& AMB_SIZE_MASK).toNat + 1) *
          2 ^ 16 = 2 ^ j.val ∧ k.val ≤ j.val ∧ 16 ≤ j.val := by
    decide
  unfold windowSize
  rw [hField, hEq]
  rcases hEach ⟨k, by omega⟩ with ⟨j, hj⟩
  exact ⟨j.val, hj⟩

/- A window is programmed right if and only if it is plain. -/
theorem decodes_iff
    (win : AddrMapWin) (hPos : 1 ≤ win.winSize.toNat) (hLe : win.winSize.toNat ≤ 2 ^ 24) :
    Decodes win (addressOf (ambCheckWin win).baseAddr)
        (ctrlOf (ambCheckWin win) ||| WIN_ENABLE_BIT) ↔
      Plain win := by
  constructor
  · intro hDecodes
    have hBase := (base_right_iff _).mp hDecodes.rounded
    refine ⟨hBase.1, hBase.2, ?_⟩
    have hTarget := hDecodes.target
    rw [attrOf_ctrlOf] at hTarget
    rw [← show (ambCheckWin win).targetId &&& AMB_ATTR_MASK =
      win.targetId from hTarget, BitVec.toNat_and]
    exact Nat.lt_of_le_of_lt Nat.and_le_right (by decide)
  · rintro ⟨hDvd, hLt, hTarget⟩
    have hRounded := (base_right_iff _).mpr ⟨hDvd, hLt⟩
    rcases checkSize_power hPos hLe with ⟨k, hk, hSize, hCovers⟩
    rcases windowSize_ctrlOf (ambCheckWin win) hTarget hSize hk with ⟨j, hWindow, hkj, hj⟩
    have hMono {a : Nat} (h : a ≤ j) : 2 ^ a ≤ 2 ^ j := Nat.pow_le_pow_right (by decide) h
    refine ⟨?_, hRounded, ⟨j, hWindow⟩, ?_, ?_, ?_⟩
    · change 2 ^ 20 ∣ (addressOf (checkBase win.baseAddr)).toNat
      rw [hRounded]
      exact dvd_roundUp _ _
    · rw [hWindow]
      exact Nat.le_trans hCovers (hMono hkj)
    · rw [hWindow]
      exact hMono hj
    · rw [attrOf_ctrlOf]
      ext i hi
      have hNone := getLsbD_of_byte (i := i) hTarget
      have hMask : ∀ i : Fin 32, i.val < 8 → (AMB_ATTR_MASK).getLsbD i.val = true := by decide
      have hBit := hMask ⟨i, hi⟩
      change (win.targetId &&& AMB_ATTR_MASK)[i] = win.targetId[i]
      grind

----
-- The Registers
----

section Registers

variable {wins : List AddrMapWin} {win : AddrMapWin} {regs : Regs} {n i : Nat}

theorem enableWins_apart
    (wins : List AddrMapWin) (regs : Regs) (hApart : i < n ∨ n + wins.length ≤ i) :
    (enableWins wins n regs).cr i = regs.cr i ∧ (enableWins wins n regs).base i = regs.base i := by
  induction wins generalizing n regs with
  | nil => exact ⟨rfl, rfl⟩
  | cons win rest ih =>
    rw [List.length_cons] at hApart
    have hNe : i ≠ n := by omega
    have hRest := ih (n := n + 1)
      (ambEnableWin (ambCheckWin win) n regs) (by omega)
    constructor
    · refine hRest.1.trans ?_
      exact (update_of_ne hNe _ _).trans (update_of_ne hNe _ _)
    · exact hRest.2.trans (update_of_ne hNe _ _)

theorem enableWins_at (regs : Regs) (hAt : wins[i]? = some win) :
    (enableWins wins n regs).cr (n + i) = (ctrlOf (ambCheckWin win) ||| WIN_ENABLE_BIT) ∧
      (enableWins wins n regs).base (n + i) = addressOf (ambCheckWin win).baseAddr := by
  induction wins generalizing n i regs with
  | nil => cases hAt
  | cons first rest ih =>
    cases i with
    | zero =>
      cases hAt
      have hFirst := enableWins_apart (i := n) (n := n + 1) rest
        (ambEnableWin (ambCheckWin win) n regs) (Or.inl (Nat.lt_succ_self n))
      exact ⟨hFirst.1.trans (update_self _ _ _), hFirst.2.trans (update_self _ _ _)⟩
    | succ i =>
      rw [show n + (i + 1) = n + 1 + i by omega]
      exact ih _ hAt

theorem disableWins_off (hi : i < n) :
    ¬ Enabled (disableWins n regs) i := by
  induction n with
  | zero => exact absurd hi (Nat.not_lt_zero i)
  | succ n ih =>
    unfold Enabled disableWins Regs.writeCr
    dsimp only
    by_cases hEq : i = n
    · rw [hEq, update_self]
      simp [WIN_ENABLE_BIT]
    · rw [update_of_ne hEq]
      exact ih (by omega)

/-
  The windows of the list are enabled and no others, and each
  is programmed as the list says if and only if all of them
  are plain.
-/
theorem init_amb_adec_implements
    (wins : List AddrMapWin) (regs : Regs) (hCount : wins.length ≤ AMB_MAX_WIN_ID)
    (hPos : ∀ win ∈ wins, 1 ≤ win.winSize.toNat) (hLe : ∀ win ∈ wins, win.winSize.toNat ≤ 2 ^ 24) :
    (∀ i, i < AMB_MAX_WIN_ID → (Enabled (initAmbAdec wins regs) i ↔ i < wins.length)) ∧
    (Implements wins (initAmbAdec wins regs) ↔ ∀ win ∈ wins, Plain win) := by
  have hInit : initAmbAdec wins regs = enableWins wins 0 (disableWins AMB_MAX_WIN_ID regs) :=
    if_neg (Nat.not_lt.mpr hCount)
  have hOn (i : Nat) (hi : i < AMB_MAX_WIN_ID) :
      Enabled (initAmbAdec wins regs) i ↔ i < wins.length := by
    unfold Enabled
    rw [hInit]
    by_cases hIn : i < wins.length
    · refine iff_of_true ?_ hIn
      have hAt := enableWins_at (n := 0)
        (disableWins AMB_MAX_WIN_ID regs)
        (List.getElem?_eq_getElem hIn)
      rw [Nat.zero_add] at hAt
      rw [hAt.1, BitVec.getLsbD_or]
      simp [WIN_ENABLE_BIT]
    · refine iff_of_false ?_ hIn
      rw [(enableWins_apart _ _ (by omega)).1]
      exact disableWins_off hi
  refine ⟨hOn, ?_⟩
  have hDecodes (i : Nat) (win : AddrMapWin) (hAt : wins[i]? = some win) :
      Decodes win ((initAmbAdec wins regs).base i) ((initAmbAdec wins regs).cr i) ↔ Plain win := by
    have hMem := List.mem_of_getElem? hAt
    have hRegs := enableWins_at (n := 0)
      (disableWins AMB_MAX_WIN_ID regs) hAt
    rw [Nat.zero_add] at hRegs
    rw [hInit, hRegs.1, hRegs.2]
    exact decodes_iff win (hPos win hMem) (hLe win hMem)
  constructor
  · intro hImplements win hMem
    rcases List.getElem?_of_mem hMem with ⟨i, hAt⟩
    have hIn : i < wins.length := (List.getElem?_eq_some_iff.mp hAt).1
    rcases hImplements i (by omega) ((hOn i (by omega)).mpr hIn) with ⟨win', hAt', hWin⟩
    cases hAt.symm.trans hAt'
    exact (hDecodes i win hAt).mp hWin
  · intro hPlain i hi hEnabled
    have hIn := (hOn i hi).mp hEnabled
    have hAt := List.getElem?_eq_getElem hIn
    exact ⟨wins[i], hAt, (hDecodes i _ hAt).mpr (hPlain _ (List.getElem_mem hIn))⟩

/- Windows at 0xf9000000 with 16 MB and 0xf8000000 with 64 KB. -/
theorem init_amb_adec_implements_board :
    Implements [⟨0xf900, 0x1000000, 0x1a⟩, ⟨0xf800, 0x10000, 0x2a⟩]
      (initAmbAdec [⟨0xf900, 0x1000000, 0x1a⟩, ⟨0xf800, 0x10000, 0x2a⟩]
        ⟨fun _ => 7, fun _ => 0⟩) :=
  (init_amb_adec_implements _ ⟨fun _ => 7, fun _ => 0⟩ (by decide) (by decide)
    (by decide)).2.mpr (by unfold Plain; decide)

/- 64 KB further, the window is programmed to address zero. -/
theorem init_amb_adec_unaligned :
    ¬ Implements [⟨0xf901, 0x100000, 0x1a⟩]
      (initAmbAdec [⟨0xf901, 0x100000, 0x1a⟩] ⟨fun _ => 0, fun _ => 0⟩) := by
  intro hImplements
  rcases hImplements 0 (by decide) rfl with ⟨win, hAt, hWin⟩
  cases hAt
  exact absurd hWin.rounded (by decide)

end Registers

end Tfa.AmbAdec
