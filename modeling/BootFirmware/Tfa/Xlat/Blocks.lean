import BootFirmware.Tfa.Xlat.Model
import Mathlib.Data.Nat.Bitwise
import Mathlib.Tactic.IntervalCases

/-
  The blocks of each level, and how regions lie over them.

  Levels are counted from the base table: the entries at
  depth `k` belong to level `baseLevel + k` and are numbered
  through the address space, so that entry `n` describes the
  block that starts at `start k n`.

  Key definitions include:
    * `Config.blockSize` and `Config.start`
    * `MmapRegion.Valid`
    * `MmapRegion.Meets`, `Covers`, `Within` and `Apart`
    * `MmapRegion.Splits`

  The main results are:
    * `xlatDesc_ok`, `xlatDesc_type` and `xlatDesc_addr`
    * `mapAction_invalid`, `mapAction_table` and
      `mapAction_leaf`
    * `firstEntry_eq`
    * `valid_of_check`
-/

namespace Tfa.Xlat

----
-- Blocks
----

theorem xlatBlockSize_eq (level : Nat) :
    xlatBlockSize level = 2 ^ xlatAddrShift level := by
  rw [xlatBlockSize, Nat.one_shiftLeft]

theorem and_xlatBlockMask (x level : Nat) :
    x &&& xlatBlockMask level = x % xlatBlockSize level := by
  rw [xlatBlockMask, xlatBlockSize_eq, Nat.and_two_pow_sub_one_eq_mod]

namespace Config

variable (cfg : Config)

/- The size of the blocks `k` levels below the base table. -/
def blockSize (k : Nat) : Nat :=
  xlatBlockSize (cfg.baseLevel + k)

/- Where block `n` of depth `k` starts. -/
def start (k n : Nat) : Nat :=
  n * cfg.blockSize k

theorem blockSize_pos (k : Nat) :
    0 < cfg.blockSize k := by
  rw [blockSize, xlatBlockSize_eq]
  exact Nat.two_pow_pos _

theorem blockSize_dvd {k k' : Nat} (hLe : k ≤ k') :
    cfg.blockSize k' ∣ cfg.blockSize k := by
  rw [blockSize, blockSize, xlatBlockSize_eq, xlatBlockSize_eq]
  apply Nat.pow_dvd_pow
  unfold xlatAddrShift
  omega

theorem page_dvd_blockSize (k : Nat) :
    4096 ∣ cfg.blockSize k := by
  rw [blockSize, xlatBlockSize_eq]
  have hPage : 4096 = 2 ^ 12 := by decide
  rw [hPage]
  apply Nat.pow_dvd_pow
  unfold xlatAddrShift
  omega

theorem page_dvd_start (k n : Nat) :
    4096 ∣ cfg.start k n :=
  Dvd.dvd.mul_left (cfg.page_dvd_blockSize k) n

variable {k : Nat}

theorem blockSize_eq_mul (hLevel : cfg.baseLevel + k < 3) :
    cfg.blockSize k = 512 * cfg.blockSize (k + 1) := by
  rw [blockSize, blockSize, xlatBlockSize_eq, xlatBlockSize_eq]
  have hShift :
      xlatAddrShift (cfg.baseLevel + k) = 9 + xlatAddrShift (cfg.baseLevel + (k + 1)) := by
    unfold xlatAddrShift xlatTableLevelMax
    omega
  rw [hShift, Nat.pow_add]

theorem blockSize_last (hLevel : cfg.baseLevel + k = 3) :
    cfg.blockSize k = 4096 := by
  rw [blockSize, hLevel]
  decide

theorem baseLevel_le : cfg.baseLevel ≤ 2 := by
  unfold baseLevel getXlatTableLevelBase
  split
  · omega
  · split <;> omega

theorem baseTableEntries_spec :
    cfg.baseTableEntries ≤ 512 ∧ cfg.start 0 cfg.baseTableEntries = cfg.virtAddrSpaceSize := by
  unfold start blockSize baseTableEntries baseLevel virtAddrSpaceSize
  have hGe := cfg.virt_ge
  have hLe := cfg.virt_le
  generalize cfg.virtAddrSpaceBits = bits at hGe hLe
  interval_cases bits <;> decide

theorem start_succ (k n : Nat) :
    cfg.start k (n + 1) = cfg.start k n + cfg.blockSize k :=
  Nat.succ_mul _ _

theorem start_child (hLevel : cfg.baseLevel + k < 3) (n : Nat) :
    cfg.start (k + 1) (512 * n) = cfg.start k n := by
  rw [start, start, cfg.blockSize_eq_mul hLevel, Nat.mul_comm 512 n, Nat.mul_assoc]

theorem start_le_start (k : Nat) {n n' : Nat} (hLe : n ≤ n') :
    cfg.start k n ≤ cfg.start k n' :=
  Nat.mul_le_mul_right _ hLe

theorem lt_of_start_lt {k n n' : Nat} (hLt : cfg.start k n < cfg.start k n') :
    n < n' :=
  Nat.lt_of_mul_lt_mul_right hLt

/- A smaller block does not reach over the start of another. -/
theorem start_add_le_of_lt
    {k k' n n' : Nat} (hLe : k ≤ k') (hLt : cfg.start k' n' < cfg.start k n) :
    cfg.start k' n' + cfg.blockSize k' ≤ cfg.start k n := by
  rcases cfg.blockSize_dvd hLe with ⟨c, hc⟩
  have hEq : cfg.start k n = cfg.start k' (n * c) := by
    rw [start, start, hc, Nat.mul_comm (cfg.blockSize k') c, Nat.mul_assoc]
  rw [hEq] at hLt ⊢
  have hNum : n' + 1 ≤ n * c := cfg.lt_of_start_lt hLt
  calc
    cfg.start k' n' + cfg.blockSize k' = cfg.start k' (n' + 1) := (cfg.start_succ k' n').symm
    _ ≤ cfg.start k' (n * c) := cfg.start_le_start k' hNum

/- Blocks of one depth do not overlap. -/
theorem eq_of_start_mem {k n n' : Nat} (hGe : cfg.start k n ≤ cfg.start k n')
    (hLt : cfg.start k n' < cfg.start k n + cfg.blockSize k) :
    n' = n := by
  rw [← cfg.start_succ] at hLt
  have hAbove := cfg.lt_of_start_lt hLt
  by_contra hNe
  have hBelow : n' + 1 ≤ n := by omega
  have hStart := cfg.start_le_start k hBelow
  rw [cfg.start_succ] at hStart
  have hPos := cfg.blockSize_pos k
  omega

/- The block of depth `k` that holds an address. -/
theorem start_div_le (k va : Nat) :
    cfg.start k (va / cfg.blockSize k) ≤ va ∧
      va < cfg.start k (va / cfg.blockSize k) + cfg.blockSize k := by
  have hMod := Nat.div_add_mod va (cfg.blockSize k)
  have hLt := Nat.mod_lt va (cfg.blockSize_pos k)
  rw [Nat.mul_comm] at hMod
  unfold start
  omega

theorem div_blockSize_succ (hLevel : cfg.baseLevel + k < 3) (va : Nat) :
    va / cfg.blockSize (k + 1) / 512 = va / cfg.blockSize k := by
  rw [Nat.div_div_eq_div_mul, cfg.blockSize_eq_mul hLevel, Nat.mul_comm 512]

/- The entries of a table are the blocks inside its own. -/
theorem div_eq_iff_start_mem (hLevel : cfg.baseLevel + k < 3) {n n' : Nat} :
    n' / 512 = n ↔ cfg.start k n ≤ cfg.start (k + 1) n' ∧
        cfg.start (k + 1) n' < cfg.start k n + cfg.blockSize k := by
  have hPos := cfg.blockSize_pos (k + 1)
  rw [← cfg.start_succ, ← cfg.start_child hLevel, ← cfg.start_child hLevel]
  unfold start
  rw [Nat.mul_le_mul_right_iff hPos, Nat.mul_lt_mul_right hPos]
  omega

/- The blocks inside a block are the entries below its own. -/
theorem strictlyUnder_iff {k n k' n' : Nat} (hLt : k < k') (hLevel : cfg.baseLevel + k' ≤ 3) :
    RadixTable.StrictlyUnder xlatTableEntries k n k' n' ↔
      cfg.start k n ≤ cfg.start k' n' ∧ cfg.start k' n' < cfg.start k n + cfg.blockSize k := by
  induction k' generalizing n' with
  | zero => omega
  | succ k' ih =>
    rw [RadixTable.strictlyUnder_succ_iff]
    have hParent :=
      (cfg.div_eq_iff_start_mem (by omega : cfg.baseLevel + k' < 3)).mp (rfl : n' / 512 = n' / 512)
    by_cases hHere : k' = k
    · subst hHere
      rw [← cfg.div_eq_iff_start_mem (by omega)]
      constructor
      · intro hUnder
        rcases hUnder with hBelow | ⟨_, hDiv⟩
        · exact absurd hBelow.1 (Nat.lt_irrefl _)
        · exact hDiv
      · intro hDiv
        exact Or.inr ⟨rfl, hDiv⟩
    · have hBelow : k < k' := by omega
      have hIff :
          RadixTable.StrictlyUnder xlatTableEntries k n k' (n' / 512) ↔
            cfg.start k n ≤ cfg.start k' (n' / 512) ∧
              cfg.start k' (n' / 512) < cfg.start k n + cfg.blockSize k :=
        ih hBelow (by omega)
      constructor
      · intro hUnder
        rcases hUnder with hUnder | ⟨hEq, _⟩
        · have hIn := hIff.mp hUnder
          have hNext := cfg.start_succ k n
          have hStop : cfg.start k' (n' / 512) + cfg.blockSize k' ≤ cfg.start k (n + 1) :=
            cfg.start_add_le_of_lt (by omega) (by omega)
          omega
        · exact absurd hEq hHere
      · intro hIn
        left
        apply hIff.mpr
        by_cases hBefore : cfg.start k' (n' / 512) < cfg.start k n
        · have hStop := cfg.start_add_le_of_lt (Nat.le_of_lt hBelow) hBefore
          omega
        · omega

/- A block that starts with a larger one is its first entry. -/
theorem mod_eq_zero_of_start_eq {k n k' n' : Nat}
    (hLt : k < k') (hLevel : cfg.baseLevel + k' ≤ 3) (hStart : cfg.start k' n' = cfg.start k n) :
    n' % 512 = 0 := by
  obtain ⟨p, rfl⟩ : ∃ p, k' = p + 1 := ⟨k' - 1, by omega⟩
  rcases cfg.blockSize_dvd (by omega : k ≤ p) with ⟨c, hc⟩
  have hPos := cfg.blockSize_pos (p + 1)
  have hMul : n' * cfg.blockSize (p + 1) = 512 * (n * c) * cfg.blockSize (p + 1) := by
    calc
      n' * cfg.blockSize (p + 1) = n * cfg.blockSize k := hStart
      _ = n * (512 * cfg.blockSize (p + 1) * c) := by
        rw [hc, cfg.blockSize_eq_mul (by omega)]
      _ = 512 * (n * c) * cfg.blockSize (p + 1) := by
        rw [Nat.mul_right_comm 512, ← Nat.mul_assoc n, Nat.mul_left_comm n 512]
  have hEq := Nat.eq_of_mul_eq_mul_right hPos hMul
  omega

end Config

----
-- Regions
----

namespace MmapRegion

/- What `mmap_add_region_check` makes sure of. -/
structure Valid (cfg : Config) (q : MmapRegion) : Prop where
  size_pos : 0 < q.size
  pa_dvd : 4096 ∣ q.basePa
  va_dvd : 4096 ∣ q.baseVa
  size_dvd : 4096 ∣ q.size
  va_le : q.baseVa + q.size ≤ cfg.virtAddrSpaceSize
  pa_le : q.basePa + q.size ≤ 2 ^ cfg.phyAddrSpaceBits

/- The region has an address in the block. -/
def Meets (cfg : Config) (q : MmapRegion)
    (k n : Nat) : Prop :=
  q.baseVa < cfg.start k n + cfg.blockSize k ∧ cfg.start k n < q.baseVa + q.size

/- The block lies inside the region. -/
def Covers (cfg : Config) (q : MmapRegion)
    (k n : Nat) : Prop :=
  q.baseVa ≤ cfg.start k n ∧ cfg.start k n + cfg.blockSize k ≤ q.baseVa + q.size

/- One region lies inside another. -/
def Within (q q' : MmapRegion) : Prop :=
  q'.baseVa ≤ q.baseVa ∧ q.baseVa + q.size ≤ q'.baseVa + q'.size

/- Two regions share no address. -/
def Apart (q q' : MmapRegion) : Prop :=
  q.baseVa + q.size ≤ q'.baseVa ∨ q'.baseVa + q'.size ≤ q.baseVa

def Contains (q : MmapRegion) (va : Nat) : Prop :=
  q.baseVa ≤ va ∧ va < q.baseVa + q.size

/-
  A block that the region covers gets a descriptor of its
  own rather than a table.
-/
def BlockOk (cfg : Config) (q : MmapRegion)
    (k n : Nat) : Prop :=
  cfg.baseLevel + k = 3 ∨ (1 ≤ cfg.baseLevel + k ∧ q.paOf (cfg.start k n) % cfg.blockSize k = 0 ∧
      cfg.blockSize k ≤ q.granularity)

/- The region needs a table for the block. -/
def Splits (cfg : Config) (q : MmapRegion)
    (k n : Nat) : Prop :=
  ¬ q.Covers cfg k n ∨ ¬ q.BlockOk cfg k n

instance
    (cfg : Config) (q : MmapRegion) (k n : Nat) :
    Decidable (q.Meets cfg k n) :=
  inferInstanceAs (Decidable (_ ∧ _))

instance
    (cfg : Config) (q : MmapRegion) (k n : Nat) :
    Decidable (q.Covers cfg k n) :=
  inferInstanceAs (Decidable (_ ∧ _))

instance
    (cfg : Config) (q : MmapRegion) (k n : Nat) :
    Decidable (q.BlockOk cfg k n) :=
  inferInstanceAs (Decidable (_ ∨ _))

instance
    (cfg : Config) (q : MmapRegion) (k n : Nat) :
    Decidable (q.Splits cfg k n) :=
  inferInstanceAs (Decidable (_ ∨ _))

variable {cfg : Config} {q q' : MmapRegion} {k n : Nat}

theorem Covers.of_within (hCovers : q.Covers cfg k n) (hWithin : q.Within q') :
    q'.Covers cfg k n := by
  rcases hCovers with ⟨hLo, hHi⟩
  rcases hWithin with ⟨hLo', hHi'⟩
  constructor <;> omega

theorem Covers.not_apart (hCovers : q.Covers cfg k n) (hMeets : q'.Meets cfg k n) :
    ¬ q.Apart q' := by
  rcases hCovers with ⟨hLo, hHi⟩
  rcases hMeets with ⟨hLo', hHi'⟩
  rintro (hApart | hApart) <;> omega

theorem Apart.symm (hApart : q.Apart q') :
    q'.Apart q :=
  Or.symm hApart

/- Below the last level there are no partial overlaps. -/
theorem Valid.covers_of_meets
    (hValid : q.Valid cfg) (hLevel : cfg.baseLevel + k = 3) (hMeets : q.Meets cfg k n) :
    q.Covers cfg k n := by
  have hStart := cfg.page_dvd_start k n
  have hSize := cfg.blockSize_last hLevel
  rcases hMeets with ⟨hLo, hHi⟩
  have hVa := hValid.va_dvd
  have hLen := hValid.size_dvd
  rw [hSize] at hLo
  constructor
  · omega
  · rw [hSize]
    omega

theorem Valid.level_lt_of_splits (hValid : q.Valid cfg) (hMeets : q.Meets cfg k n)
    (hSplits : q.Splits cfg k n) (hLevel : cfg.baseLevel + k ≤ 3) :
    cfg.baseLevel + k < 3 := by
  by_contra hNot
  have hLast : cfg.baseLevel + k = 3 := by omega
  rcases hSplits with hCovers | hBlock
  · exact hCovers (hValid.covers_of_meets hLast hMeets)
  · exact hBlock (Or.inl hLast)

/- A region inside a block's range that meets a smaller block. -/
theorem Meets.mono
    {k' n' : Nat} (hMeets : q.Meets cfg k' n') (hGe : cfg.start k n ≤ cfg.start k' n')
    (hLe : cfg.start k' n' + cfg.blockSize k' ≤ cfg.start k n + cfg.blockSize k) :
    q.Meets cfg k n := by
  rcases hMeets with ⟨hLo, hHi⟩
  constructor <;> omega

section

variable (hValid : q.Valid cfg)
include hValid

theorem Valid.hi_lt : q.baseVa + q.size < 2 ^ 64 := by
  have hLe := hValid.va_le
  have hPow : cfg.virtAddrSpaceSize ≤ 2 ^ 48 := Nat.pow_le_pow_right (by decide) cfg.virt_le
  omega

theorem Valid.pa_hi_lt : q.basePa + q.size ≤ 2 ^ 48 :=
  hValid.pa_le.trans (Nat.pow_le_pow_right (by decide) cfg.phy_le)

theorem Valid.endVa_eq : q.endVa = q.baseVa + q.size - 1 := by
  have hLt := hValid.hi_lt
  have hPos := hValid.size_pos
  unfold endVa
  omega

theorem Valid.endPa_eq : q.endPa = q.basePa + q.size - 1 := by
  have hLt := hValid.pa_hi_lt
  have hPos := hValid.size_pos
  unfold endPa
  omega

/- The physical address of an address of the region. -/
theorem Valid.paOf_eq {va : Nat} (hContains : q.Contains va) :
    q.paOf va = q.basePa + (va - q.baseVa) := by
  have hPa := hValid.pa_hi_lt
  rcases hContains with ⟨hLo, hHi⟩
  unfold paOf
  omega

end

end MmapRegion

variable {mm : MmapRegion}

/- The check accepts only well-formed regions. -/
theorem valid_of_check {cfg : Config} {mmap : List MmapRegion}
    (hSize : mm.size ≠ 0) (hCheck : mmapAddRegionCheck cfg mmap mm = 0) :
    mm.Valid cfg := by
  unfold mmapAddRegionCheck at hCheck
  have hPage : ∀ addr, isPageAligned addr ↔ addr % 4096 = 0 := by
    intro addr
    have hMask : pageSize - 1 = 2 ^ 12 - 1 := by decide
    rw [isPageAligned, hMask, Nat.and_two_pow_sub_one_eq_mod]
  split at hCheck
  · cases hCheck
  rename_i hAligned
  split at hCheck
  · cases hCheck
  split at hCheck
  · cases hCheck
  rename_i hWrap
  split at hCheck
  · cases hCheck
  rename_i hVa
  split at hCheck
  · cases hCheck
  rename_i hPa
  simp only [hPage, not_or, not_not] at hAligned
  simp only [not_or, Nat.not_lt, gt_iff_lt] at hWrap hVa hPa
  rcases hAligned with ⟨hPaDvd, hVaDvd, hSizeDvd⟩
  rcases hWrap with ⟨hPaWrap, hVaWrap⟩
  unfold Config.vaMaxAddress at hVa
  unfold Config.paMaxAddress at hPa
  unfold MmapRegion.endVa at hVa hVaWrap
  unfold MmapRegion.endPa at hPa hPaWrap
  have hLt₃ := mm.size_lt
  exact {
    size_pos := Nat.pos_of_ne_zero hSize
    pa_dvd := Nat.dvd_of_mod_eq_zero hPaDvd
    va_dvd := Nat.dvd_of_mod_eq_zero hVaDvd
    size_dvd := Nat.dvd_of_mod_eq_zero hSizeDvd
    va_le := by omega
    pa_le := by omega }

----
-- Descriptors
----

/- The memory type of a region is one of the three. -/
def MmapRegion.AttrOk (mm : MmapRegion) : Prop :=
  mm.attr &&& mtTypeMask = mtDevice ∨
    mm.attr &&& mtTypeMask = mtNonCacheable ∨ mm.attr &&& mtTypeMask = mtMemory

/- Bits outside the type and the address of a descriptor. -/
def AttrBits (b : Nat) : Prop :=
  b &&& descMask = 0 ∧ b &&& tableAddrMask = 0

instance (b : Nat) : Decidable (AttrBits b) :=
  inferInstanceAs (Decidable (_ ∧ _))

/- The word has this type and this address. -/
def Carries (pa type word : Nat) : Prop :=
  word &&& descMask = type ∧ word &&& tableAddrMask = pa

theorem Carries.or {pa type word b : Nat} (hWord : Carries pa type word) (hBits : AttrBits b) :
    Carries pa type (word ||| b) := by
  rcases hWord with ⟨hType, hAddr⟩
  rcases hBits with ⟨hZero, hZero'⟩
  constructor
  · rw [Nat.and_or_distrib_right, hType, hZero, Nat.or_zero]
  · rw [Nat.and_or_distrib_right, hAddr, hZero', Nat.or_zero]

theorem Carries.or_ite {pa type word a b : Nat} {c : Prop} [Decidable c]
    (hWord : Carries pa type word) (hThen : AttrBits a) (hElse : AttrBits b) :
    Carries pa type (word ||| if c then a else b) := by
  split
  · exact hWord.or hThen
  · exact hWord.or hElse

theorem page_and_tableAddrMask {pa : Nat} (hPage : 4096 ∣ pa) (hLt : pa < 2 ^ 48) :
    pa &&& tableAddrMask = pa := by
  have hMask : tableAddrMask = (2 ^ 36 - 1) * 2 ^ 12 := by decide
  rcases hPage with ⟨page, rfl⟩
  have hPages : page < 2 ^ 36 := by omega
  have hShift : 4096 * page = page * 2 ^ 12 := by omega
  rw [hShift, hMask, ← Nat.shiftLeft_eq, ← Nat.shiftLeft_eq, ← Nat.shiftLeft_and_distrib,
    Nat.and_two_pow_sub_one_eq_mod, Nat.mod_eq_of_lt hPages]

theorem page_and_descMask {pa : Nat} (hPage : 4096 ∣ pa) :
    pa &&& descMask = 0 := by
  have hMask : descMask = 2 ^ 2 - 1 := by decide
  rw [hMask, Nat.and_two_pow_sub_one_eq_mod]
  omega

theorem carries_type
    {pa type : Nat} (hPage : 4096 ∣ pa) (hLt : pa < 2 ^ 48) (hType : type &&& descMask = type)
    (hZero : type &&& tableAddrMask = 0) :
    Carries pa type (pa ||| type) := by
  constructor
  · rw [Nat.and_or_distrib_right, page_and_descMask hPage, hType, Nat.zero_or]
  · rw [Nat.and_or_distrib_right, page_and_tableAddrMask hPage hLt, hZero, Nat.or_zero]

/- The type of the descriptors of a level. -/
def leafType (level : Nat) : Nat :=
  if level = xlatTableLevelMax then pageDesc else blockDesc

theorem leafType_last {level : Nat} (hLast : level = 3) :
    leafType level = pageDesc :=
  if_pos hLast

theorem leafType_of_ne {level : Nat} (hNe : level ≠ 3) :
    leafType level = blockDesc :=
  if_neg hNe

theorem attrBits_xn (regime : XlatRegime) :
    AttrBits (xlatArchRegimeGetXnDesc regime) := by
  cases regime <;> decide

variable {regime : XlatRegime}

/-
  The bits that the attributes add leave the type and the
  address of the descriptor alone.
-/
theorem xlatDesc_carries {attr pa level word : Nat}
    (hPage : 4096 ∣ pa) (hLt : pa < 2 ^ 48) (hWord : xlatDesc regime attr pa level = .ok word) :
    Carries pa (leafType level) word := by
  have hType : Carries pa (leafType level) (pa ||| leafType level) := by
    unfold leafType
    split
    · exact carries_type hPage hLt (by decide) (by decide)
    · exact carries_type hPage hLt (by decide) (by decide)
  have hCommon :=
    (((hType.or (b := lowerAttrs accessFlag)
      (by decide)).or_ite (c := attr &&& mtNs ≠ 0)
      (a := lowerAttrs ns) (b := 0) (by decide)
      (by decide)).or_ite (c := attr &&& mtRw ≠ 0)
      (a := lowerAttrs apRw) (b := lowerAttrs apRo)
      (by decide) (by decide)).or_ite
      (c := regime = .el1El0 ∧ attr &&& mtUser ≠ 0)
      (a := lowerAttrs apAccessUnprivileged)
      (b := lowerAttrs apNoAccessUnprivileged)
      (by decide) (by decide)
  have hXn := attrBits_xn regime
  unfold xlatDesc at hWord
  split at hWord
  · cases hWord
  dsimp only at hWord
  split at hWord
  · cases hWord
    exact (hCommon.or (by decide)).or hXn
  split at hWord
  · cases hWord
    exact (hCommon.or_ite hXn (by decide)).or (by decide)
  split at hWord
  · cases hWord
    exact (hCommon.or_ite hXn (by decide)).or (by decide)
  · cases hWord

/- With a known memory type and an aligned address it answers. -/
theorem xlatDesc_ok (regime : XlatRegime) {attr pa level : Nat}
    (hAttr : attr &&& mtTypeMask = mtDevice ∨
      attr &&& mtTypeMask = mtNonCacheable ∨ attr &&& mtTypeMask = mtMemory)
    (hAligned : pa % xlatBlockSize level = 0) :
    ∃ word, xlatDesc regime attr pa level = .ok word := by
  unfold xlatDesc
  rw [and_xlatBlockMask, if_neg (not_not.mpr hAligned)]
  dsimp only
  split
  · exact ⟨_, rfl⟩
  split
  · exact ⟨_, rfl⟩
  split
  · exact ⟨_, rfl⟩
  · rcases hAttr with hType | hType | hType <;>
      contradiction

theorem xlatDesc_error
    {attr pa level : Nat} {fault : Fault} (hFail : xlatDesc regime attr pa level = .error fault) :
    fault = .assertion := by
  unfold xlatDesc at hFail
  split at hFail
  · cases hFail
    rfl
  dsimp only at hFail
  split at hFail
  · cases hFail
  split at hFail
  · cases hFail
  split at hFail
  · cases hFail
  · cases hFail
    rfl

----
-- Actions
----

section Actions

variable {cfg : Config} {mm : MmapRegion} {k n : Nat}

/- The comparisons of the code, over the block. -/
theorem covers_iff (hValid : mm.Valid cfg) :
    (mm.baseVa ≤ cfg.start k n ∧ mm.endVa ≥ cfg.start k n + xlatBlockSize (cfg.baseLevel + k) - 1) ↔
      mm.Covers cfg k n := by
  have hPos := hValid.size_pos
  have hBlock := cfg.blockSize_pos k
  rw [hValid.endVa_eq]
  unfold MmapRegion.Covers
  unfold Config.blockSize at hBlock ⊢
  omega

theorem partly_of_meets (hMeets : mm.Meets cfg k n) :
    mm.baseVa ≤ cfg.start k n + xlatBlockSize (cfg.baseLevel + k) - 1 ∨
      mm.endVa ≥ cfg.start k n := by
  left
  have hLo := hMeets.1
  unfold Config.blockSize at hLo
  omega

/- Where nothing is mapped yet. -/
theorem mapAction_invalid
    (hValid : mm.Valid cfg) (hLevel : cfg.baseLevel + k ≤ 3) (hMeets : mm.Meets cfg k n) :
    xlatTablesMapRegionAction mm invalidDesc (mm.paOf (cfg.start k n)) (cfg.start k n)
        (cfg.baseLevel + k) =
      .ok (if mm.Splits cfg k n then .createNewTable
        else .writeBlockEntry) := by
  unfold xlatTablesMapRegionAction
  by_cases hCovers : mm.Covers cfg k n
  · rw [if_pos ((covers_iff hValid).mpr hCovers)]
    by_cases hLast : cfg.baseLevel + k = 3
    · have hWhole : ¬ mm.Splits cfg k n := by
        rintro (hNot | hNot)
        · exact hNot hCovers
        · exact hNot (Or.inl hLast)
      rw [if_neg hWhole]
      simp [hLast, invalidDesc, pageDesc]
    · have hSplits :
          mm.Splits cfg k n ↔ (mm.paOf (cfg.start k n) &&& xlatBlockMask (cfg.baseLevel + k) ≠ 0 ∨
              cfg.baseLevel + k < minLvlBlockDesc ∨
              mm.granularity < xlatBlockSize (cfg.baseLevel + k)) := by
        rw [and_xlatBlockMask]
        unfold MmapRegion.Splits MmapRegion.BlockOk Config.blockSize minLvlBlockDesc
        constructor
        · rintro (hNot | hNot)
          · exact absurd hCovers hNot
          · omega
        · intro hAny
          right
          omega
      by_cases hSplit : mm.Splits cfg k n
      · rw [if_pos hSplit, if_neg hLast, if_neg (by decide), if_pos rfl, if_pos (hSplits.mp hSplit)]
      · rw [if_neg hSplit, if_neg hLast, if_neg (by decide), if_pos rfl,
          if_neg (fun h => hSplit (hSplits.mpr h))]
  · have hSplits : mm.Splits cfg k n := Or.inl hCovers
    have hLt := hValid.level_lt_of_splits hMeets hSplits hLevel
    rw [if_neg (fun h => hCovers ((covers_iff hValid).mp h)),
      if_pos (partly_of_meets hMeets), if_pos hSplits,
      if_neg (not_not.mpr hLt), if_pos rfl]

theorem mapAction_table (hLevel : cfg.baseLevel + k < 3) (hMeets : mm.Meets cfg k n) :
    xlatTablesMapRegionAction mm tableDesc (mm.paOf (cfg.start k n)) (cfg.start k n)
        (cfg.baseLevel + k) =
      .ok .recurseIntoTable := by
  unfold xlatTablesMapRegionAction
  by_cases hCovers :
      mm.baseVa ≤ cfg.start k n ∧ mm.endVa ≥ cfg.start k n + xlatBlockSize (cfg.baseLevel + k) - 1
  · rw [if_pos hCovers, if_neg (by omega), if_pos rfl]
  · rw [if_neg hCovers, if_pos (partly_of_meets hMeets),
      if_neg (not_not.mpr hLevel), if_neg (by decide),
      if_pos rfl]

/- Another region's block is not overwritten. -/
theorem mapAction_leaf (hValid : mm.Valid cfg) (hCovers : mm.Covers cfg k n) :
    xlatTablesMapRegionAction mm (leafType (cfg.baseLevel + k))
        (mm.paOf (cfg.start k n)) (cfg.start k n)
        (cfg.baseLevel + k) =
      .ok .none := by
  unfold xlatTablesMapRegionAction
  rw [if_pos ((covers_iff hValid).mpr hCovers)]
  by_cases hLast : cfg.baseLevel + k = 3
  · rw [leafType_last hLast, if_pos hLast, if_pos rfl]
  · rw [leafType_of_ne hLast, if_neg hLast, if_neg (by decide), if_neg (by decide), if_pos rfl]

end Actions

----
-- First Entries
----

/-
  The first entry that a loop visits.  It meets the region,
  and the region starts behind the entries before it.
-/
theorem firstEntry_eq
    {cfg : Config} {k c entries : Nat} (hLo : mm.baseVa < cfg.start k (c + entries))
    (hHi : cfg.start k c < mm.baseVa + mm.size) (hPos : 0 < mm.size) (hEntries : 0 < entries) :
    ∃ i, firstEntry mm (cfg.start k c) entries (cfg.baseLevel + k) = .ok (i, cfg.start k (c + i)) ∧
      i < entries ∧ mm.Meets cfg k (c + i) ∧ (0 < i → cfg.start k (c + i) ≤ mm.baseVa) := by
  have hBlock := cfg.blockSize_pos k
  unfold firstEntry
  by_cases hInside : mm.baseVa > cfg.start k c
  · have hDiv := cfg.start_div_le k mm.baseVa
    have hFirst : c ≤ mm.baseVa / cfg.blockSize k := by
      rw [Nat.le_div_iff_mul_le hBlock]
      exact Nat.le_of_lt hInside
    have hLast : mm.baseVa / cfg.blockSize k < c + entries :=
      Nat.div_lt_of_lt_mul (by
        rw [Nat.mul_comm]
        exact hLo)
    have hSum : c + (mm.baseVa / cfg.blockSize k - c) = mm.baseVa / cfg.blockSize k := by omega
    have hVa :
        mm.baseVa - (mm.baseVa &&& xlatBlockMask (cfg.baseLevel + k)) =
          cfg.start k (mm.baseVa / cfg.blockSize k) := by
      rw [and_xlatBlockMask]
      have hMod := Nat.div_add_mod mm.baseVa (cfg.blockSize k)
      rw [Nat.mul_comm] at hMod
      unfold Config.start
      unfold Config.blockSize at hMod ⊢
      omega
    have hIdx :
        (cfg.start k (mm.baseVa / cfg.blockSize k) - cfg.start k c) >>>
          xlatAddrShift (cfg.baseLevel + k) = mm.baseVa / cfg.blockSize k - c := by
      rw [Nat.shiftRight_eq_div_pow, ← xlatBlockSize_eq]
      unfold Config.start
      rw [← Nat.sub_mul]
      exact Nat.mul_div_cancel _ hBlock
    refine ⟨mm.baseVa / cfg.blockSize k - c, ?_, ?_, ?_, ?_⟩
    · rw [if_pos hInside]
      dsimp only
      rw [hVa, hIdx, if_pos (by omega), hSum]
    · omega
    · rw [hSum]
      constructor <;> omega
    · intro _
      rw [hSum]
      exact hDiv.1
  · refine ⟨0, ?_, hEntries, ?_, ?_⟩
    · rw [if_neg hInside, Nat.add_zero]
    · rw [Nat.add_zero]
      constructor <;> omega
    · intro hAbsurd
      omega

end Tfa.Xlat
