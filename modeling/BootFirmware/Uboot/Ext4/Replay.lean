import BootFirmware.Lib.RedoLog
import BootFirmware.Uboot.Ext4.Journal

/-
  What the recovery makes of a journal of complete
  transactions.

  The recovery reads the journal from its first block on,
  wherever the log starts, and replays what it finds there copy
  by copy.  The copies are written as they are in the journal,
  so that one whose magic number is escaped is not restored.

  Key definitions include:
    * `Transaction`, `Layout` and `Log`
    * `Taken` and `Reading`
    * `Handled`
    * `Replays` and `SayTheSame`

  The main results are:
    * `checkBlknrForRevoke_eq`
    * `replayTags_spec`
    * `reaches_taken`
    * `journal_replay`
-/

----
-- Journals
----

namespace Uboot.Ext4

open List Option

def magic : Nat := 0xc03b3998

/- A block of the journal with a header. -/
def IsBlock (buf : Block) (type sequence : Nat) : Prop :=
  be32 buf 0 = magic ∧ be32 buf 4 = type ∧ be32 buf 8 = sequence

theorem be32_lt (buf : Block) (ofs : Nat) : be32 buf ofs < 2 ^ 32 := by
  have h0 := (buf.getD ofs 0).toNat_lt
  have h1 := (buf.getD (ofs + 1) 0).toNat_lt
  have h2 := (buf.getD (ofs + 2) 0).toNat_lt
  have h3 := (buf.getD (ofs + 3) 0).toNat_lt
  unfold be32
  omega

/- A copy in the journal, with the flags of its tag. -/
structure Copy where
  flags : Nat
  raw : Block
deriving DecidableEq

/- What was logged: an escaped copy lost its magic number. -/
def Copy.restored (copy : Copy) : Block :=
  if copy.flags.testBit 0 then setBe32 copy.raw 0 magic
  else copy.raw

structure Transaction where
  copies : List (Nat × Copy)
  revokes : List Block

/- The numbers in a revoke block. -/
def records (buf : Block) : List Nat :=
  (List.range ((be32 buf 12 - 16) / 4)).map fun k => be32 buf (16 + 4 * k)

def Transaction.revoked (t : Transaction) : List Nat :=
  t.revokes.flatMap records

def Transaction.redo (t : Transaction) : RedoLog.Transaction Nat Copy :=
  ⟨t.copies, t.revoked⟩

structure RevokeOk (blksz : Nat) (buf : Block) : Prop where
  low : 16 ≤ be32 buf 12
  high : be32 buf 12 ≤ blksz
  whole : be32 buf 12 % 4 = 0

/- The revoke blocks from one block up to another. -/
inductive Revokes
    (blksz : Nat) (ring : Nat → Block)
    (sequence : Nat) : Nat → List Block → Nat → Prop
  | nil (k : Nat) : Revokes blksz ring sequence k [] k
  | cons {k j : Nat} {rest : List Block} : IsBlock (ring k) 5 sequence → RevokeOk blksz (ring k) →
      Revokes blksz ring sequence (k + 1) rest j → Revokes blksz ring sequence k (ring k :: rest) j

/- The copies that follow a descriptor block. -/
def copiesAt (ring : Nat → Block) :
    Nat → List Tag → List (Nat × Copy)
  | _, [] => []
  | k, tag :: rest => (tag.block, ⟨tag.flags, ring k⟩) :: copiesAt ring (k + 1) rest

/- A complete transaction, between blocks `k` and `j`. -/
structure Laid
    (blksz : Nat) (ring : Nat → Block) (sequence k : Nat) (t : Transaction) (desc j : Nat)
    (before after : List Block) : Prop where
  revokes : t.revokes = before ++ after
  before : Revokes blksz ring sequence k before desc
  descriptor : IsBlock (ring desc) 1 sequence
  copies : t.copies = copiesAt ring (desc + 1) (tags blksz (ring desc))
  after : Revokes blksz ring sequence (desc + 1 + (tags blksz (ring desc)).length) after j
  commit : IsBlock (ring j) 2 sequence

/- Complete transactions with consecutive numbers. -/
inductive Layout
    (blksz : Nat) (ring : Nat → Block) :
    Nat → Nat → List Transaction → Nat → Prop
  | nil (sequence k : Nat) : Layout blksz ring sequence k [] k
  | cons {sequence k desc j e : Nat} {t : Transaction} {ts : List Transaction}
      {before after : List Block} :
      Laid blksz ring sequence k t desc j before after →
      Layout blksz ring ((sequence + 1) % 2 ^ 32) (j + 1) ts e →
        Layout blksz ring sequence k (t :: ts) e

/-
  Whether the loop can stop at a block.  It does not where the
  block has the number expected and is no commit or revoke
  block, and no descriptor block that could begin another
  transaction.
-/
def Ends (buf : Block) (sequence : Nat) (running : Bool) : Bool → Prop
  | true => be32 buf 8 ≠ sequence
  | false =>
    be32 buf 8 = sequence ∧ be32 buf 4 ≠ 2 ∧ be32 buf 4 ≠ 5 ∧ (be32 buf 4 = 1 → running = true)

/-
  What the loop takes for transactions, from block `k` up to
  block `e`.  The last one has no commit block, and copies
  without a commit block are not replayed; a commit block
  alone counts as a transaction.
-/
inductive Taken
    (blksz : Nat) (ring : Nat → Block) (ok : Bool) :
    Nat → Nat → List Transaction → Nat → Prop
  | stop {sequence k e : Nat} {before : List Block} : Revokes blksz ring sequence k before e →
      Ends (ring e) sequence false ok → Taken blksz ring ok sequence k [⟨[], before⟩] e
  | cut {sequence k desc e : Nat} {before after : List Block} :
      Revokes blksz ring sequence k before desc → IsBlock (ring desc) 1 sequence →
      Revokes blksz ring sequence (desc + 1 + (tags blksz (ring desc)).length) after e →
      Ends (ring e) sequence true ok → Taken blksz ring ok sequence k [⟨[], before ++ after⟩] e
  | commit {sequence k j e : Nat} {before : List Block} {ts : List Transaction} :
      Revokes blksz ring sequence k before j → IsBlock (ring j) 2 sequence →
      Taken blksz ring ok ((sequence + 1) % 2 ^ 32) (j + 1) ts e →
        Taken blksz ring ok sequence k (⟨[], before⟩ :: ts) e
  | cons {sequence k desc j e : Nat} {t : Transaction} {ts : List Transaction}
      {before after : List Block} :
      Laid blksz ring sequence k t desc j before after →
      Taken blksz ring ok ((sequence + 1) % 2 ^ 32) (j + 1) ts e →
        Taken blksz ring ok sequence k (t :: ts) e

----
-- Revoked Blocks
----

section Revoked

variable {blksz : Nat} {buf : Block} {ring : Nat → Block}

theorem revokeLoop_eq (hOk : RevokeOk blksz buf) (hBlksz : blksz < 2 ^ 31)
    (blknr n k fuel : Nat) (hEnd : 16 + 4 * (k + n) = be32 buf 12) (hFuel : n < fuel) :
    revokeLoop blksz buf blknr fuel (16 + 4 * k) =
      some (decide (blknr ∈ (List.range' k n).map fun j => be32 buf (16 + 4 * j))) := by
  have hHigh := hOk.high
  have hMax : toInt (be32 buf 12) = be32 buf 12 := toInt_of_lt (by omega)
  induction n generalizing k fuel with
  | zero =>
    cases fuel with
    | zero => omega
    | succ fuel =>
      unfold revokeLoop
      rw [hMax, if_neg (by omega)]
      rfl
  | succ n ih =>
    cases fuel with
    | zero => omega
    | succ fuel =>
      unfold revokeLoop
      rw [hMax, if_pos (by omega), if_neg (by omega), List.range'_succ, map_cons]
      by_cases hFound : be32 buf (16 + 4 * k) = blknr
      · rw [if_pos hFound]
        congr 1
        exact (decide_eq_true (hFound ▸ mem_cons_self)).symm
      · rw [if_neg hFound,
          show 16 + 4 * k + 4 = 16 + 4 * (k + 1) by omega, ih (k + 1) fuel (by omega) (by omega)]
        congr 1
        rw [decide_eq_decide, mem_cons]
        exact (or_iff_right fun h => hFound h.symm).symm

theorem revokeLoop_records (hOk : RevokeOk blksz buf) (hBlksz : blksz < 2 ^ 31) (blknr : Nat) :
    revokeLoop blksz buf blknr (blksz + 1) 16 = some (decide (blknr ∈ records buf)) := by
  have hLow := hOk.low
  have hHigh := hOk.high
  have hWhole := hOk.whole
  have hLoop := revokeLoop_eq hOk hBlksz blknr ((be32 buf 12 - 16) / 4) 0 (blksz + 1) (by omega)
    (by omega)
  rw [show 16 + 4 * 0 = 16 from rfl] at hLoop
  rw [hLoop]
  unfold records
  rw [range_eq_range']

/- A block is revoked if a later revoke block names it. -/
theorem checkBlknrForRevoke_eq
    (hBlksz : blksz < 2 ^ 31) (blknr sequenceNo : Nat) {blocks : List Block}
    (hOk : ∀ r ∈ blocks, RevokeOk blksz r) :
    checkBlknrForRevoke blksz blknr sequenceNo blocks =
      some (decide (∃ r ∈ blocks, sequenceNo < be32 r 8 ∧ blknr ∈ records r)) := by
  induction blocks with
  | nil =>
    refine congrArg some (decide_eq_false ?_).symm
    rintro ⟨r, hr, -⟩
    cases hr
  | cons r blocks ih =>
    have hRest := ih fun o ho => hOk o (mem_cons_of_mem _ ho)
    unfold checkBlknrForRevoke
    by_cases hLater : sequenceNo < be32 r 8
    · rw [if_pos hLater, revokeLoop_records (hOk r mem_cons_self) hBlksz, bind_some]
      by_cases hIn : blknr ∈ records r
      · rw [decide_eq_true hIn, if_pos rfl]
        congr 1
        symm
        rw [decide_eq_true_eq]
        exact ⟨r, mem_cons_self, hLater, hIn⟩
      · rw [decide_eq_false hIn, if_neg nofun, hRest]
        congr 1
        rw [decide_eq_decide]
        constructor
        · rintro ⟨o, ho, hBoth⟩
          exact ⟨o, mem_cons_of_mem _ ho, hBoth⟩
        · rintro ⟨o, ho, hBoth⟩
          rcases mem_cons.mp ho with rfl | hTail
          · exact absurd hBoth.2 hIn
          · exact ⟨o, hTail, hBoth⟩
    · rw [if_neg hLater, hRest]
      congr 1
      rw [decide_eq_decide]
      constructor
      · rintro ⟨o, ho, hBoth⟩
        exact ⟨o, mem_cons_of_mem _ ho, hBoth⟩
      · rintro ⟨o, ho, hBoth⟩
        rcases mem_cons.mp ho with rfl | hTail
        · exact absurd hBoth.1 hLater
        · exact ⟨o, hTail, hBoth⟩

variable {sequence k j : Nat}

theorem Revokes.le {blocks : List Block} (hRevokes : Revokes blksz ring sequence k blocks j) :
    k ≤ j := by
  induction hRevokes with
  | nil k => exact Nat.le_refl k
  | cons _ _ _ ih => omega

theorem Revokes.blocks {blocks : List Block} (hRevokes : Revokes blksz ring sequence k blocks j) :
    ∀ r ∈ blocks, RevokeOk blksz r ∧ be32 r 8 = sequence := by
  induction hRevokes with
  | nil k => exact fun r hr => nomatch hr
  | cons hBlock hOk _ ih =>
    intro r hr
    rcases mem_cons.mp hr with rfl | hRest
    · exact ⟨hOk, hBlock.2.2⟩
    · exact ih r hRest

theorem Laid.blocks {sequence k desc j : Nat} {t : Transaction} {before after : List Block}
    (hLaid : Laid blksz ring sequence k t desc j before after) :
    ∀ r ∈ t.revokes, RevokeOk blksz r ∧ be32 r 8 = sequence := by
  intro r hr
  rw [hLaid.revokes] at hr
  rcases mem_append.mp hr with hIn | hIn
  · exact hLaid.before.blocks r hIn
  · exact hLaid.after.blocks r hIn

theorem Taken.blocks {ok : Bool} {sequence k e : Nat} {ts : List Transaction}
    (hTaken : Taken blksz ring ok sequence k ts e) (hSequence : sequence < 2 ^ 32) :
    ∀ (i : Nat) (t : Transaction), ts[i]? = some t →
      ∀ r ∈ t.revokes, RevokeOk blksz r ∧ be32 r 8 = (sequence + i) % 2 ^ 32 := by
  have hCons : ∀ {sequence : Nat} {t : Transaction} {ts : List Transaction}, sequence < 2 ^ 32 →
      (∀ r ∈ t.revokes, RevokeOk blksz r ∧ be32 r 8 = sequence) →
      (∀ (i : Nat) (t : Transaction), ts[i]? = some t → ∀ r ∈ t.revokes,
        RevokeOk blksz r ∧ be32 r 8 = ((sequence + 1) % 2 ^ 32 + i) % 2 ^ 32) →
      ∀ (i : Nat) (o : Transaction), (t :: ts)[i]? = some o → ∀ r ∈ o.revokes,
        RevokeOk blksz r ∧ be32 r 8 = (sequence + i) % 2 ^ 32 := by
    intro sequence t ts hSequence hFirst hRest i o ho r hr
    cases i with
    | zero =>
      cases ho
      rw [Nat.add_zero, Nat.mod_eq_of_lt hSequence]
      exact hFirst r hr
    | succ i =>
      have hNext := hRest i o ho r hr
      rwa [Nat.mod_add_mod, Nat.add_assoc, Nat.add_comm 1] at hNext
  have hMod : ∀ n : Nat, n % 2 ^ 32 < 2 ^ 32 := fun n => Nat.mod_lt n (by decide)
  induction hTaken with
  | stop hBefore _ => exact hCons hSequence hBefore.blocks nofun
  | cut hBefore _ hAfter _ =>
    refine hCons hSequence (fun r hr => ?_) nofun
    rcases mem_append.mp hr with hIn | hIn
    · exact hBefore.blocks r hIn
    · exact hAfter.blocks r hIn
  | commit hBefore _ _ ih => exact hCons hSequence hBefore.blocks (ih (hMod _))
  | cons hLaid _ ih => exact hCons hSequence hLaid.blocks (ih (hMod _))

end Revoked

----
-- Replaying A Transaction
----

section Replaying

variable {fs : Fs} {ring : Nat → Block} {first e : Nat}

/-
  The blocks from `first` on are those of the log up to its
  end, and all but the last one can be read.
-/
def Intact (fs : Fs) (ring : Nat → Block) (first e : Nat)
    (device : Device) : Prop :=
  (∀ k, k < e → fs.devread device (fs.readAllocatedBlock device (first + k)) = some (ring k)) ∧
    fs.readJournal device (first + e) = ring e

theorem Intact.readJournal
    {device : Device} (hIntact : Intact fs ring first e device) {k : Nat} (hk : k ≤ e) :
    fs.readJournal device (first + k) = ring k := by
  rcases Nat.lt_or_eq_of_le hk with hLt | rfl
  · unfold Fs.readJournal
    rw [hIntact.1 k hLt, getD_some]
  · exact hIntact.2

theorem put_apply
    (fs : Fs) (device : Device) (blknr : Nat) (buf : Block) {b : Nat} (hb : b < fs.blocks) :
    fs.put device blknr buf b =
      if blknr = b then buf else device b := by
  unfold Fs.put
  by_cases hEq : blknr = b
  · rw [if_pos hEq, hEq, if_pos (by omega)]
    exact Function.update_self _ _ _
  · rw [if_neg hEq]
    split
    · exact Function.update_of_ne (by omega) _ _
    · rfl

variable {P : Device → Prop}

/-
  Each copy that is not revoked is written, in the order of
  the tags, as it is in the journal.
-/
theorem replayTags_spec (hIntact : ∀ d, P d → Intact fs ring first e d)
    {revoked : List Block} {sequenceNo : Nat} {skip : Nat → Bool}
    (tags : List Tag) (k : Nat) (buf : Block) (device : Device)
    (hPut : ∀ d, P d → ∀ x ∈ copiesAt ring k tags, P (fs.put d x.1 x.2.raw))
    (hSkip :
      ∀ x ∈ copiesAt ring k tags,
        checkBlknrForRevoke fs.blksz x.1 sequenceNo revoked = some (skip x.1))
    (hEnd : k + tags.length ≤ e) (hP : P device) :
    ∃ device', replayTags fs revoked sequenceNo tags (first + k) buf device = some device' ∧
      P device' ∧ ∀ b, b < fs.blocks → device' b =
          if skip b then device b
          else
            ((RedoLog.latest (copiesAt ring k tags) b).map Copy.raw).getD (device b) := by
  induction tags generalizing k buf device with
  | nil =>
    refine ⟨device, rfl, hP, fun b _ => ?_⟩
    split
    · rfl
    · rfl
  | cons tag tags ih =>
    have hHead := hSkip (tag.block, ⟨tag.flags, ring k⟩) mem_cons_self
    have hRestPut : ∀ d, P d → ∀ x ∈ copiesAt ring (k + 1) tags, P (fs.put d x.1 x.2.raw) :=
      fun d hd x hx => hPut d hd x (mem_cons_of_mem _ hx)
    have hRestSkip :
        ∀ x ∈ copiesAt ring (k + 1) tags,
          checkBlknrForRevoke fs.blksz x.1 sequenceNo revoked = some (skip x.1) :=
      fun x hx => hSkip x (mem_cons_of_mem _ hx)
    rw [length_cons] at hEnd
    unfold replayTags
    rw [hHead, bind_some]
    by_cases hFound : skip tag.block = true
    · rw [if_pos hFound]
      rcases ih (k + 1) buf device hRestPut hRestSkip
          (by omega) hP with ⟨device', hRun, hAfter, hValue⟩
      refine ⟨device', hRun, hAfter, fun b hb => ?_⟩
      rw [hValue b hb]
      by_cases hSkipped : skip b = true
      · rw [if_pos hSkipped, if_pos hSkipped]
      · have hNe : tag.block ≠ b := by
          rintro rfl
          exact hSkipped hFound
        rw [if_neg hSkipped, if_neg hSkipped]
        conv_rhs => unfold copiesAt
        rw [RedoLog.latest_cons, if_neg hNe, or_none]
    · rw [if_neg hFound]
      rw [(hIntact device hP).1 k (by omega), getD_some]
      rcases ih (k + 1) (ring k) (fs.put device tag.block (ring k)) hRestPut hRestSkip (by omega)
          (hPut device hP _ mem_cons_self) with
        ⟨device', hRun, hAfter, hValue⟩
      refine ⟨device', hRun, hAfter, fun b hb => ?_⟩
      rw [hValue b hb, put_apply fs device tag.block (ring k) hb]
      by_cases hSkipped : skip b = true
      · have hNe : tag.block ≠ b := by
          rintro rfl
          exact hFound hSkipped
        rw [if_pos hSkipped, if_pos hSkipped, if_neg hNe]
      · rw [if_neg hSkipped, if_neg hSkipped]
        conv_rhs => unfold copiesAt
        rw [RedoLog.latest_cons]
        cases RedoLog.latest (copiesAt ring (k + 1) tags) b with
        | some copy => rfl
        | none =>
          dsimp only [map_none, getD_none]
          by_cases hEq : tag.block = b
          · rw [if_pos hEq, if_pos hEq]
            rfl
          · rw [if_neg hEq, if_neg hEq]
            rfl

----
-- Walking Through The Journal
----

/- The loop comes from one state to another. -/
def Reaches (fs : Fs) (mode : Mode)
    (w w' : Walk) : Prop :=
  ∃ n, ∀ m, walkLoop fs mode (n + m) w = walkLoop fs mode m w'

variable {mode : Mode}

theorem Reaches.refl (w : Walk) : Reaches fs mode w w :=
  ⟨0, fun m => by rw [Nat.zero_add]⟩

theorem Reaches.trans
    {u v w : Walk} (hFirst : Reaches fs mode u v) (hSecond : Reaches fs mode v w) :
    Reaches fs mode u w := by
  rcases hFirst with ⟨n, hn⟩
  rcases hSecond with ⟨n', hn'⟩
  refine ⟨n + n', fun m => ?_⟩
  rw [Nat.add_assoc, hn, hn']

theorem Reaches.step {w w' : Walk} (hStep : walkStep fs mode w = some (.goesOn w')) :
    Reaches fs mode w w' := by
  refine ⟨1, fun m => ?_⟩
  rw [Nat.add_comm]
  conv_lhs => unfold walkLoop
  rw [hStep]

/- What the loop has pushed after revoke blocks. -/
def pushed (mode : Mode)
    (revkBlkList blocks : List Block) : List Block :=
  if mode = .scan then revkBlkList ++ blocks else revkBlkList

theorem pushed_append (mode : Mode) (old blocks blocks' : List Block) :
    pushed mode (pushed mode old blocks) blocks' = pushed mode old (blocks ++ blocks') := by
  unfold pushed
  split
  · exact append_assoc _ _ _
  · rfl

theorem pushed_nil (mode : Mode) (old : List Block) :
    pushed mode old [] = old := by
  unfold pushed
  split
  · exact append_nil _
  · rfl

/- Revoke blocks are pushed and left behind. -/
theorem reaches_revokes {sequence k j : Nat} {blocks : List Block}
    (hRevokes : Revokes fs.blksz ring sequence k blocks j) (w : Walk)
    (hIntact : Intact fs ring first e w.device)
    (hSequence : w.sequence = sequence) (hi : w.i = first + k) (hEnd : j ≤ e) :
    Reaches fs mode w
      { w with
        i := first + j
        revkBlkList := pushed mode w.revkBlkList blocks } := by
  induction hRevokes generalizing w with
  | nil k =>
    rw [pushed_nil, ← hi]
    exact Reaches.refl w
  | cons hBlock hOk hRest ih =>
    rename_i k j rest
    have hNext := hRest.le
    have hRead := hIntact.readJournal (show k ≤ e by omega)
    have hStep : walkStep fs mode w = some (.goesOn
        { w with
          i := w.i + 1
          revkBlkList := pushed mode w.revkBlkList [ring k] }) := by
      unfold walkStep
      dsimp only
      rw [hi, hRead, hBlock.2.2, hSequence, if_neg fun h => h rfl, hBlock.2.1,
        if_neg (by decide), if_neg (by decide), if_pos rfl]
      rfl
    have hAfter := ih
      { w with
        i := w.i + 1
        revkBlkList := pushed mode w.revkBlkList [ring k] }
      hIntact hSequence (by dsimp only; omega) hEnd
    rw [pushed_append] at hAfter
    exact (Reaches.step hStep).trans hAfter

theorem commitBlock_running
    {w : Walk} {device' : Device} (hRunning : w.running = true) (hFound : w.dbFound = true)
    (hDevice :
      (if mode = .recover then
        recoverTransaction fs w.revkBlkList w.currDescLogicalNo w.device
        else some w.device) = some device') :
    commitBlock fs mode w = some (.goesOn
      ⟨w.i + 1, false, false, w.currDescLogicalNo,
        (w.sequence + 1) % 2 ^ 32, w.revkBlkList, device'⟩) := by
  unfold commitBlock
  rw [if_pos (Or.inl hRunning)]
  by_cases hMode : mode = .recover
  · rw [if_pos hMode] at hDevice
    rw [if_pos ⟨hMode, hFound⟩, hDevice]
    rfl
  · rw [if_neg hMode] at hDevice
    cases hDevice
    rw [if_neg fun h => hMode h.1]
    rfl

/- The loop passes a descriptor block, and its copies. -/
theorem reaches_running {sequence k desc j : Nat} {before after : List Block}
    (hBefore : Revokes fs.blksz ring sequence k before desc)
    (hDescriptor : IsBlock (ring desc) 1 sequence)
    (hAfter : Revokes fs.blksz ring sequence (desc + 1 + (tags fs.blksz (ring desc)).length)
      after j)
    (w : Walk) (hIntact : Intact fs ring first e w.device) (hRunning : w.running = false)
    (hSequence : w.sequence = sequence) (hi : w.i = first + k) (hEnd : j ≤ e) :
    Reaches fs mode w
      ⟨first + j, true, true, first + desc, w.sequence,
        pushed mode w.revkBlkList (before ++ after), w.device⟩ := by
  have hLe := hAfter.le
  have hFirst : Reaches fs mode w
      { w with
        i := first + desc
        revkBlkList := pushed mode w.revkBlkList before } :=
    reaches_revokes hBefore w hIntact hSequence hi (by omega)
  have hStep : walkStep fs mode
      { w with
        i := first + desc
        revkBlkList := pushed mode w.revkBlkList before } =
      some (.goesOn
        ⟨first + (desc + 1 + (tags fs.blksz (ring desc)).length),
          true, true, first + desc, w.sequence, pushed mode w.revkBlkList before, w.device⟩) := by
    unfold walkStep
    dsimp only
    rw [hIntact.readJournal (show desc ≤ e by omega), hDescriptor.2.2, hSequence,
      if_neg fun h => h rfl, hDescriptor.2.1, if_pos rfl,
      if_neg (by rw [hRunning]; exact nofun)]
    congr 2
    congr 1
    omega
  rw [← pushed_append]
  exact (hFirst.trans (Reaches.step hStep)).trans
    (reaches_revokes hAfter _ hIntact hSequence rfl hEnd)

/-
  The loop passes a complete transaction, and the second time
  replays it.
-/
theorem reaches_transaction (hIntact : ∀ d, P d → Intact fs ring first e d)
    {sequence k desc j : Nat} {t : Transaction} {before after : List Block}
    (hLaid : Laid fs.blksz ring sequence k t desc j before after)
    (hPut : ∀ d, P d → ∀ x ∈ t.copies, P (fs.put d x.1 x.2.raw)) {skip : Nat → Bool} (w : Walk)
    (hSkip :
      mode = .recover →
        ∀ x ∈ t.copies, checkBlknrForRevoke fs.blksz x.1 sequence w.revkBlkList = some (skip x.1))
    (hP : P w.device) (hRunning : w.running = false)
    (hSequence : w.sequence = sequence) (hi : w.i = first + k) (hEnd : j < e) :
    ∃ device', Reaches fs mode w
        ⟨first + (j + 1), false, false, first + desc, (sequence + 1) % 2 ^ 32,
          pushed mode w.revkBlkList t.revokes, device'⟩ ∧
      P device' ∧ (mode = .scan → device' = w.device) ∧ (mode = .recover → ∀ b, b < fs.blocks →
        device' b =
          if skip b then w.device b
          else
            ((RedoLog.latest t.copies b).map Copy.raw).getD (w.device b)) := by
  have hAfter := hLaid.after.le
  have hDesc := (hIntact w.device hP).readJournal (show desc ≤ e by omega)
  have hCommit := (hIntact w.device hP).readJournal (Nat.le_of_lt hEnd)
  have hDevice : ∃ device', (if mode = .recover then
        recoverTransaction fs (pushed mode w.revkBlkList t.revokes) (first + desc) w.device
        else some w.device) = some device' ∧
      P device' ∧ (mode = .scan → device' = w.device) ∧ (mode = .recover → ∀ b, b < fs.blocks →
        device' b =
          if skip b then w.device b
          else
            ((RedoLog.latest t.copies b).map Copy.raw).getD (w.device b)) := by
    cases mode with
    | scan => exact ⟨w.device, rfl, hP, fun _ => rfl, nofun⟩
    | recover =>
      have hCopies := hLaid.copies
      rw [hCopies] at hPut hSkip
      rcases replayTags_spec hIntact (tags fs.blksz (ring desc)) (desc + 1)
          (List.replicate fs.blksz 0) w.device hPut
          (hSkip rfl) (by omega) hP with
        ⟨device', hRun, hKept, hValue⟩
      refine ⟨device', ?_, hKept, nofun, fun _ => ?_⟩
      · rw [if_pos rfl]
        unfold recoverTransaction
        dsimp only
        rw [hDesc, hLaid.descriptor.2.2]
        exact hRun
      · rw [hCopies]
        exact hValue
  rcases hDevice with ⟨device', hRun, hKept, hScan, hValue⟩
  refine ⟨device', ?_, hKept, hScan, hValue⟩
  have hRunning : Reaches fs mode w
      ⟨first + j, true, true, first + desc, w.sequence,
        pushed mode w.revkBlkList t.revokes, w.device⟩ := by
    rw [hLaid.revokes]
    exact reaches_running hLaid.before hLaid.descriptor hLaid.after w (hIntact w.device hP)
      hRunning hSequence hi (by omega)
  have hLast : walkStep fs mode
      ⟨first + j, true, true, first + desc, w.sequence,
        pushed mode w.revkBlkList t.revokes, w.device⟩ =
      some (.goesOn
        ⟨first + (j + 1), false, false, first + desc, (sequence + 1) % 2 ^ 32,
          pushed mode w.revkBlkList t.revokes, device'⟩) := by
    unfold walkStep
    dsimp only
    rw [hCommit, hLaid.commit.2.2, hSequence, if_neg fun h => h rfl, hLaid.commit.2.1,
      if_neg (by decide), if_pos rfl]
    exact commitBlock_running rfl rfl hRun
  exact hRunning.trans (Reaches.step hLast)

theorem Taken.le {ok : Bool} {sequence k : Nat} {ts : List Transaction}
    (hTaken : Taken fs.blksz ring ok sequence k ts e) :
    k ≤ e := by
  induction hTaken with
  | stop hBefore _ => exact hBefore.le
  | cut hBefore _ hAfter _ =>
    have hFirst := hBefore.le
    have hLast := hAfter.le
    omega
  | commit hBefore _ _ ih =>
    have hFirst := hBefore.le
    omega
  | cons hLaid _ ih =>
    have hBefore := hLaid.before.le
    have hAfter := hLaid.after.le
    omega

/- The list says of each copy whether it is revoked later. -/
def Skips (fs : Fs) (mode : Mode) (sequence : Nat) (ts : List Transaction)
    (revkBlkList : List Block) : Prop :=
  mode = .recover → ∀ (i : Nat) (t : Transaction), ts[i]? = some t → ∀ x ∈ t.copies,
        checkBlknrForRevoke fs.blksz x.1 ((sequence + i) % 2 ^ 32) revkBlkList =
          some (RedoLog.revoked ((ts.drop (i + 1)).map Transaction.redo) x.1)

theorem Skips.rest
    {sequence : Nat} {t : Transaction} {ts : List Transaction} {revkBlkList : List Block}
    (hSkips : Skips fs mode sequence (t :: ts) revkBlkList) (blocks : List Block) :
    Skips fs mode ((sequence + 1) % 2 ^ 32) ts (pushed mode revkBlkList blocks) := by
  intro hMode i o ho x hx
  have hNext := hSkips hMode (i + 1) o ho x hx
  have hPushed : pushed mode revkBlkList blocks = revkBlkList := by
    unfold pushed
    rw [hMode, if_neg nofun]
  rw [hPushed, Nat.mod_add_mod, Nat.add_assoc, Nat.add_comm 1]
  exact hNext

/- What the loop has done with transactions. -/
structure Applied (fs : Fs) (mode : Mode) (ts : List Transaction) (w w' : Walk) : Prop where
  revkBlkList : w'.revkBlkList = pushed mode w.revkBlkList (ts.flatMap Transaction.revokes)
  scan : mode = .scan → w'.device = w.device
  value : mode = .recover → ∀ b, b < fs.blocks →
    w'.device b = ((RedoLog.last (ts.map Transaction.redo) b).map Copy.raw).getD (w.device b)

theorem Applied.cons {t : Transaction} {ts : List Transaction} {w w₁ w' : Walk}
    (hList : w₁.revkBlkList = pushed mode w.revkBlkList t.revokes)
    (hScan : mode = .scan → w₁.device = w.device)
    (hValue : mode = .recover → ∀ b, b < fs.blocks → w₁.device b =
        if RedoLog.revoked (ts.map Transaction.redo) b then w.device b
        else ((RedoLog.latest t.copies b).map Copy.raw).getD (w.device b))
    (hRest : Applied fs mode ts w₁ w') :
    Applied fs mode (t :: ts) w w' where
  revkBlkList := by
    rw [hRest.revkBlkList, hList, pushed_append, flatMap_cons]
  scan hMode := (hRest.scan hMode).trans (hScan hMode)
  value hMode b hb := by
    rw [hRest.value hMode b hb, hValue hMode b hb, map_cons, RedoLog.last_cons_getD]
    rfl

/-
  The loop passes all transactions, and the second time
  replays those that are complete.
-/
theorem reaches_taken (mode : Mode) (hIntact : ∀ d, P d → Intact fs ring first e d)
    {ok : Bool} {sequence k : Nat} {ts : List Transaction}
    (hTaken : Taken fs.blksz ring ok sequence k ts e) (hNumber : sequence < 2 ^ 32)
    (hPut : ∀ t ∈ ts, ∀ d, P d → ∀ x ∈ t.copies, P (fs.put d x.1 x.2.raw)) (w : Walk)
    (hSkips : Skips fs mode sequence ts w.revkBlkList) (hP : P w.device) (hRunning : w.running = false)
    (hFound : w.dbFound = false) (hSequence : w.sequence = sequence) (hi : w.i = first + k) :
    ∃ w', Reaches fs mode w w' ∧ w'.i = first + e ∧ Ends (ring e) w'.sequence w'.running ok ∧
      P w'.device ∧ Applied fs mode ts w w' := by
  induction hTaken generalizing w with
  | stop hBefore hEnds =>
    refine ⟨_, reaches_revokes hBefore w (hIntact _ hP) hSequence hi (Nat.le_refl _), rfl, ?_, hP,
      ?_, fun _ => rfl, fun _ _ _ => rfl⟩
    · dsimp only
      rwa [hSequence, hRunning]
    · rw [flatMap_singleton]
  | cut hBefore hDescriptor hAfter hEnds =>
    refine ⟨_, reaches_running hBefore hDescriptor hAfter w (hIntact _ hP) hRunning hSequence hi
      (Nat.le_refl _), rfl, ?_, hP, ?_, fun _ => rfl, fun _ _ _ => rfl⟩
    · dsimp only
      rwa [hSequence]
    · rw [flatMap_singleton]
  | @commit sequence k j e before ts hBefore hCommit hRest ih =>
    have hLe := hRest.le
    have hFirst : Reaches fs mode w
        { w with
          i := first + j
          revkBlkList := pushed mode w.revkBlkList before } :=
      reaches_revokes hBefore w (hIntact _ hP) hSequence hi (by omega)
    have hStep : walkStep fs mode
        { w with
          i := first + j
          revkBlkList := pushed mode w.revkBlkList before } =
        some (.goesOn
          ⟨first + (j + 1), false, false, w.currDescLogicalNo, (sequence + 1) % 2 ^ 32,
            pushed mode w.revkBlkList before, w.device⟩) := by
      unfold walkStep commitBlock
      dsimp only
      rw [(hIntact _ hP).readJournal (show j ≤ e by omega), hCommit.2.2, hSequence,
        if_neg fun h => h rfl, hCommit.2.1, if_neg (by decide), if_pos rfl, hFound,
        if_pos (Or.inr rfl), if_neg fun h => Bool.false_ne_true h.2]
      rfl
    rcases ih hIntact (Nat.mod_lt _ (by decide)) (fun o ho => hPut o (mem_cons_of_mem _ ho))
        ⟨first + (j + 1), false, false, w.currDescLogicalNo, (sequence + 1) % 2 ^ 32,
          pushed mode w.revkBlkList before, w.device⟩
        (hSkips.rest before) hP rfl rfl rfl rfl with
      ⟨w', hLast, hEnd, hEnds, hKept, hApplied⟩
    refine ⟨w', (hFirst.trans (Reaches.step hStep)).trans hLast, hEnd, hEnds, hKept, ?_⟩
    refine Applied.cons ?_ ?_ ?_ hApplied
    · rfl
    · exact fun _ => rfl
    · intro _ b _
      exact (ite_self _).symm
  | @cons sequence k desc j e t ts before after hLaid hRest ih =>
    have hLe := hRest.le
    have hSkipFirst :
        mode = .recover → ∀ x ∈ t.copies, checkBlknrForRevoke fs.blksz x.1 sequence w.revkBlkList =
              some (RedoLog.revoked (ts.map Transaction.redo) x.1) := by
      intro hMode x hx
      have hFirst := hSkips hMode 0 t rfl x hx
      rw [Nat.add_zero, Nat.mod_eq_of_lt hNumber] at hFirst
      exact hFirst
    rcases reaches_transaction hIntact hLaid (hPut t mem_cons_self) w
        hSkipFirst hP hRunning hSequence hi (by omega) with
      ⟨d₁, hFirst, hP₁, hScan₁, hValue₁⟩
    rcases ih hIntact (Nat.mod_lt _ (by decide)) (fun o ho => hPut o (mem_cons_of_mem _ ho))
        ⟨first + (j + 1), false, false, first + desc, (sequence + 1) % 2 ^ 32,
          pushed mode w.revkBlkList t.revokes, d₁⟩
        (hSkips.rest t.revokes) hP₁ rfl rfl rfl rfl with
      ⟨w', hLast, hEnd, hEnds, hKept, hApplied⟩
    exact ⟨w', hFirst.trans hLast, hEnd, hEnds, hKept, hApplied.cons rfl hScan₁ hValue₁⟩

theorem walkLoop_ends
    (mode : Mode) {ok : Bool} {w : Walk} (hIntact : Intact fs ring first e w.device)
    (hi : w.i = first + e) (hEnds : Ends (ring e) w.sequence w.running ok) (fuel : Nat) :
    if ok then walkLoop fs mode (fuel + 1) w = some (.stops w)
    else ∀ w', walkLoop fs mode fuel w ≠ some (.stops w') := by
  have hRead := hIntact.readJournal (Nat.le_refl e)
  cases ok with
  | true =>
    have hStep : walkStep fs mode w = some (.stops w) := by
      have hOther : be32 (ring e) 8 ≠ w.sequence := hEnds
      unfold walkStep
      rw [hi, hRead, if_pos hOther]
    rw [if_pos rfl]
    unfold walkLoop
    rw [hStep]
  | false =>
    rcases hEnds with ⟨hSame, hCommit, hRevoke, hDescriptor⟩
    rw [if_neg Bool.false_ne_true]
    induction fuel with
    | zero => exact nofun
    | succ fuel ih =>
      intro w' hLoop
      unfold walkLoop walkStep at hLoop
      dsimp only at hLoop
      rw [hi, hRead, hSame, if_neg fun h => h rfl, if_neg hCommit, if_neg hRevoke] at hLoop
      split_ifs at hLoop with hType hRunning
      · cases hLoop
      · exact hRunning (hDescriptor hType)
      · exact ih w' hLoop

end Replaying

----
-- The Recovery
----

section Recovery

variable {fs : Fs} {st : State} {ts : List Transaction} {e : Nat}

/- The fields of the journal's superblock. -/
def sMaxlen (jsb : Block) : Nat := be32 jsb 16
def sFirst (jsb : Block) : Nat := be32 jsb 20
def sSequence (jsb : Block) : Nat := be32 jsb 24
def sStart (jsb : Block) : Nat := be32 jsb 28

/- The blocks of the log from its start on, which wraps. -/
def ringOf (fs : Fs) (device : Device) (k : Nat) : Block :=
  let jsb := fs.readJournal device 0
  let i := sStart jsb + k
  fs.readJournal device
    (if i < sMaxlen jsb then i
      else sFirst jsb + (i - sMaxlen jsb))

def inJournal (fs : Fs) (device : Device) (b : Nat) : Prop :=
  ∃ i, i < sMaxlen (fs.readJournal device 0) ∧ fs.readAllocatedBlock device i = b

/- The block has what it had, or a copy of it. -/
def OldOrCopy (device : Device) (ts : List Transaction) (device' : Device)
    (b : Nat) : Prop :=
  device' b = device b ∨ ∃ t ∈ ts, ∃ x ∈ t.copies, x.1 = b ∧ device' b = x.2.raw

/- The device with some copies in place. -/
def Mixed (fs : Fs) (device : Device) (ts : List Transaction)
    (device' : Device) : Prop :=
  ∀ b, b ≠ fs.superBlock → OldOrCopy device ts device' b

/-
  A journal with a log of complete transactions.  Its blocks
  are on the device and none of them is logged, and no copy
  changes where they are.
-/
structure Log
    (fs : Fs) (device : Device) (ts : List Transaction)
    (e : Nat) : Prop where
  blksz : fs.blksz < 2 ^ 31
  present : ∀ i, i < sMaxlen (fs.readJournal device 0) →
    ∃ b : Nat, fs.readAllocatedBlock device i = b ∧ b < fs.blocks ∧ b ≠ fs.superBlock
  started : sStart (fs.readJournal device 0) ≠ 0
  positive : 0 < sMaxlen (fs.readJournal device 0)
  layout : Layout fs.blksz (ringOf fs device) (sSequence (fs.readJournal device 0)) 0 ts e
  outside : ∀ t ∈ ts, ∀ x ∈ t.copies, ¬ inJournal fs device x.1
  stays : ∀ device', Mixed fs device ts device' → ∀ i, i < sMaxlen (fs.readJournal device 0) →
      fs.readAllocatedBlock device' i = fs.readAllocatedBlock device i

/-
  The numbers of a transaction that logs a block and of one
  that revokes it compare as the two come.
-/
def NumbersFit (sequence : Nat) (ts : List Transaction) : Prop :=
  ∀ (i j : Nat) (t t' : Transaction), ts[i]? = some t → ts[j]? = some t' →
      ∀ x ∈ t.copies, x.1 ∈ t'.revoked → ((sequence + i) % 2 ^ 32 < (sequence + j) % 2 ^ 32 ↔ i < j)

/-
  What follows the log has another number, or is a descriptor
  block whose copies are followed by a block that has.
-/
def StopsAt (blksz : Nat) (ring : Nat → Block)
    (sequence e len : Nat) : Prop :=
  (e < len ∧ be32 (ring e) 8 ≠ sequence) ∨
    (IsBlock (ring e) 1 sequence ∧ e + 1 + (tags blksz (ring e)).length < len ∧
      be32 (ring (e + 1 + (tags blksz (ring e)).length)) 8 ≠ sequence)

/-
  The recovery reads this log: it starts at the first block,
  does not wrap and stops cleanly, and the numbers of blocks
  that are logged and revoked compare as they come.
-/
structure Handled
    (fs : Fs) (device : Device) (ts : List Transaction)
    (e : Nat) : Prop where
  start : sStart (fs.readJournal device 0) = sFirst (fs.readJournal device 0)
  stops :
    StopsAt fs.blksz (ringOf fs device) ((sSequence (fs.readJournal device 0) + ts.length) % 2 ^ 32)
      e
      (sMaxlen (fs.readJournal device 0) - sFirst (fs.readJournal device 0))
  numbers : NumbersFit (sSequence (fs.readJournal device 0)) ts

/-
  What the recovery reads instead, from the first block of the
  journal on, whatever log there is.  The copies that it puts
  in place change none of the blocks that it reads, nor where
  the journal is.
-/
structure Reading
    (fs : Fs) (device : Device) (ring : Nat → Block) (ok : Bool) (ts : List Transaction)
    (e : Nat) : Prop where
  taken : Taken fs.blksz ring ok (sSequence (fs.readJournal device 0)) 0 ts e
  numbers : NumbersFit (sSequence (fs.readJournal device 0)) ts
  steady : ∀ device', (∀ b, OldOrCopy device ts device' b) →
    Intact fs ring (sFirst (fs.readJournal device 0)) e device'
  home : ∀ device', Mixed fs device ts device' →
    fs.readAllocatedBlock device' 0 = fs.readAllocatedBlock device 0

/-
  What a block is to hold.  The one of the superblock may hold
  anything, unless it is logged.
-/
def expected (fs : Fs) (device : Device) (ts : List Transaction) (b : Nat) : Option Block :=
  match RedoLog.last (ts.map Transaction.redo) b with
  | some copy => some copy.restored
  | none => if b = fs.superBlock then none else some (device b)

/-
  Both calls return, and each block outside the journal holds
  what the log says about it.
-/
def Replays (fs : Fs) (st : State)
    (ts : List Transaction) : Prop :=
  ∃ enough, ∀ fuel, enough ≤ fuel → ∃ st₁ st₂,
      ext4fsCheckJournalState fs fuel .scan st = some (0, st₁) ∧
      ext4fsCheckJournalState fs fuel .recover st₁ = some (0, st₂) ∧
      ∀ b, b < fs.blocks → ¬ inJournal fs st.device b →
        ∀ buf ∈ expected fs st.device ts b, st₂.device b = buf

/- The block of the superblock, with the flag of a recovery. -/
def Fs.withRecover (fs : Fs) (buf : Block) : Block :=
  buf.take fs.superOfs ++ setRecover ((buf.drop fs.superOfs).take 1024) ++
    buf.drop (fs.superOfs + 1024)

/- A copy as it is in the journal, or what the block has. -/
def unrestored (fs : Fs) (device : Device) (ts : List Transaction) (b : Nat) : Block :=
  let buf := ((RedoLog.last (ts.map Transaction.redo) b).map Copy.raw).getD (device b)
  if b = fs.superBlock then fs.withRecover buf else buf

/- The transactions of one list say what those of the other do. -/
def SayTheSame (fs : Fs) (device : Device) (ts ts' : List Transaction) : Prop :=
  ∀ b, b < fs.blocks → ¬ inJournal fs device b →
    ∀ buf ∈ expected fs device ts b, unrestored fs device ts' b = buf

----
-- Devices In The Middle Of The Recovery
----

variable {b : Nat}

theorem put_other (fs : Fs) (device : Device) {blknr : Int} (buf : Block) (hb : blknr ≠ b) :
    fs.put device blknr buf b = device b := by
  unfold Fs.put
  split
  · exact Function.update_of_ne (by omega) _ _
  · rfl

theorem devread_nat (hb : b < fs.blocks) (device : Device) :
    fs.devread device b = some (device b) := by
  unfold Fs.devread
  rw [if_pos (by omega)]
  rfl

variable {device d : Device}

theorem OldOrCopy.put {t : Transaction} {x : Nat × Copy}
    (hOld : OldOrCopy device ts d b) (ht : t ∈ ts) (hx : x ∈ t.copies) :
    OldOrCopy device ts (fs.put d x.1 x.2.raw) b := by
  by_cases hEq : x.1 = b
  · unfold OldOrCopy Fs.put
    split
    · right
      refine ⟨t, ht, x, hx, hEq, ?_⟩
      rw [← hEq]
      exact Function.update_self _ _ _
    · exact hOld
  · unfold OldOrCopy
    rw [put_other fs d x.2.raw (fun h => hEq (by omega))]
    exact hOld

theorem putSuper_mixed (hOld : ∀ b, OldOrCopy device ts d b) (sb : Block) :
    Mixed fs device ts (fs.putSuper d sb) := by
  intro b hb
  unfold Fs.putSuper OldOrCopy
  rw [put_other fs d _ (fun h => hb (by omega))]
  exact hOld b

/- The journal stays as it is. -/
theorem Log.intact (hLog : Log fs device ts e)
    (hStart : sStart (fs.readJournal device 0) = sFirst (fs.readJournal device 0))
    (hOld : ∀ b, OldOrCopy device ts d b) {k : Nat}
    (hk : sFirst (fs.readJournal device 0) + k < sMaxlen (fs.readJournal device 0)) :
    fs.devread d (fs.readAllocatedBlock d (sFirst (fs.readJournal device 0) + k)) =
      some (ringOf fs device k) := by
  rcases hLog.present _ hk with ⟨b, hAt, hBlocks, hSuper⟩
  have hSame : d b = device b := by
    rcases hOld b with hOld | ⟨t, ht, x, hx, rfl, -⟩
    · exact hOld
    · exact absurd ⟨_, hk, hAt⟩ (hLog.outside t ht x hx)
  have hRing : ringOf fs device k = device b := by
    have hRead : ∀ i, fs.readAllocatedBlock device i = b → fs.readJournal device i = device b := by
      intro i hi
      unfold Fs.readJournal
      rw [hi, devread_nat hBlocks, getD_some]
    unfold ringOf
    dsimp only
    rw [hStart, if_pos hk]
    exact hRead _ hAt
  rw [hLog.stays d (fun b _ => hOld b) _ hk, hAt, hRing, ← hSame]
  exact devread_nat hBlocks d

/- A transaction that is not complete, with nothing revoked. -/
theorem Layout.taken {blksz : Nat} {ring : Nat → Block} {sequence k len : Nat}
    (hLayout : Layout blksz ring sequence k ts e) (hSequence : sequence < 2 ^ 32)
    (hStops : StopsAt blksz ring ((sequence + ts.length) % 2 ^ 32) e len) :
    ∃ e' < len, Taken blksz ring true sequence k (ts ++ [⟨[], []⟩]) e' := by
  induction hLayout with
  | nil sequence k =>
    rw [length_nil, Nat.add_zero, Nat.mod_eq_of_lt hSequence] at hStops
    rcases hStops with ⟨he, hOther⟩ | ⟨hDescriptor, he, hOther⟩
    · exact ⟨k, he, .stop (.nil k) hOther⟩
    · have hCut : Taken blksz ring true sequence k [⟨[], [] ++ []⟩] _ :=
        .cut (.nil k) hDescriptor (.nil _) hOther
      exact ⟨_, he, hCut⟩
  | @cons sequence k desc j e t ts before after hLaid _ ih =>
    rw [length_cons, show sequence + (ts.length + 1) = sequence + 1 + ts.length by omega,
      ← Nat.mod_add_mod] at hStops
    rcases ih (Nat.mod_lt _ (by decide)) hStops with ⟨e', he', hTaken⟩
    exact ⟨e', he', .cons hLaid hTaken⟩

/- A transaction that is not complete says nothing. -/
theorem last_unfinished (ts : List Transaction) (b : Nat) :
    RedoLog.last ((ts ++ [(⟨[], []⟩ : Transaction)]).map Transaction.redo) b =
      RedoLog.last (ts.map Transaction.redo) b := by
  rw [map_append]
  exact RedoLog.last_append_empty _ _

theorem OldOrCopy.unfinished
    (hOld : OldOrCopy device (ts ++ [⟨[], []⟩]) d b) : OldOrCopy device ts d b := by
  refine hOld.imp_right ?_
  rintro ⟨t, ht, x, hx, hBoth⟩
  rcases mem_append.mp ht with hIn | hLast
  · exact ⟨t, hIn, x, hx, hBoth⟩
  · cases mem_singleton.mp hLast
    cases hx

theorem NumbersFit.unfinished {sequence : Nat}
    (hFit : NumbersFit sequence ts) : NumbersFit sequence (ts ++ [⟨[], []⟩]) := by
  have hIn : ∀ {i : Nat} {t : Transaction}, (ts ++ [⟨[], []⟩])[i]? = some t → t ≠ ⟨[], []⟩ →
      ts[i]? = some t := by
    intro i t hi hNe
    rcases Nat.lt_or_ge i ts.length with hLt | hGe
    · rwa [getElem?_append_left hLt] at hi
    · rw [getElem?_append_right hGe] at hi
      exact absurd (mem_singleton.mp (mem_of_getElem? hi)) hNe
  intro i j t t' hi hj x hx hRevoked
  refine hFit i j t t' (hIn hi ?_) (hIn hj ?_) x hx hRevoked
  · rintro rfl
    cases hx
  · rintro rfl
    cases hRevoked

theorem Log.reading (hLog : Log fs device ts e) (hHandled : Handled fs device ts e) :
    ∃ e', Reading fs device (ringOf fs device) true (ts ++ [⟨[], []⟩]) e' := by
  rcases hLog.layout.taken (be32_lt _ _) hHandled.stops with ⟨e', he', hTaken⟩
  refine ⟨e', hTaken, hHandled.numbers.unfinished, fun d hOld => ?_, fun d hMixed => ?_⟩
  · have hRead : ∀ k, k ≤ e' → _ := fun k hk =>
      hLog.intact hHandled.start (fun b => (hOld b).unfinished) (k := k) (by omega)
    refine ⟨fun k hk => hRead k (Nat.le_of_lt hk), ?_⟩
    unfold Fs.readJournal at hRead ⊢
    rw [hRead e' (Nat.le_refl _), getD_some]
  · exact hLog.stays d (fun b hb => (hMixed b hb).unfinished) 0 hLog.positive

/- The revoke blocks say what is revoked later. -/
theorem Reading.skips {ring : Nat → Block} {ok : Bool}
    (hReading : Reading fs device ring ok ts e) (hBlksz : fs.blksz < 2 ^ 31) (mode : Mode)
    {revkBlkList : List Block}
    (hList : mode = .recover → revkBlkList = ts.flatMap Transaction.revokes) :
    Skips fs mode (sSequence (fs.readJournal device 0)) ts revkBlkList := by
  intro hMode i t ht x hx
  have hBlocks := hReading.taken.blocks (be32_lt _ _)
  have hOk : ∀ r ∈ ts.flatMap Transaction.revokes, RevokeOk fs.blksz r := by
    intro r hr
    rcases mem_flatMap.mp hr with ⟨o, ho, hIn⟩
    rcases mem_iff_getElem?.mp ho with ⟨j, hj⟩
    exact (hBlocks j o hj r hIn).1
  rw [hList hMode, checkBlknrForRevoke_eq hBlksz _ _ hOk]
  congr 1
  rw [Bool.eq_iff_iff, decide_eq_true_eq]
  unfold RedoLog.revoked
  rw [List.any_map, List.any_eq_true]
  constructor
  · rintro ⟨r, hr, hLater, hIn⟩
    rcases mem_flatMap.mp hr with ⟨o, ho, hRevokes⟩
    rcases mem_iff_getElem?.mp ho with ⟨j, hj⟩
    have hNamed : x.1 ∈ o.revoked := mem_flatMap.mpr ⟨r, hRevokes, hIn⟩
    rw [(hBlocks j o hj r hRevokes).2, hReading.numbers i j t o ht hj x hx hNamed] at hLater
    refine ⟨o, mem_iff_getElem?.mpr ⟨j - (i + 1), ?_⟩, decide_eq_true hNamed⟩
    rw [getElem?_drop, show i + 1 + (j - (i + 1)) = j by omega]
    exact hj
  · rintro ⟨o, ho, hNamed⟩
    rcases mem_iff_getElem?.mp ho with ⟨j, hj⟩
    rw [getElem?_drop] at hj
    have hIn : x.1 ∈ o.revoked := of_decide_eq_true hNamed
    rcases mem_flatMap.mp hIn with ⟨r, hr, hRecord⟩
    refine ⟨r, mem_flatMap.mpr ⟨o, mem_iff_getElem?.mpr ⟨_, hj⟩, hr⟩, ?_, hRecord⟩
    rw [(hBlocks _ o hj r hr).2, hReading.numbers i _ t o ht hj x hx hIn]
    omega

----
-- What The Recovery Does
----

/- The flag of a recovery leaves where it starts. -/
theorem recovering_fields (jsb : Block) :
    be32 (setBe32 jsb 36 (be32 jsb 36 ||| 1)) 20 = sFirst jsb ∧
      be32 (setBe32 jsb 36 (be32 jsb 36 ||| 1)) 24 = sSequence jsb :=
  ⟨be32_setBe32 _ (by decide) _, be32_setBe32 _ (by decide) _⟩

/- A call walks through what it reads, up to the end. -/
theorem Reading.walks {ring : Nat → Block} {ok : Bool}
    (hReading : Reading fs st.device ring ok ts e) (hBlksz : fs.blksz < 2 ^ 31)
    (hStarted : sStart (fs.readJournal st.device 0) ≠ 0) (hSb : needsRecovery st.sb = true)
    (mode : Mode) (hList : mode = .recover → st.revkBlkList = ts.flatMap Transaction.revokes) :
    ∃ enough w jsb, (∀ b, OldOrCopy st.device ts w.device b) ∧ Applied fs mode ts
        ⟨sFirst (fs.readJournal st.device 0), false, false, 0,
          sSequence (fs.readJournal st.device 0), st.revkBlkList, st.device⟩ w ∧
      ∀ fuel, enough ≤ fuel →
        if ok then
          ext4fsCheckJournalState fs fuel mode st = some (0, finish fs mode jsb
              { st with device := w.device, revkBlkList := w.revkBlkList })
        else ∀ st', ext4fsCheckJournalState fs fuel mode st ≠ some (0, st') := by
  have hFields := recovering_fields (fs.readJournal st.device 0)
  rcases reaches_taken mode hReading.steady hReading.taken (be32_lt _ _)
      (fun t ht d hd x hx b => (hd b).put ht hx)
      ⟨sFirst (fs.readJournal st.device 0), false, false, 0, sSequence (fs.readJournal st.device 0),
        st.revkBlkList, st.device⟩
      (hReading.skips hBlksz mode hList) (fun b => Or.inl rfl) rfl rfl rfl (Nat.add_zero _).symm with
    ⟨w, ⟨n, hn⟩, hEnd, hEnds, hOld, hApplied⟩
  refine ⟨n + 1, w, setBe32 (setBe32
    (fs.readJournal st.device 0) 36 (be32 (fs.readJournal st.device 0) 36 ||| 1)) 24
    w.sequence, hOld, hApplied, fun fuel hFuel => ?_⟩
  have hNeeded : ¬ needsRecovery st.sb = false := fun h => nomatch hSb.symm.trans h
  have hStart : be32 (fs.readJournal st.device 0) 28 ≠ 0 := hStarted
  have hWalk := hn (fuel - n - 1 + 1)
  rw [show n + (fuel - n - 1 + 1) = fuel by omega] at hWalk
  unfold ext4fsCheckJournalState
  dsimp only
  rw [if_neg hNeeded, if_neg hStart, hFields.1, hFields.2, hWalk]
  cases ok with
  | true =>
    have hLoop := walkLoop_ends mode (hReading.steady _ hOld) hEnd hEnds (fuel - n - 1)
    rw [if_pos rfl] at hLoop ⊢
    rw [hLoop]
  | false =>
    have hLoop := walkLoop_ends mode (hReading.steady _ hOld) hEnd hEnds (fuel - n - 1 + 1)
    rw [if_neg Bool.false_ne_true] at hLoop ⊢
    intro st' hResult
    cases hOutcome : walkLoop fs mode (fuel - n - 1 + 1) w with
    | none =>
      rw [hOutcome] at hResult
      cases hResult
    | some r =>
      rw [hOutcome] at hResult
      cases r with
      | goesOn w' => cases hResult
      | stops w' => exact hLoop w' hOutcome
      | fails w' => cases hResult

/- The end of the recovery sets the flag once more. -/
theorem finish_apply (hHome : ∀ b : Nat, fs.readAllocatedBlock (fs.putSuper st.device
      (setRecover (fs.readSuper st.device))) 0 = b → inJournal fs device b ∧ b ≠ fs.superBlock)
    (jsb : Block) (hBlocks : b < fs.blocks) (hJournal : ¬ inJournal fs device b) :
    (finish fs .recover jsb st).device b =
      if b = fs.superBlock then fs.withRecover (st.device b) else st.device b := by
  unfold finish
  rw [if_neg nofun]
  dsimp only
  rw [put_other fs _ _ fun h => hJournal (hHome b h).1]
  unfold Fs.putSuper
  rw [put_apply fs _ _ _ hBlocks]
  by_cases hSuper : fs.superBlock = b
  · rw [if_pos hSuper, if_pos hSuper.symm, ← hSuper]
    rfl
  · rw [if_neg hSuper, if_neg fun h => hSuper h.symm]

/-
  The recovery replays, as they are in the journal, the
  transactions that it reads.
-/
theorem Reading.recovers {ring : Nat → Block} {ts₀ : List Transaction} {e₀ : Nat}
    (hReading : Reading fs st.device ring true ts e) (hLog : Log fs st.device ts₀ e₀)
    (hSb : needsRecovery st.sb = true) (hList : st.revkBlkList = []) :
    ∃ enough, ∀ fuel, enough ≤ fuel → ∃ st₁ st₂,
        ext4fsCheckJournalState fs fuel .scan st = some (0, st₁) ∧
        ext4fsCheckJournalState fs fuel .recover st₁ = some (0, st₂) ∧
        ∀ b, b < fs.blocks → ¬ inJournal fs st.device b →
          st₂.device b = unrestored fs st.device ts b := by
  rcases hReading.walks hLog.blksz hLog.started hSb .scan nofun with
    ⟨n₁, w₁, jsb₁, -, hApplied₁, hScan⟩
  have hSame : w₁.device = st.device := hApplied₁.scan rfl
  have hRevoked : w₁.revkBlkList = ts.flatMap Transaction.revokes := by
    rw [hApplied₁.revkBlkList, hList]
    rfl
  rw [hSame, hRevoked] at hScan
  have hSecond : Reading fs
      { st with revkBlkList := ts.flatMap Transaction.revokes }.device ring true ts e := hReading
  rcases hSecond.walks hLog.blksz hLog.started hSb .recover (fun _ => rfl) with
    ⟨n₂, w₂, jsb₂, hOld, hApplied₂, hRecover⟩
  refine ⟨max n₁ n₂, fun fuel hFuel => ?_⟩
  have hFirst := hScan fuel (by omega)
  have hNext := hRecover fuel (by omega)
  rw [if_pos rfl] at hFirst hNext
  refine ⟨_, _, hFirst, hNext, fun b hb hJournal => ?_⟩
  rw [finish_apply ?_ jsb₂ hb hJournal]
  · unfold unrestored
    dsimp only
    rw [hApplied₂.value rfl b hb]
  · intro b hb
    rw [hReading.home _ (putSuper_mixed hOld _)] at hb
    rcases hLog.present 0 hLog.positive with ⟨b', hAt, -, hSuper⟩
    have hEq : b' = b := Int.natCast_inj.mp (hAt.symm.trans hb)
    exact ⟨⟨0, hLog.positive, hb⟩, hEq ▸ hSuper⟩

theorem Reading.replays_iff {ring : Nat → Block} {ok : Bool} {ts₀ : List Transaction} {e₀ : Nat}
    (hReading : Reading fs st.device ring ok ts e) (hLog : Log fs st.device ts₀ e₀)
    (hSb : needsRecovery st.sb = true) (hList : st.revkBlkList = []) :
    Replays fs st ts₀ ↔ ok = true ∧ SayTheSame fs st.device ts₀ ts := by
  cases ok with
  | false =>
    refine ⟨?_, fun h => absurd h.1 Bool.false_ne_true⟩
    rintro ⟨n, hReplays⟩
    rcases hReading.walks hLog.blksz hLog.started hSb .scan nofun with ⟨n₁, w₁, jsb₁, -, -, hScan⟩
    have hNever := hScan (max n n₁) (by omega)
    rw [if_neg Bool.false_ne_true] at hNever
    rcases hReplays (max n n₁) (by omega) with ⟨st₁, -, hResult, -⟩
    exact absurd hResult (hNever st₁)
  | true =>
    rcases hReading.recovers hLog hSb hList with ⟨n, hRecovers⟩
    rw [and_iff_right rfl]
    constructor
    · rintro ⟨n', hReplays⟩ b hb hJournal buf hBuf
      rcases hRecovers (max n n') (by omega) with ⟨st₁, st₂, hScan, hRecover, hLeft⟩
      rcases hReplays (max n n') (by omega) with ⟨st₁', st₂', hScan', hRecover', hExpected⟩
      rw [hScan] at hScan'
      cases hScan'
      rw [hRecover] at hRecover'
      cases hRecover'
      exact (hLeft b hb hJournal).symm.trans (hExpected b hb hJournal buf hBuf)
    · intro hSame
      refine ⟨n, fun fuel hFuel => ?_⟩
      rcases hRecovers fuel hFuel with ⟨st₁, st₂, hScan, hRecover, hLeft⟩
      exact ⟨st₁, st₂, hScan, hRecover, fun b hb hJournal buf hBuf =>
        (hLeft b hb hJournal).trans (hSame b hb hJournal buf hBuf)⟩

/- A copy in force is in the journal as it is to be restored. -/
def Unescaped (fs : Fs) (device : Device) (ts : List Transaction) : Prop :=
  ∀ b, b < fs.blocks → ¬ inJournal fs device b →
    ∀ copy, RedoLog.last (ts.map Transaction.redo) b = some copy →
      (if b = fs.superBlock then fs.withRecover copy.raw else copy.raw) = copy.restored

theorem unescaped_iff : SayTheSame fs device ts (ts ++ [⟨[], []⟩]) ↔ Unescaped fs device ts := by
  refine forall_congr' fun b => forall_congr' fun _ => forall_congr' fun _ => ?_
  unfold expected unrestored
  rw [last_unfinished]
  cases RedoLog.last (ts.map Transaction.redo) b with
  | none =>
    refine ⟨fun _ => nofun, fun _ buf hBuf => ?_⟩
    split_ifs at hBuf with hSuper
    · cases hBuf
    · cases hBuf
      exact if_neg hSuper
  | some copy =>
    refine ⟨fun h copy' hCopy => ?_, fun h buf hBuf => ?_⟩
    · cases hCopy
      exact h _ rfl
    · cases hBuf
      exact h copy rfl

/-
  A log that the recovery reads is replayed if and only if no
  copy in force has an escaped magic number, or is one of the
  superblock without the flag of a recovery.  Any other log is
  replayed if and only if the recovery stops, and what it reads
  instead of the log says the same.
-/
theorem journal_replay (fs : Fs) (st : State) (ts : List Transaction) (e : Nat)
    (hLog : Log fs st.device ts e) (hSb : needsRecovery st.sb = true)
    (hList : st.revkBlkList = []) :
    (Handled fs st.device ts e → (Replays fs st ts ↔ Unescaped fs st.device ts)) ∧
    ∀ ring ok ts' e', Reading fs st.device ring ok ts' e' →
      (Replays fs st ts ↔ ok = true ∧ SayTheSame fs st.device ts ts') := by
  refine ⟨fun hHandled => ?_, fun ring ok ts' e' hReading => hReading.replays_iff hLog hSb hList⟩
  rcases hLog.reading hHandled with ⟨e', hReading⟩
  rw [hReading.replays_iff hLog hSb hList, and_iff_right rfl, unescaped_iff]

end Recovery

----
-- A Log Of One Transaction
----

/- A header, and zeros up to the end of the block. -/
def block (header : List UInt8) : Block :=
  header ++ List.replicate (1024 - header.length) 0

/- The journal has eight blocks, from block 10 on. -/
def smallFs : Fs :=
  { blksz := 1024
    blocks := 64
    readAllocatedBlock := fun _ i => 10 + i }

/-
  The log logs block 20, and starts where the journal's
  superblock says.
-/
def smallDevice (start : UInt8) : Device := fun b =>
  if b = 10 then
    block [0xc0, 0x3b, 0x39, 0x98, 0, 0, 0, 4, 0, 0, 0, 0,
      0, 0, 4, 0, 0, 0, 0, 8, 0, 0, 0, 1, 0, 0, 0, 1, 0, 0, 0, start]
  else if b = 10 + start.toNat then
    block [0xc0, 0x3b, 0x39, 0x98, 0, 0, 0, 1, 0, 0, 0, 1, 0, 0, 0, 20, 0, 0, 0, 10]
  else if b = 11 + start.toNat then List.replicate 1024 7
  else if b = 12 + start.toNat then
    block [0xc0, 0x3b, 0x39, 0x98, 0, 0, 0, 2, 0, 0, 0, 1]
  else List.replicate 1024 0

def smallState (start : UInt8) : State :=
  { device := smallDevice start
    sb := List.replicate 96 0 ++ 4 :: List.replicate 927 0
    revkBlkList := [] }

def smallLog : List Transaction :=
  [⟨[(20, ⟨10, List.replicate 1024 7⟩)], []⟩]

variable {start : UInt8}

theorem smallDevice_maxlen (hStart : start = 1 ∨ start = 3) :
    sMaxlen (smallFs.readJournal (smallDevice start) 0) = 8 := by
  rcases hStart with rfl | rfl
  · decide +kernel
  · decide +kernel

theorem smallDevice_laid (hStart : start = 1 ∨ start = 3) :
    Laid 1024 (ringOf smallFs (smallDevice start)) 1 0
      ⟨[(20, ⟨10, List.replicate 1024 7⟩)], []⟩ 0 2 [] [] := by
  have hLength : (tags 1024 (ringOf smallFs (smallDevice start) 0)).length = 1 := by
    rcases hStart with rfl | rfl
    all_goals decide +kernel
  refine
    { revokes := rfl
      before := .nil 0
      descriptor := ?_
      copies := ?_
      after := by rw [hLength]; exact .nil 2
      commit := ?_ }
  · rcases hStart with rfl | rfl
    all_goals exact ⟨by decide +kernel, by decide +kernel, by decide +kernel⟩
  · rcases hStart with rfl | rfl
    all_goals decide +kernel
  · rcases hStart with rfl | rfl
    all_goals exact ⟨by decide +kernel, by decide +kernel, by decide +kernel⟩

theorem smallDevice_log (hStart : start = 1 ∨ start = 3) :
    Log smallFs (smallDevice start) smallLog 3 := by
  have hMaxlen := smallDevice_maxlen hStart
  have hSequence : sSequence (smallFs.readJournal (smallDevice start) 0) = 1 := by
    rcases hStart with rfl | rfl
    all_goals decide +kernel
  refine
    { blksz := by decide
      present := ?_
      started := ?_
      positive := by omega
      layout := ?_
      outside := ?_
      stays := fun _ _ _ _ => rfl }
  · intro i hi
    refine ⟨10 + i, ?_, ?_, ?_⟩
    · exact (Int.natCast_add 10 i).symm
    · exact (show 10 + i < 64 by omega)
    · exact (show 10 + i ≠ 1 by omega)
  · rcases hStart with rfl | rfl
    all_goals decide +kernel
  · rw [hSequence]
    exact .cons (smallDevice_laid hStart) (.nil 2 3)
  · rintro t ht x hx ⟨i, hi, hAt⟩
    rw [hMaxlen] at hi
    rcases mem_singleton.mp ht with rfl
    rcases mem_singleton.mp hx with rfl
    have hTen : (10 + i : Int) = 20 := hAt
    omega

theorem smallLog_copy
    {b : Nat} {copy : Copy} (hLast : RedoLog.last (smallLog.map Transaction.redo) b = some copy) :
    20 = b ∧ ⟨10, List.replicate 1024 7⟩ = copy := by
  have hCases : (if 20 = b then
      some (⟨10, List.replicate 1024 7⟩ : Copy)
      else none) = some copy := hLast
  split_ifs at hCases with hTwenty
  · exact ⟨hTwenty, Option.some.inj hCases⟩

/- The log starts at the first block of the journal. -/
theorem journal_replay_from_first : Replays smallFs (smallState 1) smallLog := by
  have hLog : Log smallFs (smallState 1).device smallLog 3 := smallDevice_log (.inl rfl)
  have hHandled : Handled smallFs (smallState 1).device smallLog 3 := by
    refine
      { start := by decide +kernel
        stops := Or.inl ⟨?_, ?_⟩
        numbers := ?_ }
    · decide +kernel
    · decide +kernel
    · intro i j t t' _ ht' x _ hRevoked
      rcases mem_singleton.mp (mem_of_getElem? ht') with rfl
      cases hRevoked
  have hReplay := journal_replay smallFs (smallState 1) smallLog 3 hLog (by decide +kernel) rfl
  refine (hReplay.1 hHandled).mpr ?_
  intro b _ _ copy hLast
  rcases smallLog_copy hLast with ⟨rfl, rfl⟩
  rw [if_neg (by decide)]
  exact (if_neg (by decide)).symm

/- In the third block from there on, the recovery reads none. -/
theorem smallDevice_reading :
    Reading smallFs (smallDevice 3) (fun k => smallFs.readJournal (smallDevice 3) (1 + k)) true
      [⟨[], []⟩] 0 := by
  have hFirst : sFirst (smallFs.readJournal (smallDevice 3) 0) = 1 := by decide +kernel
  refine
    { taken := .stop (.nil 0) (show be32 _ 8 ≠ _ by decide +kernel)
      numbers := ?_
      steady := fun d hOld => ?_
      home := fun _ _ => rfl }
  · intro i j t t' ht _ x hx
    cases mem_singleton.mp (mem_of_getElem? ht)
    cases hx
  · have hSame : d = smallDevice 3 := by
      funext b
      rcases hOld b with hEq | ⟨t, ht, x, hx, -⟩
      · exact hEq
      · cases mem_singleton.mp ht
        cases hx
    rw [hSame, hFirst]
    exact ⟨nofun, rfl⟩

/-
  The same log from the third block on: the recovery does not
  look there.
-/
theorem journal_not_replayed_from_third :
    ∃ fs st ts e, Log fs st.device ts e ∧ needsRecovery st.sb = true ∧ st.revkBlkList = [] ∧
      ¬ Replays fs st ts := by
  have hLog : Log smallFs (smallState 3).device smallLog 3 := smallDevice_log (.inr rfl)
  have hSb : needsRecovery (smallState 3).sb = true := by decide +kernel
  refine ⟨smallFs, smallState 3, smallLog, 3, hLog, hSb, rfl, fun hReplays => ?_⟩
  have hReading : Reading smallFs (smallState 3).device _ true _ _ := smallDevice_reading
  have hSame := ((hReading.replays_iff hLog hSb rfl).mp hReplays).2
  have hOutside : ¬ inJournal smallFs (smallState 3).device 20 := by
    rintro ⟨i, hi, hAt⟩
    rw [show sMaxlen (smallFs.readJournal
      (smallState 3).device 0) = 8 from smallDevice_maxlen (.inr rfl)] at hi
    have hTen : (10 + i : Int) = 20 := hAt
    omega
  have hBoth := hSame 20 (by decide) hOutside (List.replicate 1024 7) (by decide +kernel)
  revert hBoth
  decide +kernel

end Uboot.Ext4
