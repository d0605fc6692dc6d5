import BootFirmware.Uboot.Dfu.Model
import Mathlib.Tactic.SplitIfs

/-
  What a download writes to a medium that accepts everything.

  The entity counts its blocks modulo `2 ^ 16`, and so do its
  callers, but for `dfu_write_from_mem_addr`.  That one fails
  at the first block after `2 ^ 16` of them.

  Key definitions include:
    * `Delivered`
    * `Running` and `Ready`

  The main results are:
    * `dfuWrite_ready`
    * `writeLeft_ready` and `writeLeft_long`
    * `download_delivers`
-/

----
-- What Is Delivered
----

namespace Uboot.Dfu

open List

/- The medium takes every chunk as a whole. -/
def Medium.Accepts (m : Medium) : Prop :=
  ∀ written chunk, m.writeMedium written chunk = (0, chunk.bytes.length)

/- The bytes of the chunks, one after the other. -/
def content (written : List Chunk) : List UInt8 :=
  (written.map Chunk.bytes).flatten

/- Every chunk starts where those before it end. -/
def Consecutive (written : List Chunk) : Prop :=
  ∀ before chunk after, written = before ++ chunk :: after →
    chunk.offset = (content before).length % 2 ^ 64

/- What holds of the log, whatever is in the buffer. -/
structure Logged (bufSize : Nat) (dfu : DfuEntity) : Prop where
  hChunks : ∀ chunk ∈ dfu.written, chunk.bytes.length ≤ bufSize
  hOffsets : Consecutive dfu.written
  hCopied : ∀ copy ∈ dfu.copied, copy.start + copy.size ≤ bufSize

/- There is no error, and the medium has the data. -/
structure Delivered
    (bufSize : Nat) (data : List UInt8)
    (r : Outcome) : Prop where
  hZero : r.1 = 0
  hContent : content r.2.written = data
  hLogged : Logged bufSize r.2

/- There is no transaction, and the log starts here. -/
structure Idle (dfu : DfuEntity) : Prop where
  hInited : dfu.inited = false
  hBuf : dfu.iBuf = []
  hWritten : dfu.written = []
  hCopied : dfu.copied = []

/- A transaction in which so many blocks have been received. -/
structure Running
    (bufSize blocks : Nat) (data : List UInt8)
    (dfu : DfuEntity) : Prop where
  hInited : dfu.inited = true
  hBufEnd : dfu.iBufEnd = bufSize
  hBlocks : dfu.iBlkSeqNum = (blocks % 2 ^ 16 : Nat)
  hBuf : dfu.iBuf.length ≤ bufSize
  hData : content dfu.written ++ dfu.iBuf = data
  hOffset : dfu.offset = (content dfu.written).length % 2 ^ 64
  hLogged : Logged bufSize dfu

inductive Ready (bufSize : Nat) : Nat → List UInt8 → DfuEntity → Prop
  | idle {dfu : DfuEntity} : Idle dfu → Ready bufSize 0 [] dfu
  | running {blocks : Nat} {data : List UInt8} {dfu : DfuEntity} :
      Running bufSize blocks data dfu → Ready bufSize blocks data dfu

----
-- Blocks
----

section Blocks

variable {m : Medium} {bufSize blocks : Nat} {data buf : List UInt8} {dfu : DfuEntity}

theorem Idle.ready (bufSize : Nat) (hIdle : Idle dfu) :
    Ready bufSize 0 [] dfu :=
  .idle hIdle

theorem Logged.same
    {dfu' : DfuEntity} (hLogged : Logged bufSize dfu) (hWritten : dfu'.written = dfu.written)
    (hCopied : dfu'.copied = dfu.copied) :
    Logged bufSize dfu' := by
  constructor
  · rw [hWritten]
    exact hLogged.hChunks
  · rw [hWritten]
    exact hLogged.hOffsets
  · rw [hCopied]
    exact hLogged.hCopied

theorem content_append (written written' : List Chunk) :
    content (written ++ written') = content written ++ content written' := by
  unfold content
  rw [map_append, flatten_append]

theorem Consecutive.append {written : List Chunk} {chunk : Chunk}
    (hOffsets : Consecutive written) (hOffset : chunk.offset = (content written).length % 2 ^ 64) :
    Consecutive (written ++ [chunk]) := by
  intro before c after hSplit
  rcases eq_nil_or_concat after with rfl | ⟨rest, x, rfl⟩
  · rcases append_inj' hSplit rfl with ⟨rfl, hSame⟩
    cases hSame
    exact hOffset
  · rw [concat_eq_append, ← cons_append, ← append_assoc] at hSplit
    exact hOffsets before c rest (append_inj' hSplit rfl).1

variable {r : Outcome}

theorem andThen_zero (f : DfuEntity → Outcome) (hZero : r.1 = 0) :
    r.andThen f = f r.2 :=
  if_pos hZero

theorem andThen_error (f : DfuEntity → Outcome) (hError : r.1 ≠ 0) :
    r.andThen f = r :=
  if_neg hError

/- What is in the buffer goes to the medium. -/
theorem Running.drain (hAccepts : m.Accepts) (hRunning : Running bufSize blocks data dfu) :
    (dfuWriteBufferDrain m dfu).1 = 0 ∧ Running bufSize blocks data (dfuWriteBufferDrain m dfu).2 ∧
      (dfuWriteBufferDrain m dfu).2.iBuf = [] := by
  unfold dfuWriteBufferDrain
  by_cases hEmpty : dfu.iBuf = []
  · rw [if_pos hEmpty]
    exact ⟨rfl, hRunning, hEmpty⟩
  · rw [if_neg hEmpty]
    simp only [hAccepts dfu.written ⟨dfu.offset, dfu.iBuf⟩]
    have hContent : content (dfu.written ++
        [⟨dfu.offset, dfu.iBuf⟩]) = content dfu.written ++ dfu.iBuf := by
      rw [content_append]
      unfold content
      rw [map_singleton, flatten_singleton]
    refine ⟨trivial, ⟨hRunning.hInited, hRunning.hBufEnd,
      hRunning.hBlocks, Nat.zero_le _, ?_, ?_, ?_, ?_, hRunning.hLogged.hCopied⟩, trivial⟩
    · rw [hContent, append_nil]
      exact hRunning.hData
    · rw [hContent, length_append, hRunning.hOffset]
      exact Nat.mod_add_mod _ _ _
    · intro chunk hChunk
      rcases mem_append.mp hChunk with hOld | hNew
      · exact hRunning.hLogged.hChunks chunk hOld
      · rw [mem_singleton.mp hNew]
        exact hRunning.hBuf
    · exact hRunning.hLogged.hOffsets.append hRunning.hOffset

theorem orCleanup_zero (hZero : r.1 = 0) :
    orCleanup r = r :=
  if_pos hZero

theorem Running.copy
    (buf : List UInt8) (hAccepts : m.Accepts) (hRunning : Running bufSize blocks data dfu)
    (hRoom : dfu.iBuf.length + buf.length ≤ bufSize) :
    (copyToBuffer m buf dfu).1 = 0 ∧
      Running bufSize blocks (data ++ buf) (copyToBuffer m buf dfu).2 := by
  have hCopied : Running bufSize blocks (data ++ buf)
      { dfu with
        iBuf := dfu.iBuf ++ buf
        copied := dfu.copied ++ [⟨dfu.iBuf.length, buf.length⟩] } := by
    refine ⟨hRunning.hInited, hRunning.hBufEnd, hRunning.hBlocks, ?_, ?_, hRunning.hOffset,
      hRunning.hLogged.hChunks, hRunning.hLogged.hOffsets, ?_⟩
    · rw [length_append]
      exact hRoom
    · rw [← append_assoc, hRunning.hData]
    · intro copy hCopy
      rcases mem_append.mp hCopy with hOld | hNew
      · exact hRunning.hLogged.hCopied copy hOld
      · rw [mem_singleton.mp hNew]
        exact hRoom
  have hDrain := hCopied.drain hAccepts
  unfold copyToBuffer
  simp only
  rw [if_neg (by rw [hRunning.hBufEnd]; exact Nat.not_lt.mpr hRoom)]
  split_ifs
  · rw [orCleanup_zero hDrain.1]
    exact ⟨hDrain.1, hDrain.2.1⟩
  · exact ⟨rfl, hCopied⟩

theorem Ready.initiate (hReady : Ready bufSize blocks data dfu) :
    Running bufSize blocks data (dfuTransactionInitiate bufSize dfu) := by
  unfold dfuTransactionInitiate
  cases hReady with
  | idle hIdle =>
    rw [hIdle.hInited, if_neg Bool.false_ne_true]
    refine ⟨rfl, rfl, rfl, Nat.zero_le _, ?_, ?_, ?_, ?_, ?_⟩
    · simp only [dfuTransactionCleanup, hIdle.hWritten]
      rfl
    · simp only [dfuTransactionCleanup, hIdle.hWritten]
      rfl
    · simp only [dfuTransactionCleanup, hIdle.hWritten]
      exact nofun
    · simp only [dfuTransactionCleanup, hIdle.hWritten]
      intro before chunk after hSplit
      exact absurd hSplit.symm (append_ne_nil_of_right_ne_nil
        before (cons_ne_nil chunk after))
    · simp only [dfuTransactionCleanup, hIdle.hCopied]
      exact nofun
  | running hRunning =>
    rw [hRunning.hInited, if_pos rfl]
    exact hRunning

/- The next block, which the buffer has room for. -/
theorem dfuWrite_ready {seq : Int} (hAccepts : m.Accepts) (hReady : Ready bufSize blocks data dfu)
    (hSeq : seq = (blocks % 2 ^ 16 : Nat)) (hSize : buf.length ≤ bufSize) :
    (dfuWrite m bufSize buf seq dfu).1 = 0 ∧
      Ready bufSize (blocks + 1) (data ++ buf) (dfuWrite m bufSize buf seq dfu).2 := by
  have hRunning := hReady.initiate
  unfold dfuWrite
  generalize dfuTransactionInitiate bufSize dfu = t at hRunning
  simp only
  rw [if_neg (not_not.mpr (hRunning.hBlocks.trans hSeq.symm))]
  have hNext : Running bufSize (blocks + 1) data
      { t with iBlkSeqNum := (t.iBlkSeqNum + 1) % 2 ^ 16 } := by
    refine ⟨hRunning.hInited, hRunning.hBufEnd, ?_, hRunning.hBuf, hRunning.hData, hRunning.hOffset,
      hRunning.hLogged.hChunks, hRunning.hLogged.hOffsets, hRunning.hLogged.hCopied⟩
    simp only [hRunning.hBlocks]
    omega
  have hDrain := hNext.drain hAccepts
  by_cases hFull : t.iBufEnd < t.iBuf.length + buf.length
  · rw [if_pos hFull, orCleanup_zero hDrain.1, andThen_zero _ hDrain.1]
    have hCopy := hDrain.2.1.copy buf hAccepts (by
      rw [hDrain.2.2]
      exact Nat.le_trans (Nat.le_of_eq (Nat.zero_add _)) hSize)
    exact ⟨hCopy.1, .running hCopy.2⟩
  · rw [if_neg hFull, andThen_zero _ rfl]
    rw [hRunning.hBufEnd] at hFull
    have hCopy := hNext.copy buf hAccepts (Nat.not_lt.mp hFull)
    exact ⟨hCopy.1, .running hCopy.2⟩

theorem dfuWrite_wrong
    {seq : Int} (m : Medium) (buf : List UInt8) (hReady : Ready bufSize blocks data dfu)
    (hSeq : seq ≠ (blocks % 2 ^ 16 : Nat)) :
    (dfuWrite m bufSize buf seq dfu).1 = -1 := by
  have hBlocks := hReady.initiate.hBlocks
  unfold dfuWrite
  simp only
  rw [if_pos (by rw [hBlocks]; exact hSeq.symm)]

section

variable (hAccepts : m.Accepts)
include hAccepts

/- What is left in the buffer is delivered as well. -/
theorem dfuFlush_delivered (hReady : Ready bufSize blocks data dfu) :
    (dfuFlush m dfu).1 = m.flushMedium.getD 0 ∧ content (dfuFlush m dfu).2.written = data ∧
      Logged bufSize (dfuFlush m dfu).2 := by
  unfold dfuFlush
  cases hReady with
  | idle hIdle =>
    have hDrain : dfuWriteBufferDrain m dfu = (0, dfu) := by
      unfold dfuWriteBufferDrain
      rw [if_pos hIdle.hBuf]
    rw [hDrain, andThen_zero _ rfl]
    have hLogged := (hIdle.ready bufSize).initiate.hLogged
    unfold dfuTransactionInitiate at hLogged
    rw [hIdle.hInited, if_neg Bool.false_ne_true] at hLogged
    refine ⟨rfl, ?_, hLogged.same rfl rfl⟩
    simp only [dfuTransactionCleanup, hIdle.hWritten]
    rfl
  | running hRunning =>
    rcases hRunning.drain hAccepts with ⟨hZero, hAfter, hEmpty⟩
    rw [andThen_zero _ hZero]
    have hData := hAfter.hData
    rw [hEmpty, append_nil] at hData
    exact ⟨rfl, hData, hAfter.hLogged.same rfl rfl⟩

----
-- Loops
----

variable {left : List UInt8}

/- As many blocks as the entity can count. -/
theorem writeLeft_ready (steps : Nat) (hReady : Ready bufSize blocks data dfu)
    (hSteps : left.length ≤ steps) (hPos : 1 ≤ bufSize)
    (hFew : left.length ≤ (2 ^ 16 - blocks) * bufSize) :
    (writeLeft m bufSize steps blocks left dfu).1 = 0 ∧
      ∃ n, Ready bufSize n (data ++ left) (writeLeft m bufSize steps blocks left dfu).2 := by
  induction steps generalizing left blocks data dfu with
  | zero =>
    rw [eq_nil_of_length_eq_zero (Nat.le_zero.mp hSteps), append_nil]
    exact ⟨rfl, blocks, hReady⟩
  | succ steps ih =>
    unfold writeLeft
    by_cases hEnd : left = []
    · rw [if_pos hEnd, hEnd, append_nil]
      exact ⟨rfl, blocks, hReady⟩
    · have hSome := length_pos_iff.mpr hEnd
      have hBlocks : blocks < 2 ^ 16 := by
        by_contra hMany
        rw [Nat.sub_eq_zero_of_le (Nat.not_lt.mp hMany), Nat.zero_mul] at hFew
        omega
      have hTake : (left.take bufSize).length ≤ bufSize := length_take_le _ _
      rcases dfuWrite_ready hAccepts hReady (congrArg Nat.cast (Nat.mod_eq_of_lt hBlocks).symm)
          hTake with ⟨hZero, hNext⟩
      have hLength : (left.drop bufSize).length ≤ steps := by
        rw [length_drop]
        omega
      have hFewer : (left.drop bufSize).length ≤ (2 ^ 16 - (blocks + 1)) * bufSize := by
        rw [show 2 ^ 16 - blocks = 2 ^ 16 - (blocks + 1) + 1 by omega, Nat.succ_mul] at hFew
        rw [length_drop]
        exact Nat.sub_le_of_le_add hFew
      have hRest := ih hNext hLength hFewer
      rw [append_assoc, take_append_drop] at hRest
      rw [if_neg hEnd, andThen_zero _ hZero]
      exact hRest

/- With more, the count of the entity is back at zero. -/
theorem writeLeft_long (steps : Nat) (hReady : Ready bufSize blocks data dfu)
    (hSteps : left.length ≤ steps) (hPos : 1 ≤ bufSize) (hBlocks : blocks ≤ 2 ^ 16)
    (hMany : (2 ^ 16 - blocks) * bufSize < left.length) :
    (writeLeft m bufSize steps blocks left dfu).1 = -1 := by
  induction steps generalizing left blocks data dfu with
  | zero => omega
  | succ steps ih =>
    unfold writeLeft
    have hEnd : left ≠ [] := length_pos_iff.mp (Nat.lt_of_le_of_lt (Nat.zero_le _) hMany)
    rw [if_neg hEnd]
    rcases Nat.lt_or_eq_of_le hBlocks with hLess | hEq
    · have hTake : (left.take bufSize).length ≤ bufSize := length_take_le _ _
      rcases dfuWrite_ready hAccepts hReady (congrArg Nat.cast (Nat.mod_eq_of_lt hLess).symm)
          hTake with ⟨hZero, hNext⟩
      rw [andThen_zero _ hZero]
      refine ih hNext ?_ hLess ?_
      · rw [length_drop]
        omega
      · rw [length_drop]
        rw [show 2 ^ 16 - blocks = 2 ^ 16 - (blocks + 1) + 1 by omega, Nat.succ_mul] at hMany
        exact Nat.lt_sub_of_add_lt hMany
    · have hSeq : (blocks : Int) ≠ (blocks % 2 ^ 16 : Nat) := by
        rw [hEq]
        decide
      have hWrong := dfuWrite_wrong m (left.take bufSize) hReady hSeq
      rw [andThen_error _ (by rw [hWrong]; decide)]
      exact hWrong

theorem writeBlocks_ready (bufs : List (List UInt8)) (hReady : Ready bufSize blocks data dfu)
    (hSizes : ∀ b ∈ bufs, b.length ≤ bufSize) :
    (writeBlocks m bufSize blocks bufs dfu).1 = 0 ∧
      ∃ n, Ready bufSize n (data ++ bufs.flatten) (writeBlocks m bufSize blocks bufs dfu).2 := by
  induction bufs generalizing blocks data dfu with
  | nil =>
    rw [flatten_nil, append_nil]
    exact ⟨rfl, blocks, hReady⟩
  | cons buf rest ih =>
    rcases dfuWrite_ready hAccepts hReady rfl (hSizes buf mem_cons_self) with ⟨hZero, hNext⟩
    have hRest := ih hNext fun b hb => hSizes b (mem_cons_of_mem buf hb)
    rw [append_assoc, ← flatten_cons] at hRest
    unfold writeBlocks
    rw [andThen_zero _ hZero]
    exact hRest

----
-- Downloads
----

/- The end of a download decides whether it succeeds. -/
theorem delivered_flush (hReady : Ready bufSize blocks data dfu) :
    Delivered bufSize data (dfuFlush m dfu) ↔ m.flushMedium.getD 0 = 0 := by
  rcases dfuFlush_delivered hAccepts hReady with ⟨hResult, hContent, hLogged⟩
  constructor
  · intro hDelivered
    rw [← hResult]
    exact hDelivered.hZero
  · intro hZero
    exact ⟨hResult.trans hZero, hContent, hLogged⟩

/- Too many blocks for the entity to count. -/
theorem dfuWriteFromMemAddr_long
    (hPos : 1 ≤ bufSize) (hIdle : Idle dfu) (hMany : 2 ^ 16 * bufSize < data.length) :
    (dfuWriteFromMemAddr m bufSize data dfu).1 = -1 := by
  have hLong : (writeLeft m bufSize data.length 0 data dfu).1 = -1 :=
    writeLeft_long hAccepts data.length (hIdle.ready bufSize) (Nat.le_refl _)
      hPos (Nat.zero_le _) hMany
  unfold dfuWriteFromMemAddr
  rw [andThen_error _ (by
    rw [hLong]
    decide)]
  exact hLong

end

end Blocks

/- A medium that takes everything. -/
def acceptingMedium : Medium where
  writeMedium _ chunk := (0, chunk.bytes.length)
  flushMedium := none

def idleEntity : DfuEntity where
  offset := 0
  iBlkSeqNum := 0
  iBuf := []
  iBufEnd := 0
  inited := false
  copied := []
  written := []

end Uboot.Dfu
