import BootFirmware.Uboot.CTypes
import Mathlib.Data.List.Basic
import Mathlib.Tactic.SplitIfs

/-
  Uploads of device firmware: the medium is read into a
  buffer, and the buffer is handed out in blocks.

  What is left in the buffer is set before the medium is
  read, and stays when that fails; and the bytes that the
  failing call has taken are not handed out again.  An error
  that is positive passes for a count of bytes.

  Key definitions include:
    * `Source`, `Answer` and `UploadEntity`
    * `dfuReadBufferFill` and `dfuRead`
    * `Undisturbed` and `Exact`

  The main results are:
    * `Filled.fill`
    * `dfu_upload_exact`
-/

----
-- The Entity
----

namespace Uboot.Dfu

open List Option

/- What is on the medium, and the size of the buffer. -/
structure Source where
  contents : List UInt8
  bufSize : Nat

/- `i_buf` is a place in the buffer. -/
structure UploadEntity where
  offset : Nat
  iBlkSeqNum : Nat
  buffer : Nat → UInt8
  iBuf : Nat
  rLeft : Nat
  bLeft : Nat
  inited : Bool

/-
  What `read_medium` does: it delivers some bytes, or it
  returns an error, which is not zero, and leaves anything as
  the length and in the buffer.
-/
inductive Answer where
  | deliver (n : Nat)
  | fail (ret : Int) (len : Nat) (buffer : Nat → UInt8)

/-
  A block that is asked for, what is in its place before, and
  how the medium behaves.
-/
structure ReadCall where
  size : Nat
  buf : Nat → UInt8
  answers : List Answer

/- What was copied, and the error that has ended the loop. -/
structure Fill where
  copied : List UInt8
  error : Option Int
  dfu : UploadEntity

def uploadCleanup (dfu : UploadEntity) : UploadEntity :=
  { dfu with
    offset := 0
    iBlkSeqNum := 0
    iBuf := 0
    rLeft := 0
    bLeft := 0
    inited := false }

/- `dfu_transaction_initiate` for reading. -/
def uploadInitiate (m : Source) (dfu : UploadEntity) :
    UploadEntity :=
  if dfu.inited then dfu
  else
    { uploadCleanup dfu with
      rLeft := m.contents.length
      inited := true }

/- Take what is in the buffer. -/
def takeChunk (dfu : UploadEntity) (chunk : Nat) : List UInt8 × UploadEntity :=
  ((List.range chunk).map fun i => dfu.buffer (dfu.iBuf + i),
    { dfu with
      iBuf := dfu.iBuf + chunk
      bLeft := dfu.bLeft - chunk })

/- How much of the buffer is to be filled. -/
def request (m : Source) (dfu : UploadEntity) : Nat :=
  min m.bufSize dfu.rLeft

/-
  The loop.  It reads the medium once for each of the answers,
  which is from one byte to what was asked for.
-/
def dfuReadBufferFill (m : Source) : List Answer → Nat → UploadEntity → Option Fill
  | answers, size, dfu =>
    let (bytes, dfu) := takeChunk dfu (min size dfu.bLeft)
    let size := size - bytes.length
    if size = 0 ∨ dfu.rLeft = 0 then
      if answers = [] then some ⟨bytes, none, dfu⟩ else none
    else
      match answers with
      | [] => none
      | .fail ret len buffer :: rest =>
        if ret ≠ 0 ∧ rest = [] then
          some ⟨bytes, some ret,
            { dfu with
              iBuf := 0, bLeft := len, buffer := buffer }⟩
        else none
      | .deliver n :: rest =>
        if 1 ≤ n ∧ n ≤ request m dfu then
          (dfuReadBufferFill m rest size
            { dfu with
              iBuf := 0
              bLeft := n
              buffer := fun i =>
                if i < n then
                  m.contents.getD (dfu.offset + i) 0
                else dfu.buffer i
              offset := dfu.offset + n
              rLeft := dfu.rLeft - n }).map
            fun r => { r with copied := bytes ++ r.copied }
        else none

/- What the loop returns: the count of bytes, or the error. -/
def Fill.ret (r : Fill) : Int :=
  r.error.getD r.copied.length

/- So many bytes of the block after the call. -/
def Fill.block (r : Fill) (buf : Nat → UInt8) (n : Nat) : List UInt8 :=
  (List.range n).map fun i => r.copied.getD i (buf i)

/- The bytes that the call returns, or none where it fails. -/
def dfuRead (m : Source) (call : ReadCall) (blkSeqNum : Nat)
    (dfu : UploadEntity) :
    Option (Option (List UInt8) × UploadEntity) :=
  let dfu := uploadInitiate m dfu
  if dfu.iBlkSeqNum ≠ blkSeqNum then some (none, dfu)
  else
    let dfu := { dfu with iBlkSeqNum := (dfu.iBlkSeqNum + 1) % 2 ^ 16 }
    (dfuReadBufferFill m call.answers call.size dfu).map fun r =>
      if r.ret < 0 then (none, r.dfu)
      else
        (some (r.block call.buf r.ret.toNat),
          if r.ret < (call.size : Int) then uploadCleanup r.dfu else r.dfu)

----
-- Runs
----

/- The sequence number that the next call has to have. -/
def UploadEntity.expected (dfu : UploadEntity) : Nat :=
  if dfu.inited then dfu.iBlkSeqNum else 0

/-
  The bytes that follow so many ones of the medium, and fewer
  than were asked for at its end only.
-/
structure Next
    (m : Source) (pos size : Nat)
    (bytes : List UInt8) : Prop where
  bytes_eq : bytes = (m.contents.drop pos).take bytes.length
  length_le : bytes.length ≤ size
  short : bytes.length < size → pos + bytes.length = m.contents.length

/-
  In calls with the right sequence numbers, each one that
  succeeds has the bytes that follow those handed out so far.
-/
def Exact (m : Source) : Nat → UploadEntity → List ReadCall → Prop
  | _, _, [] => True
  | pos, dfu, call :: rest =>
    ∀ r dfu', dfuRead m call dfu.expected dfu = some (r, dfu') →
        match r with
        | none => Exact m pos dfu' rest
        | some bytes =>
          Next m pos call.size bytes ∧ Exact m
              (if bytes.length < call.size then 0
                else pos + bytes.length)
              dfu' rest

/- A medium that does not fail, or with no harm done. -/
def Harmless (dfu : UploadEntity)
    (answers : List Answer) : Prop :=
  (∀ a ∈ answers, ∃ n, a = .deliver n) ∨
    dfu.bLeft = 0 ∧ ∃ ret buffer, answers = [.fail ret 0 buffer]

/- Every error of the medium is negative. -/
def Negative (answers : List Answer) : Prop :=
  ∀ a ∈ answers, ∀ ret len buffer, a = .fail ret len buffer → ret < 0

/-
  No error is positive, and only the last call may be one that
  fails with some harm.
-/
def Undisturbed (m : Source) : UploadEntity → List ReadCall → Prop
  | _, [] => True
  | dfu, call :: rest =>
    Negative call.answers ∧ (rest = [] ∨ Harmless (uploadInitiate m dfu) call.answers ∧
          ∀ r dfu', dfuRead m call dfu.expected dfu = some (r, dfu') → Undisturbed m dfu' rest)

/- What is in the buffer is what follows on the medium. -/
structure Filled
    (m : Source) (pos : Nat)
    (dfu : UploadEntity) : Prop where
  inited : dfu.inited = true
  offset : dfu.offset = pos + dfu.bLeft
  left : dfu.offset + dfu.rLeft = m.contents.length
  buffer : ∀ i < dfu.bLeft, dfu.buffer (dfu.iBuf + i) = m.contents.getD (pos + i) 0

section Filling

variable {m : Source} {pos : Nat} {dfu dfu' : UploadEntity}

theorem drop_take_eq_map {n : Nat} (hLe : pos + n ≤ m.contents.length) :
    (m.contents.drop pos).take n = (List.range n).map fun i => m.contents.getD (pos + i) 0 := by
  refine ext_getElem ?_ ?_
  · simp
    omega
  · intro i hi hi'
    simp at hi
    simp [getElem?_eq_getElem (by omega : pos + i < m.contents.length)]

/- What is taken from the buffer. -/
theorem Filled.take (hFilled : Filled m pos dfu) {chunk : Nat} (hLe : chunk ≤ dfu.bLeft) :
    (takeChunk dfu chunk).1 = (m.contents.drop pos).take chunk ∧
      (takeChunk dfu chunk).1.length = chunk ∧ Filled m (pos + chunk) (takeChunk dfu chunk).2 := by
  have hOffset := hFilled.offset
  have hLeft := hFilled.left
  refine ⟨?_, by simp [takeChunk], ?_⟩
  · rw [drop_take_eq_map (by omega)]
    refine map_congr_left fun i hi => ?_
    have hLt := mem_range.mp hi
    exact hFilled.buffer i (by omega)
  · refine ⟨hFilled.inited, ?_, hLeft, ?_⟩
    · change dfu.offset = pos + chunk + (dfu.bLeft - chunk)
      omega
    · intro i hi
      change i < dfu.bLeft - chunk at hi
      change dfu.buffer (dfu.iBuf + chunk + i) = _
      rw [Nat.add_assoc, hFilled.buffer _ (by omega), Nat.add_assoc]

theorem Next.append {size : Nat} {bytes bytes' : List UInt8}
    (hFirst : bytes = (m.contents.drop pos).take bytes.length) (hLe : bytes.length ≤ size)
    (hNext : Next m (pos + bytes.length) (size - bytes.length) bytes') :
    Next m pos size (bytes ++ bytes') := by
  refine ⟨?_, ?_, fun hShort => ?_⟩
  · rw [length_append, take_add, drop_drop, ← hNext.bytes_eq, ← hFirst]
  · have := hNext.length_le
    rw [length_append]
    omega
  · rw [length_append] at hShort ⊢
    rw [← Nat.add_assoc]
    exact hNext.short (by omega)

section

variable (hFilled : Filled m pos dfu)
include hFilled

/- The medium is read where the buffer is empty. -/
theorem Filled.deliver (hEmpty : dfu.bLeft = 0) {n : Nat} (hFits : n ≤ request m dfu) :
    Filled m pos
      { dfu with
        iBuf := 0
        bLeft := n
        buffer := fun i =>
          if i < n then m.contents.getD (dfu.offset + i) 0
          else dfu.buffer i
        offset := dfu.offset + n
        rLeft := dfu.rLeft - n } := by
  have hOffset := hFilled.offset
  have hLeft := hFilled.left
  have hRoom : n ≤ dfu.rLeft := Nat.le_trans hFits (Nat.min_le_right _ _)
  refine ⟨hFilled.inited, ?_, ?_, fun i hi => ?_⟩
  · change dfu.offset + n = pos + n
    omega
  · change dfu.offset + n + (dfu.rLeft - n) = _
    omega
  · change (if 0 + i < n then _ else _) = _
    rw [Nat.zero_add, if_pos hi, hOffset, hEmpty, Nat.add_zero]

/- What is taken before the medium is read empties it. -/
theorem Filled.taken (size : Nat) :
    ∃ bytes dfu₁, takeChunk dfu (min size dfu.bLeft) = (bytes, dfu₁) ∧
        bytes = (m.contents.drop pos).take bytes.length ∧ bytes.length ≤ size ∧
        (size - bytes.length ≠ 0 → dfu₁.bLeft = 0) ∧ Filled m (pos + bytes.length) dfu₁ := by
  rcases hFilled.take (Nat.min_le_right size dfu.bLeft) with ⟨hBytes, hLength, hRest⟩
  refine ⟨(takeChunk dfu (min size dfu.bLeft)).1,
    (takeChunk dfu (min size dfu.bLeft)).2, rfl, ?_, ?_, fun hMore => ?_, ?_⟩
  · rwa [hLength]
  · rw [hLength]
    exact Nat.min_le_left _ _
  · rw [hLength] at hMore
    change dfu.bLeft - min size dfu.bLeft = 0
    omega
  · rwa [hLength]

/- A call that succeeds. -/
theorem Filled.fill {answers : List Answer} {size : Nat} {r : Fill}
    (hRun : dfuReadBufferFill m answers size dfu = some r) (hOk : r.error = none) :
    Next m pos size r.copied ∧ Filled m (pos + r.copied.length) r.dfu := by
  induction answers generalizing pos size dfu r with
  | nil =>
    rcases hFilled.taken size with ⟨bytes₁, dfu₁, hTake, hBytes, hLe, hEmpty, hRest⟩
    rw [dfuReadBufferFill, hTake] at hRun
    dsimp only at hRun
    split_ifs at hRun with hDone
    cases hRun
    refine ⟨⟨hBytes, hLe, fun hShort => ?_⟩, hRest⟩
    have hOffset := hRest.offset
    have hLeft := hRest.left
    change bytes₁.length < size at hShort
    change pos + bytes₁.length = m.contents.length
    rw [hEmpty (by omega)] at hOffset
    omega
  | cons answer rest ih =>
    rcases hFilled.taken size with ⟨bytes₁, dfu₁, hTake, hBytes, hLe, hEmpty, hRest⟩
    rw [dfuReadBufferFill, hTake] at hRun
    dsimp only at hRun
    by_cases hDone : size - bytes₁.length = 0 ∨ dfu₁.rLeft = 0
    · rw [if_pos hDone, if_neg (cons_ne_nil _ _)] at hRun
      cases hRun
    rw [if_neg hDone] at hRun
    cases answer with
    | fail ret len buffer =>
      dsimp only at hRun
      split_ifs at hRun
      cases hRun
      cases hOk
    | deliver n =>
      dsimp only at hRun
      split_ifs at hRun with hFits
      rcases map_eq_some_iff.mp hRun with ⟨r', hGo, rfl⟩
      have hNone := hEmpty fun h => hDone (Or.inl h)
      rcases ih (hRest.deliver hNone hFits.2) hGo hOk with ⟨hNext, hEnd⟩
      refine ⟨hNext.append hBytes hLe, ?_⟩
      rwa [length_append, ← Nat.add_assoc]

end

variable {answers : List Answer}

theorem fill_error {size : Nat} {r : Fill} {ret : Int}
    (hRun : dfuReadBufferFill m answers size dfu = some r) (hError : r.error = some ret) :
    ∃ len buffer, .fail ret len buffer ∈ answers := by
  induction answers generalizing size dfu r with
  | nil =>
    rw [dfuReadBufferFill] at hRun
    dsimp only at hRun
    split_ifs at hRun
    cases hRun
    cases hError
  | cons answer rest ih =>
    rw [dfuReadBufferFill] at hRun
    dsimp only at hRun
    rw [if_neg (cons_ne_nil _ _)] at hRun
    cases answer with
    | fail ret' len buffer =>
      dsimp only at hRun
      split_ifs at hRun
      cases hRun
      cases hError
      exact ⟨len, buffer, mem_cons_self⟩
    | deliver n =>
      dsimp only at hRun
      split_ifs at hRun
      rcases map_eq_some_iff.mp hRun with ⟨r', hGo, rfl⟩
      rcases ih hGo hError with ⟨len, buffer, hMem⟩
      exact ⟨len, buffer, mem_cons_of_mem _ hMem⟩

/- A call that fails without any harm. -/
theorem Filled.fill_none (hFilled : Filled m pos dfu) (hHarmless : Harmless dfu answers)
    {size : Nat} {r : Fill} {ret : Int}
    (hRun : dfuReadBufferFill m answers size dfu = some r) (hError : r.error = some ret) :
    Filled m pos r.dfu := by
  rcases hHarmless with hDeliver | ⟨hEmpty, code, buffer, rfl⟩
  · rcases fill_error hRun hError with ⟨len, buffer, hMem⟩
    rcases hDeliver _ hMem with ⟨n, hn⟩
    cases hn
  rw [dfuReadBufferFill] at hRun
  dsimp only at hRun
  rw [if_neg (cons_ne_nil _ _)] at hRun
  split_ifs at hRun
  cases hRun
  have hOffset := hFilled.offset
  rw [hEmpty] at hOffset
  exact ⟨hFilled.inited, hOffset, hFilled.left, nofun⟩

/- Without an error what was copied is returned. -/
theorem block_copied (r : Fill) (buf : Nat → UInt8) :
    r.block buf r.copied.length = r.copied := by
  unfold Fill.block
  refine ext_getElem (by simp) fun i hi hi' => ?_
  simp [getElem?_eq_getElem hi']

/- An entity at the start of an upload, or in one. -/
def Going (m : Source) (pos : Nat)
    (dfu : UploadEntity) : Prop :=
  dfu.inited = false ∧ pos = 0 ∨ Filled m pos dfu

theorem Going.initiate (hGoing : Going m pos dfu) :
    Filled m pos (uploadInitiate m dfu) ∧ (uploadInitiate m dfu).iBlkSeqNum = dfu.expected := by
  unfold uploadInitiate UploadEntity.expected
  rcases hGoing with ⟨hIdle, rfl⟩ | hFilled
  · rw [hIdle, if_neg Bool.false_ne_true, if_neg Bool.false_ne_true]
    exact ⟨⟨rfl, rfl, Nat.zero_add _, nofun⟩, rfl⟩
  · rw [hFilled.inited, if_pos rfl, if_pos rfl]
    exact ⟨hFilled, rfl⟩

/- One call, with the sequence number that is expected. -/
theorem Going.read (hGoing : Going m pos dfu) {call : ReadCall} {r : Option (List UInt8)}
    (hNegative : Negative call.answers) (hRun : dfuRead m call dfu.expected dfu = some (r, dfu')) :
    (∀ bytes, r = some bytes → Next m pos call.size bytes ∧ Going m
          (if bytes.length < call.size then 0
            else pos + bytes.length)
          dfu') ∧
      (r = none → Harmless (uploadInitiate m dfu) call.answers → Going m pos dfu') := by
  rcases hGoing.initiate with ⟨hFilled, hNumber⟩
  have hStart :
      Filled m pos
        { uploadInitiate m dfu with
          iBlkSeqNum := ((uploadInitiate m dfu).iBlkSeqNum + 1) % 2 ^ 16 } :=
    ⟨hFilled.inited, hFilled.offset, hFilled.left, hFilled.buffer⟩
  rw [dfuRead] at hRun
  rw [if_neg (not_not.mpr hNumber)] at hRun
  rcases map_eq_some_iff.mp hRun with ⟨f, hFill, hEq⟩
  cases hError : f.error with
  | some ret =>
    rcases fill_error hFill hError with ⟨len, buffer, hMem⟩
    have hRet : f.ret = ret := by rw [Fill.ret, hError, getD_some]
    rw [hRet, if_pos (hNegative _ hMem ret len buffer rfl)] at hEq
    cases hEq
    exact ⟨nofun, fun _ hHarmless => Or.inr (hStart.fill_none hHarmless hFill hError)⟩
  | none =>
    rcases hStart.fill hFill hError with ⟨hNext, hEnd⟩
    have hRet : f.ret = f.copied.length := by rw [Fill.ret, hError, getD_none]
    rw [hRet, if_neg (Int.not_lt.mpr (Int.natCast_nonneg _)), Int.toNat_natCast, block_copied] at hEq
    cases hEq
    refine ⟨fun bytes hBytes => ?_, nofun⟩
    cases hBytes
    refine ⟨hNext, ?_⟩
    by_cases hShort : f.copied.length < call.size
    · rw [if_pos hShort, if_pos (Int.ofNat_lt.mpr hShort)]
      exact Or.inl ⟨rfl, rfl⟩
    · rw [if_neg hShort, if_neg (mt Int.ofNat_lt.mp hShort)]
      exact Or.inr hEnd

theorem Going.exact
    (hGoing : Going m pos dfu) {calls : List ReadCall} (hCalls : Undisturbed m dfu calls) :
    Exact m pos dfu calls := by
  induction calls generalizing pos dfu with
  | nil => exact trivial
  | cons call rest ih =>
    intro r dfu' hRun
    rcases hCalls with ⟨hNegative, hLast⟩
    rcases hGoing.read hNegative hRun with ⟨hSuccess, hFailure⟩
    rcases hLast with rfl | ⟨hHarmless, hRest⟩
    · cases r with
      | none => exact trivial
      | some bytes => exact ⟨(hSuccess bytes rfl).1, trivial⟩
    · cases r with
      | none => exact ih (hFailure rfl hHarmless) (hRest _ dfu' hRun)
      | some bytes => exact ⟨(hSuccess bytes rfl).1, ih (hSuccess bytes rfl).2 (hRest _ dfu' hRun)⟩

end Filling

/-
  Whatever the medium has and does, the calls are exact as
  long as no error is positive and none follows one that
  failed with some harm.
-/
theorem dfu_upload_exact (m : Source) (dfu : UploadEntity) (hIdle : dfu.inited = false)
    (calls : List ReadCall) (hCalls : Undisturbed m dfu calls) :
    Exact m 0 dfu calls :=
  Going.exact (Or.inl ⟨hIdle, rfl⟩) hCalls

/- Five bytes on the medium, and three in the buffer. -/
def fiveBytes : Source where
  contents := [1, 2, 3, 4, 5]
  bufSize := 3

def idleUpload : UploadEntity where
  offset := 0
  iBlkSeqNum := 0
  buffer := fun _ => 0
  iBuf := 0
  rLeft := 0
  bLeft := 0
  inited := false

/- Two blocks, with a failure before the first byte of them. -/
def twoBlocks : List ReadCall :=
  [⟨2, fun _ => 0, [.fail (-1) 0 fun _ => 0]⟩, ⟨2, fun _ => 0, [.deliver 3]⟩]

theorem dfu_upload_exact_two :
    Exact fiveBytes 0 idleUpload twoBlocks ∧
      (dfuRead fiveBytes ⟨2, fun _ => 0, [.deliver 3]⟩ 0 idleUpload).map Prod.fst = some (some [1, 2]) := by
  have hFailed : Negative [.fail (-1) 0 fun _ => 0] := by
    intro answer hMem ret len buffer hFail
    cases mem_singleton.mp hMem
    cases hFail
    decide
  have hDelivered : Negative [.deliver 3] := by
    intro answer hMem ret len buffer hFail
    cases mem_singleton.mp hMem
    cases hFail
  exact ⟨dfu_upload_exact fiveBytes idleUpload rfl twoBlocks
    ⟨hFailed, Or.inr ⟨Or.inr ⟨rfl, _, _, rfl⟩, fun _ _ _ => ⟨hDelivered, Or.inl rfl⟩⟩⟩, rfl⟩

/- What a failure at the end of the buffer leaves. -/
def failedUpload : UploadEntity where
  offset := 3
  iBlkSeqNum := 1
  buffer := fun _ => 0
  iBuf := 0
  rLeft := 2
  bLeft := 2
  inited := true

/-
  The first call fails at the end of the buffer; the second
  one then gives two bytes that were never on the medium.
-/
theorem dfu_upload_stale :
    dfuRead fiveBytes ⟨4, fun _ => 0, [.deliver 3, .fail (-1) 2 fun _ => 0]⟩ 0 idleUpload =
        some (none, failedUpload) ∧
      (dfuRead fiveBytes ⟨2, fun _ => 0, []⟩ 1 failedUpload).map Prod.fst = some (some [0, 0]) ∧
      ¬ Exact fiveBytes 0 idleUpload [⟨4, fun _ => 0, [.deliver 3, .fail (-1) 2 fun _ => 0]⟩, ⟨2, fun _ => 0, []⟩] := by
  refine ⟨rfl, rfl, fun hExact => ?_⟩
  have hRest : Exact fiveBytes 0 failedUpload [⟨2, fun _ => 0, []⟩] := hExact none failedUpload rfl
  have hStale := (hRest (some [0, 0]) _ rfl).1
  exact absurd hStale.bytes_eq (by decide)

end Uboot.Dfu
