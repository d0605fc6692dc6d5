import BootFirmware.Lib.TransitionSystem
import BootFirmware.Uboot.Tftp.Model

/-
  Files that the client saves on a server.

  The server answers the request with its options, or with an
  acknowledgement of block 0, and acknowledges blocks that it
  got.  The network loses, repeats, delays and reorders what
  it sends.

  Key definitions include:
    * `PutState` and `putStep`
    * `PutOk`

  The main results are:
    * `tftp_put_sends_file`
    * `tftp_put_completes_early`
-/

----
-- The Transfer
----

namespace Uboot.Tftp

/- A server, which may know the options of the request. -/
structure Server where
  options : Bool
  blksize : Nat
  blksize_pos : 0 < blksize
  blksize_lt : blksize < TFTP_SEQUENCE_SIZE

/- A packet of data, sent as the block `index`. -/
structure Sent where
  index : Nat
  block : Nat
  bytes : List UInt8
deriving DecidableEq, Repr

/-
  The client, the block that it has come to, the packets of
  data that it sent, and the blocks whose acknowledgements it
  got.
-/
structure PutState where
  client : Client
  index : Nat
  sent : List Sent
  acks : List Nat

inductive PutStep where
  | oack
  | ack (index : Nat)
  | timeout
deriving DecidableEq, Repr

/- The client replies while it is at the block `index`. -/
def PutState.replied (s : PutState) (index : Nat) (acks : List Nat) (r : Reply) :
    PutState where
  client := r.1
  index := index
  sent :=
    match r.2 with
    | some (.data block bytes) => ⟨index, block, bytes⟩ :: s.sent
    | _ => s.sent
  acks := acks

/- What the server can have acknowledged. -/
def PutState.Acked (server : Server) (s : PutState)
    (index : Nat) : Prop :=
  if index = 0 then server.options = false
  else ∃ packet ∈ s.sent, packet.index = index

instance (server : Server) (s : PutState) (index : Nat) : Decidable (s.Acked server index) :=
  inferInstanceAs (Decidable (if index = 0 then
    server.options = false
    else ∃ packet ∈ s.sent, packet.index = index))

def putStep (transfer : Transfer) (server : Server) (s : PutState) (l : PutStep) :
    Option PutState :=
  if s.client.netState ≠ .running then
    none
  else
    match l with
    | .oack =>
      if server.options then
        some (s.replied (s.index + 1) s.acks (oackHandler transfer (some server.blksize) s.client))
      else none
    | .ack index =>
      if s.Acked server index then
        some (s.replied (index + 1) (index :: s.acks) (ackHandler transfer (ushort index) s.client))
      else none
    | .timeout => some (s.replied s.index s.acks (tftpTimeoutHandler transfer s.client))

def putSystem (transfer : Transfer) (server : Server) (last : Client) :
    TransitionSystem PutState PutStep :=
  .ofStep ⟨(tftpStart transfer last).1, 0, [], []⟩ (putStep transfer server)

----
-- What The Transfer Must Send
----

/- The block that is shorter than the block size. -/
def lastBlock (server : Server) (size : Nat) : Nat :=
  size / server.blksize + 1

/- The bytes of a block of the file. -/
def fileBlock (transfer : Transfer) (server : Server) (memory : Nat → UInt8) (index : Nat) :
    List UInt8 :=
  let start := (index - 1) * server.blksize
  bytesAt memory (transfer.saveAddr + start)
    (min (index * server.blksize) transfer.saveSize - start)

structure Sent.Right
    (transfer : Transfer) (server : Server) (memory : Nat → UInt8)
    (packet : Sent) : Prop where
  pos : 1 ≤ packet.index
  last : packet.index ≤ lastBlock server transfer.saveSize
  block : packet.block = packet.index % 2 ^ 16
  bytes : packet.bytes = fileBlock transfer server memory packet.index

structure PutState.Correct
    (transfer : Transfer) (server : Server) (memory : Nat → UInt8)
    (s : PutState) : Prop where
  sends : ∀ packet ∈ s.sent, packet.Right transfer server memory
  completes : s.client.netState = .success → lastBlock server transfer.saveSize ∈ s.acks

----
-- The Condition On The Steps
----

/-
  The block number has not come round, and the file size is
  not cut to 32 bits before the end of the block.
-/
def SendOk (transfer : Transfer) (server : Server)
    (index : Nat) : Prop :=
  index < 2 ^ 16 ∧ (transfer.saveSize < 2 ^ 32 ∨ index * server.blksize ≤ u32 transfer.saveSize)

instance
    (transfer : Transfer) (server : Server) (index : Nat) :
    Decidable (SendOk transfer server index) :=
  inferInstanceAs (Decidable (_ ∧ (_ ∨ _)))

/-
  The options come once.  A block that is sent can be sent.
  Once the last block was sent, only its own acknowledgement
  comes.
-/
def PutOk (transfer : Transfer) (server : Server) (s : PutState) :
    PutStep → Prop
  | .oack => s.client.state = .sendWrq ∧ SendOk transfer server 1
  | .ack index =>
    if s.client.putFinalBlockSent then
      index = lastBlock server transfer.saveSize
    else
      s.client.curBlock = ushort index → s.client.state = .data → SendOk transfer server (index + 1)
  | .timeout =>
    s.client.timeoutCount < transfer.timeoutCountMax →
      s.client.state = .data → SendOk transfer server s.index

----
-- The Bytes Of A Block
----

variable {transfer : Transfer} {server : Server} {memory : Nat → UInt8}

/- The blocks begin inside the file or at its end. -/
theorem start_le_size {index size : Nat} (hLast : index ≤ lastBlock server size) :
    (index - 1) * server.blksize ≤ size := by
  have hIndex : index - 1 ≤ size / server.blksize := Nat.sub_le_of_le_add hLast
  exact (Nat.le_div_iff_mul_le server.blksize_pos).mp hIndex

theorem lt_lastBlock_iff (server : Server) (index size : Nat) :
    index < lastBlock server size ↔ index * server.blksize ≤ size := by
  unfold lastBlock
  rw [Nat.lt_succ_iff, Nat.le_div_iff_mul_le server.blksize_pos]

variable {index : Nat}

theorem end_eq_start_add (server : Server) (hPos : 1 ≤ index) :
    index * server.blksize = (index - 1) * server.blksize + server.blksize := by
  rw [← Nat.succ_mul]
  congr 1
  omega

/- What holds of the client once it sends data. -/
structure Sending
    (transfer : Transfer) (server : Server) (memory : Nat → UInt8) (index : Nat)
    (t : Client) : Prop where
  active : t.putActive = true
  state : t.state = .data
  size : t.netBootFileSize = u32 transfer.saveSize
  memory : t.memory = memory
  offset : t.blockWrapOffset = 0
  blockSize : t.blockSize = server.blksize
  curBlock : t.curBlock = ushort index
  pos : 1 ≤ index
  last : index ≤ lastBlock server transfer.saveSize

variable {t : Client}

theorem loadOffset_eq
    (hSending : Sending transfer server memory index t) (hIndex : index < 2 ^ 16) :
    loadOffset t index server.blksize = (index - 1) * server.blksize := by
  have hProduct : (index - 1) * server.blksize < 2 ^ 16 * 2 ^ 16 :=
    Nat.mul_lt_mul'' (by omega) server.blksize_lt
  have hInt :
      (toInt index - 1) * (server.blksize : Int) = ((index - 1) * server.blksize : Nat) := by
    rw [toInt_of_lt (by omega), Int.natCast_mul, Int.natCast_sub hSending.pos, Int.natCast_one]
  unfold loadOffset
  rw [hInt, hSending.offset]
  generalize (index - 1) * server.blksize = start at hProduct
  unfold ulong
  omega

/- The bytes sent are those of the block of the file. -/
theorem loadBlock_eq
    (hSending : Sending transfer server memory index t) (hOk : SendOk transfer server index) :
    loadBlock transfer (u32 t.curBlock) t.blockSize t = fileBlock transfer server memory index := by
  have hStart := start_le_size hSending.last
  have hEnd := end_eq_start_add server hSending.pos
  have hCur : u32 t.curBlock = index := by
    rw [hSending.curBlock, ushort_of_lt hOk.1, u32_of_lt (by have := hOk.1; omega)]
  unfold loadBlock fileBlock
  rw [hCur, hSending.blockSize, loadOffset_eq hSending hOk.1, hSending.memory, hSending.size]
  dsimp only
  congr 1
  rw [hEnd]
  have hRange := hOk.2
  rw [hEnd] at hRange
  unfold u32 at hRange ⊢
  unfold ulong
  generalize (index - 1) * server.blksize = start at *
  omega

theorem length_fileBlock_lt_iff
    (hPos : 1 ≤ index) (hLast : index ≤ lastBlock server transfer.saveSize) :
    (fileBlock transfer server memory index).length < server.blksize ↔
      index = lastBlock server transfer.saveSize := by
  have hStart := start_le_size hLast
  have hEnd := end_eq_start_add server hPos
  have hBefore := lt_lastBlock_iff server index transfer.saveSize
  have hBlock := server.blksize_pos
  unfold fileBlock
  rw [length_bytesAt]
  omega

/- What a client that can send does, and what it notes. -/
theorem tftpSend_sending
    (hSending : Sending transfer server memory index t) (hOk : SendOk transfer server index) :
    tftpSend transfer t = ({ t with
        putFinalBlockSent := decide (index = lastBlock server transfer.saveSize) },
        .data (ushort index) (fileBlock transfer server memory index)) := by
  have hFinal :
      decide ((fileBlock transfer server memory index).length < server.blksize) =
        decide (index = lastBlock server transfer.saveSize) :=
    decide_eq_decide.mpr (length_fileBlock_lt_iff hSending.pos hSending.last)
  have hBlock : ushort t.curBlock = ushort index := by
    rw [hSending.curBlock]
    exact ushort_ushort index
  unfold tftpSend
  rw [hSending.state]
  dsimp only
  rw [if_pos hSending.active, loadBlock_eq hSending hOk, hSending.blockSize, hFinal, hBlock]

----
-- The Invariant
----

/- What no step of a running transfer changes. -/
structure Kept
    (transfer : Transfer) (memory : Nat → UInt8)
    (t : Client) : Prop where
  active : t.putActive = true
  size : t.netBootFileSize = u32 transfer.saveSize
  memory : t.memory = memory
  prevBlock : t.prevBlock = 0
  offset : t.blockWrapOffset = 0

/- The request was sent and no options came. -/
structure Idle (server : Server) (s : PutState) : Prop where
  state : s.client.state = .sendWrq
  pending : s.client.putFinalBlockSent = false
  sent : s.sent = []
  start : server.options = true → s.client.curBlock = 0 ∧ s.index = 0

/- The client sends the blocks of the file. -/
structure Active
    (transfer : Transfer) (server : Server) (memory : Nat → UInt8)
    (s : PutState) : Prop where
  options : server.options = true
  sending : Sending transfer server memory s.index s.client
  small : ∀ packet ∈ s.sent, packet.index < 2 ^ 16
  pending : s.client.putFinalBlockSent = false →
    ∀ packet ∈ s.sent, packet.index < lastBlock server transfer.saveSize
  final : s.client.putFinalBlockSent = true → s.index = lastBlock server transfer.saveSize

structure PutInv
    (transfer : Transfer) (server : Server) (memory : Nat → UInt8)
    (s : PutState) : Prop where
  correct : s.Correct transfer server memory
  running : s.client.netState = .running →
    Kept transfer memory s.client ∧ (Idle server s ∨ Active transfer server memory s)

/- The wrap is not counted where no last block is kept. -/
theorem updateBlockNumber_of_prev (hPrev : t.prevBlock = 0) :
    updateBlockNumber t = t := by
  unfold updateBlockNumber
  rw [if_neg]
  rintro ⟨-, hNe⟩
  exact hNe hPrev

theorem putInv_replied_send {s : PutState} {acks : List Nat}
    (hSends : ∀ packet ∈ s.sent, packet.Right transfer server memory)
    (hRunning : t.netState = .running) (hKept : Kept transfer memory t)
    (hOptions : server.options = true) (hSending : Sending transfer server memory index t)
    (hSmall : ∀ packet ∈ s.sent, packet.index < 2 ^ 16)
    (hPending : index < lastBlock server transfer.saveSize →
      ∀ packet ∈ s.sent, packet.index < lastBlock server transfer.saveSize)
    (hOk : SendOk transfer server index) :
    PutInv transfer server memory (s.replied index acks (reply (tftpSend transfer t))) := by
  have hLast := hSending.last
  rw [tftpSend_sending hSending hOk]
  constructor
  · constructor
    · intro packet hPacket
      rcases List.mem_cons.mp hPacket with rfl | hOld
      · exact ⟨hSending.pos, hLast, rfl, rfl⟩
      · exact hSends packet hOld
    · intro hSuccess
      have hBoth : NetState.running = .success := hRunning.symm.trans hSuccess
      cases hBoth
  · intro _
    refine ⟨{ hKept with }, Or.inr ?_⟩
    refine ⟨hOptions, { hSending with }, ?_, ?_, ?_⟩
    · intro packet hPacket
      rcases List.mem_cons.mp hPacket with rfl | hOld
      · exact hOk.1
      · exact hSmall packet hOld
    · intro hNot packet hPacket
      have hNe : index ≠ lastBlock server transfer.saveSize := of_decide_eq_false hNot
      have hLt : index < lastBlock server transfer.saveSize := Nat.lt_of_le_of_ne hLast hNe
      rcases List.mem_cons.mp hPacket with rfl | hOld
      · exact hLt
      · exact hPending hLt packet hOld
    · intro hFinal
      exact of_decide_eq_true hFinal

----
-- Each Step Keeps The Invariant
----

variable {s : PutState}

theorem one_le_lastBlock (server : Server) (size : Nat) :
    1 ≤ lastBlock server size :=
  Nat.le_add_left 1 _

theorem putInv_oack
    (hInv : PutInv transfer server memory s) (hRunning : s.client.netState = .running)
    (hOptions : server.options = true) (hOk : PutOk transfer server s .oack) :
    PutInv transfer server memory
      (s.replied (s.index + 1) s.acks (oackHandler transfer (some server.blksize) s.client)) := by
  rcases hInv.running hRunning with ⟨hKept, hIdle | hActive⟩
  · rcases hIdle.start hOptions with ⟨hCur, hIndex⟩
    unfold oackHandler
    dsimp only
    rw [if_pos hKept.active, hIndex, hCur]
    have hNone : ∀ packet, packet ∉ s.sent := by
      rw [hIdle.sent]
      exact fun _ => List.not_mem_nil
    refine putInv_replied_send hInv.correct.sends hRunning
      ⟨hKept.active, hKept.size, hKept.memory, hKept.prevBlock, hKept.offset⟩ hOptions ?_
      (fun packet hMem => absurd hMem (hNone packet))
      (fun _ packet hMem => absurd hMem (hNone packet))
      hOk.2
    exact
      { active := hKept.active
        state := rfl
        size := hKept.size
        memory := hKept.memory
        offset := hKept.offset
        blockSize := ushort_of_lt server.blksize_lt
        curBlock := rfl
        pos := Nat.le_refl 1
        last := one_le_lastBlock server _ }
  · have hState := hOk.1
    rw [hActive.sending.state] at hState
    cases hState

/- Nothing is acknowledged before the options come. -/
theorem Idle.acked (hIdle : Idle server s) (hAcked : s.Acked server index) :
    index = 0 ∧ server.options = false := by
  unfold PutState.Acked at hAcked
  split_ifs at hAcked with hZero
  · exact ⟨hZero, hAcked⟩
  · rcases hAcked with ⟨packet, hMem, -⟩
    rw [hIdle.sent] at hMem
    cases hMem

/- Only a block that was sent is acknowledged. -/
theorem Active.acked (hActive : Active transfer server memory s) (hAcked : s.Acked server index) :
    ∃ packet ∈ s.sent, packet.index = index := by
  unfold PutState.Acked at hAcked
  split_ifs at hAcked with hZero
  · rw [hActive.options] at hAcked
    cases hAcked
  · exact hAcked

section

variable (hInv : PutInv transfer server memory s)
include hInv

section

variable (hRunning : s.client.netState = .running)
include hRunning

theorem putInv_ack_final (hFinal : s.client.putFinalBlockSent = true)
    (hLast : index = lastBlock server transfer.saveSize) :
    PutInv transfer server memory
      (s.replied (index + 1) (index :: s.acks) (ackHandler transfer (ushort index) s.client)) := by
  have hKept := (hInv.running hRunning).1
  unfold ackHandler
  rw [if_pos hKept.active, if_pos hFinal]
  constructor
  · refine ⟨hInv.correct.sends, fun _ => ?_⟩
    rw [hLast]
    exact List.mem_cons_self
  · nofun

theorem putInv_ack_idle (hKept : Kept transfer memory s.client) (hIdle : Idle server s)
    (hAcked : s.Acked server index) :
    PutInv transfer server memory
      (s.replied (index + 1) (index :: s.acks) (ackHandler transfer (ushort index) s.client)) := by
  have hOptions := (hIdle.acked hAcked).2
  have hStay :
      ∀ r : Reply, r.1 = { s.client with
          curBlock := ushort (ushort index + 1) } →
        r.2 = none ∨ r.2 = some .wrq →
        PutInv transfer server memory (s.replied (index + 1) (index :: s.acks) r) := by
    rintro ⟨t, packet⟩ hClient hPacket
    subst hClient
    have hSent :
        (s.replied (index + 1) (index :: s.acks)
          (⟨{ s.client with
            curBlock := ushort (ushort index + 1) }, packet⟩ : Reply)).sent = s.sent := by
      rcases hPacket with rfl | rfl
      · rfl
      · rfl
    constructor
    · constructor
      · rw [hSent]
        exact hInv.correct.sends
      · intro hSuccess
        have hBoth : NetState.running = .success := hRunning.symm.trans hSuccess
        cases hBoth
    · intro _
      refine ⟨{ hKept with }, Or.inl
        ⟨hIdle.state, hIdle.pending, hSent.trans hIdle.sent, fun hKnown => ?_⟩⟩
      rw [hOptions] at hKnown
      cases hKnown
  unfold ackHandler
  rw [if_pos hKept.active, if_neg (by rw [hIdle.pending]; exact Bool.false_ne_true)]
  dsimp only
  rw [updateBlockNumber_of_prev (by exact hKept.prevBlock)]
  split_ifs
  · refine hStay _ ?_ (Or.inr ?_)
    · unfold tftpSend
      simp only [hIdle.state]
      rfl
    · unfold tftpSend
      simp only [hIdle.state]
      rfl
  · exact hStay _ rfl (Or.inl rfl)

theorem putInv_ack_active
    (hKept : Kept transfer memory s.client) (hActive : Active transfer server memory s)
    (hAcked : s.Acked server index) (hPending : s.client.putFinalBlockSent = false)
    (hOk : s.client.curBlock = ushort index → SendOk transfer server (index + 1)) :
    PutInv transfer server memory
      (s.replied (index + 1) (index :: s.acks) (ackHandler transfer (ushort index) s.client)) := by
  rcases hActive.acked hAcked with ⟨packet, hMem, rfl⟩
  have hLt := hActive.pending hPending packet hMem
  have hSmall := hActive.small packet hMem
  have hSending :
      Sending transfer server memory (packet.index + 1)
        { s.client with
          curBlock := ushort (ushort packet.index + 1) } :=
    { hActive.sending with
      curBlock := by rw [ushort_of_lt hSmall]
      pos := Nat.le_add_left 1 _
      last := hLt }
  unfold ackHandler
  rw [if_pos hKept.active, if_neg (by rw [hPending]; exact Bool.false_ne_true)]
  dsimp only
  rw [updateBlockNumber_of_prev (by exact hKept.prevBlock)]
  split_ifs with hAck
  · exact putInv_replied_send hInv.correct.sends hRunning
      { hKept with } hActive.options hSending hActive.small
      (fun _ => hActive.pending hPending)
      (hOk (beq_iff_eq.mp hAck))
  · constructor
    · refine ⟨hInv.correct.sends, fun hSuccess => ?_⟩
      have hBoth : NetState.running = .success := hRunning.symm.trans hSuccess
      cases hBoth
    · intro _
      refine ⟨{ hKept with }, Or.inr
        ⟨hActive.options, hSending, hActive.small, hActive.pending, fun hFinal => ?_⟩⟩
      have hBoth : false = true := hPending.symm.trans hFinal
      cases hBoth

theorem putInv_ack (hAcked : s.Acked server index) (hOk : PutOk transfer server s (.ack index)) :
    PutInv transfer server memory
      (s.replied (index + 1) (index :: s.acks) (ackHandler transfer (ushort index) s.client)) := by
  unfold PutOk at hOk
  rcases hInv.running hRunning with ⟨hKept, hIdle | hActive⟩
  · exact putInv_ack_idle hInv hRunning hKept hIdle hAcked
  · split_ifs at hOk with hFinal
    · exact putInv_ack_final hInv hRunning hFinal hOk
    · exact putInv_ack_active hInv hRunning hKept hActive hAcked (Bool.eq_false_iff.mpr hFinal)
        fun hAck => hOk hAck hActive.sending.state

theorem putInv_timeout (hOk : PutOk transfer server s .timeout) :
    PutInv transfer server memory
      (s.replied s.index s.acks (tftpTimeoutHandler transfer s.client)) := by
  unfold tftpTimeoutHandler
  dsimp only
  split_ifs with hCount
  · constructor
    · exact ⟨hInv.correct.sends, nofun⟩
    · nofun
  · have hMore : s.client.timeoutCount < transfer.timeoutCountMax :=
      Nat.lt_of_succ_le (Nat.le_of_not_lt hCount)
    rcases hInv.running hRunning with ⟨hKept, hIdle | hActive⟩
    · have hSend :
          tftpSend transfer
            { s.client with
              timeoutCount := s.client.timeoutCount + 1 } =
          ({ s.client with
            timeoutCount := s.client.timeoutCount + 1 }, .wrq) := by
        unfold tftpSend
        simp only [hIdle.state]
      rw [hSend]
      constructor
      · exact ⟨hInv.correct.sends, hInv.correct.completes⟩
      · intro _
        exact ⟨{ hKept with }, Or.inl { hIdle with }⟩
    · refine putInv_replied_send hInv.correct.sends hRunning { hKept with } hActive.options
        { hActive.sending with } hActive.small ?_
        (hOk hMore hActive.sending.state)
      intro hLt
      apply hActive.pending
      by_contra hFinal
      have hLast := hActive.final ((Bool.not_eq_false _).mp hFinal)
      exact absurd hLast (Nat.ne_of_lt hLt)

end

theorem putInv_step {t : PutState} {l : PutStep}
    (hOk : PutOk transfer server s l) (hStep : putStep transfer server s l = some t) :
    PutInv transfer server memory t := by
  unfold putStep at hStep
  split at hStep
  · cases hStep
  rename_i hNot
  have hRunning : s.client.netState = .running := not_not.mp hNot
  cases l with
  | oack =>
    split_ifs at hStep with hOptions
    cases hStep
    exact putInv_oack hInv hRunning hOptions hOk
  | ack index =>
    dsimp only at hStep
    split_ifs at hStep with hAcked
    cases hStep
    exact putInv_ack hInv hRunning hAcked hOk
  | timeout =>
    cases hStep
    exact putInv_timeout hInv hRunning hOk

end

theorem putInv_start
    (transfer : Transfer) (server : Server) (last : Client) (hPut : transfer.put = true) :
    PutInv transfer server last.memory ⟨(tftpStart transfer last).1, 0, [], []⟩ := by
  have hStart :
      (tftpStart transfer last).1 =
        { last with
          netBootFileSize := u32 transfer.saveSize
          netState := .running
          putActive := true
          prevBlock := 0
          blockWrap := 0
          blockWrapOffset := 0
          putFinalBlockSent := false
          state := .sendWrq
          timeoutCount := 0
          curBlock := 0
          blockSize := TFTP_BLOCK_SIZE } := by
    unfold tftpStart
    simp only [hPut, if_true]
    rfl
  rw [hStart]
  constructor
  · exact ⟨nofun, nofun⟩
  · intro _
    exact ⟨⟨rfl, rfl, rfl, rfl, rfl⟩, Or.inl ⟨rfl, rfl, rfl, fun _ => ⟨rfl, rfl⟩⟩⟩

----
-- The File Is Sent
----

/-
  In a run whose steps meet the condition, each packet of
  data is its block of the file, and the transfer completes
  only once the last block was acknowledged.
-/
theorem tftp_put_sends_file (transfer : Transfer) (server : Server) (last : Client)
    (hPut : transfer.put = true) (s : PutState)
    (hReach : (putSystem transfer server last).ReachableBy (PutOk transfer server) s) :
    s.Correct transfer server last.memory := by
  have hInv : PutInv transfer server last.memory s := by
    refine hReach.invariant ?_ ?_
    · rintro _ rfl
      exact putInv_start transfer server last hPut
    · intro s l t hInv hOk hStep
      have hNext : putStep transfer server s l = some t := hStep
      exact putInv_step hInv hOk hNext
  exact hInv.correct

----
-- A File That Is Sent And One That Is Not Finished
----

/- A save of ten bytes from address 0. -/
def tenBytes : Transfer where
  put := true
  loadAddr := 0
  saveAddr := 0
  saveSize := 10
  timeoutCountMax := 10

/- The options of the server ask for blocks of eight bytes. -/
def eightServer : Server where
  options := true
  blksize := 8
  blksize_pos := by decide
  blksize_lt := by decide

/- A client that did nothing before. -/
def newClient : Client where
  curBlock := 0
  prevBlock := 0
  blockWrap := 0
  blockWrapOffset := 0
  state := .sendRrq
  putActive := false
  putFinalBlockSent := false
  blockSize := TFTP_BLOCK_SIZE
  timeoutCount := 0
  netBootFileSize := 0
  netState := .running
  memory := fun addr => addr.toUInt8

instance instDecidablePutOk
    (transfer : Transfer) (server : Server) (s : PutState) (l : PutStep) :
    Decidable (PutOk transfer server s l) :=
  match l with
  | .oack => inferInstanceAs (Decidable (_ ∧ _))
  | .ack index =>
    inferInstanceAs (Decidable
      (if s.client.putFinalBlockSent then
        index = lastBlock server transfer.saveSize
      else
        s.client.curBlock = ushort index →
          s.client.state = .data → SendOk transfer server (index + 1)))
  | .timeout => inferInstanceAs (Decidable (_ → _ → _))

/- Both blocks are sent and acknowledged. -/
theorem tftp_put_sends_ten_bytes :
    ∃ s : PutState,
      (putSystem tenBytes eightServer newClient).ReachableBy (PutOk tenBytes eightServer) s ∧
      s.client.netState = .success ∧ s.sent.length = 2 ∧
      s.Correct tenBytes eightServer newClient.memory := by
  rcases TransitionSystem.exists_reachableBy (putStep tenBytes eightServer)
      (PutOk tenBytes eightServer)
      ⟨(tftpStart tenBytes newClient).1, 0, [], []⟩
      [.oack, .ack 1, .ack 2]
      (fun s => s.client.netState = .success ∧ s.sent.length = 2)
      (by decide +kernel) with
    ⟨s, hReach, hSuccess, hSent⟩
  exact ⟨s, hReach, hSuccess, hSent,
    tftp_put_sends_file tenBytes eightServer newClient rfl s hReach⟩

/-
  The acknowledgement of the first block comes twice, and the
  last block is never acknowledged.
-/
theorem tftp_put_completes_early :
    ∃ s : PutState, (putSystem tenBytes eightServer newClient).Reachable s ∧
      s.client.netState = .success ∧ s.acks = [1, 1] ∧
      ¬ s.Correct tenBytes eightServer newClient.memory := by
  rcases TransitionSystem.exists_reachableBy (putStep tenBytes eightServer) (fun _ _ => True)
      ⟨(tftpStart tenBytes newClient).1, 0, [], []⟩
      [.oack, .ack 1, .ack 1]
      (fun s => s.client.netState = .success ∧ s.acks = [1, 1])
      (by decide +kernel) with
    ⟨s, hReach, hSuccess, hAcks⟩
  refine ⟨s, hReach, hSuccess, hAcks, ?_⟩
  intro hCorrect
  have hLast := hCorrect.completes hSuccess
  rw [hAcks] at hLast
  exact absurd hLast (by decide)

end Uboot.Tftp
