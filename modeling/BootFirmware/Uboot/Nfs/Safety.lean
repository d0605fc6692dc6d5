import BootFirmware.Lib.Faults
import BootFirmware.Uboot.Nfs.Model
import Mathlib.Tactic.SplitIfs

/-
  The NFS client against any server: which packets the
  handler of the client takes without a fault.

  Key definitions include:
    * `needed`
    * `RoomFits`
    * `PacketFits`
    * `deliverAll`

  The main results are:
    * `nfsSend_runs`
    * `nfsHandler_runs_iff`
    * `nfs_client_safe_iff`
    * `nfs_read_count_not_checked`
-/

----
-- Lengths That Fit
----

namespace Uboot.Nfs

open Faults List

/- What is left of a packet in `rpc_pkt`. -/
def received (pkt : List UInt8) : List UInt8 :=
  pkt.take RPC_SIZE

/- The words of the attributes before the data. -/
def attributesOffset (cl : Client) (rpc : List UInt8) : Nat :=
  if cl.v2 then 0
  else if wordAt rpc (DATA 1) ≠ 0 then 22
  else 1

/- The bytes that decide what is done about an error. -/
def errorNeeded (cl : Client) (rpc : List UInt8) : Nat :=
  match cl.state with
  | .lookup =>
    if wordAt rpc ASTATUS = NFS_RPC_PROG_MISMATCH then 28
    else 24
  | .read =>
    if wordAt rpc RSTATUS ≠ 0 then 12
    else if wordAt rpc ASTATUS ≠ 0 then 24
    else 28
  | _ => 0

/- The place of the data of a read, and of their number. -/
def countAt (cl : Client) (rpc : List UInt8) : Nat :=
  if cl.v2 then DATA 18
  else DATA (1 + attributesOffset cl rpc)

def dataAt (cl : Client) (rpc : List UInt8) : Nat :=
  if cl.v2 then DATA 19
  else DATA (4 + attributesOffset cl rpc)

/- The length of a link, and its place. -/
def linkLength (cl : Client) (rpc : List UInt8) : Nat :=
  wordAt rpc (DATA (1 + attributesOffset cl rpc))

def linkAt (cl : Client) (rpc : List UInt8) : Nat :=
  DATA (2 + attributesOffset cl rpc)

/- The bytes that a reply without an error takes. -/
def contentNeeded (cl : Client) (rpc : List UInt8) : Nat :=
  match cl.state with
  | .prclookupProgMount | .prclookupProgNfs => DATA 1
  | .umount => 0
  | .mount => DATA 1 + NFS_FHSIZE
  | .lookup =>
    if cl.v2 then DATA 1 + NFS_FHSIZE
    else DATA 2 + min (wordAt rpc (DATA 1)) NFS3_FHSIZE
  | .readlink => linkAt cl rpc + max 1 (linkLength cl rpc)
  | .read => dataAt cl rpc + wordAt rpc (countAt cl rpc)

/- The fields that tell of an error, in their order. -/
def statusFields (cl : Client) : List Nat :=
  match cl.state with
  | .prclookupProgMount | .prclookupProgNfs | .umount => [RSTATUS, VERIFIER, ASTATUS]
  | _ => [RSTATUS, VERIFIER, ASTATUS, DATA 0]

/- The bytes up to the first field that is not zero. -/
def neededFrom (cl : Client)
    (rpc : List UInt8) : List Nat → Nat
  | [] => contentNeeded cl rpc
  | off :: rest =>
    max (off + 4) (if wordAt rpc off ≠ 0 then errorNeeded cl rpc
      else neededFrom cl rpc rest)

/- The number of bytes that decide what a reply does. -/
def needed (cl : Client) (rpc : List UInt8) : Nat :=
  if wordAt rpc 0 ≠ cl.rpcId then 4
  else max 4 (neededFrom cl rpc (statusFields cl))

/- The reply is to the last request, and without an error. -/
def Succeeds (cl : Client) (rpc : List UInt8) : Prop :=
  wordAt rpc 0 = cl.rpcId ∧ ∀ off ∈ statusFields cl, wordAt rpc off = 0

/- The new path, or the handle, has room. -/
def RoomFits (cl : Client) (rpc : List UInt8) : Prop :=
  match cl.state with
  | .lookup => cl.v2 = false → 0 ≤ toInt (wordAt rpc (DATA 1))
  | .readlink =>
    if bytesAt rpc (linkAt cl rpc) 1 ≠ [slash] then
      cl.paths.path.length + 1 + linkLength cl rpc < PATH_SIZE
    else
      0 < linkLength cl rpc ∧ linkLength cl rpc < PATH_SIZE
  | _ => True

/-
  The packet fits into `rpc_pkt`, the bytes that decide were
  received, and the lengths in it fit.
-/
structure PacketFits
    (cl : Client)
    (pkt : List UInt8) : Prop where
  hPacket : cl.state ≠ .read → pkt.length ≤ RPC_SIZE
  hNeeded : needed cl (received pkt) ≤ (received pkt).length
  hRoom : Succeeds cl (received pkt) → RoomFits cl (received pkt)

----
-- Requests Fit
----

@[simp] theorem length_be32 (n : Nat) : (be32 n).length = 4 := by
  unfold be32
  rw [length_reverse, Words.length_toBytes]

theorem length_xdrString (s : List UInt8) : (xdrString s).length ≤ s.length + 7 := by
  unfold xdrString
  rw [length_append, length_append, length_be32, length_replicate]
  omega

theorem length_xdrHandle (v2 : Bool) (fh : List UInt8) :
    (xdrHandle v2 fh).length ≤ fh.length + 4 := by
  unfold xdrHandle
  split
  · omega
  · rw [length_append, length_be32, length_take]
    omega

theorem length_rpcAddCredentials : rpcAddCredentials.length = 36 := by
  unfold rpcAddCredentials
  simp

theorem length_fileHandle (cl : Client) : (fileHandle cl).length ≤ NFS3_FHSIZE := by
  have hLength := cl.filefh.length_bytes
  unfold fileHandle
  split
  · rw [length_take]
    omega
  · rw [length_take]
    omega

variable {cl : Client}

theorem length_currentCall {call : Call} (hCall : currentCall cl = some call) (id : Nat) :
    (Request.data ⟨id, cl.v2, call⟩).length ≤ PATH_SIZE + 256 := by
  have hPaths := cl.paths.fits
  have hDir := cl.dirfh.length_bytes
  have hFile := length_fileHandle cl
  have hFh : NFS_FHSIZE = 32 := rfl
  have hFh3 : NFS3_FHSIZE = 64 := rfl
  have hString := length_xdrString
  have hHandle := length_xdrHandle cl.v2
  have hCredentials := length_rpcAddCredentials
  unfold currentCall at hCall
  cases hState : cl.state with
  | prclookupProgMount | prclookupProgNfs =>
    rw [hState] at hCall
    cases hCall
    simp only [Request.data, length_append, length_replicate, length_be32]
    omega
  | mount =>
    rw [hState] at hCall
    cases hCall
    have hPath := hString cl.paths.path
    simp only [Request.data, length_append]
    omega
  | umount =>
    rw [hState] at hCall
    dsimp only at hCall
    split at hCall
    · cases hCall
    · cases hCall
      simp only [Request.data]
      omega
  | lookup =>
    rw [hState] at hCall
    cases hCall
    have hName := hString cl.paths.filename
    have hFh := hHandle cl.dirfh.bytes
    simp only [Request.data, length_append]
    omega
  | read =>
    rw [hState] at hCall
    cases hCall
    have hFh := hHandle (fileHandle cl)
    have hZero : (if cl.v2 = true then [] else
        be32 0).length ≤ 4 := by
      split <;> simp
    simp only [Request.data, length_append, length_be32]
    omega
  | readlink =>
    rw [hState] at hCall
    cases hCall
    have hFh := hHandle (fileHandle cl)
    simp only [Request.data, length_append]
    omega

/- The state after a request. -/
def sendCall (call : Call) (cl : Client) : Client :=
  let id := (cl.rpcId + 1) % 2 ^ 64
  { cl with rpcId := id, sent := ⟨id, cl.v2, call⟩ :: cl.sent }

/- Every request fits into `rpc_pkt`. -/
theorem nfsSend_some {call : Call} (hCall : currentCall cl = some call) :
    nfsSend cl = .ok (sendCall call cl) := by
  unfold nfsSend
  rw [hCall]
  unfold rpcReq
  dsimp only
  have hLength := length_currentCall hCall ((cl.rpcId + 1) % 2 ^ 64)
  have hSize : PATH_SIZE = 2048 := rfl
  have hRpc : RPC_SIZE = 4120 := rfl
  rw [if_pos (by omega)]
  rfl

theorem nfsSend_none (hCall : currentCall cl = none) :
    nfsSend cl = .ok cl := by
  unfold nfsSend
  rw [hCall]

theorem nfsSend_runs (cl : Client) : Runs (nfsSend cl) := by
  cases hCall : currentCall cl with
  | some call =>
    rw [nfsSend_some hCall]
    exact runs_ok _
  | none =>
    rw [nfsSend_none hCall]
    exact runs_ok cl

theorem sendIn_runs (state : NfsState) (cl : Client) :
    Runs (sendIn state cl) :=
  nfsSend_runs _

theorem retryVersion_runs (cl : Client) : Runs (retryVersion cl) := by
  unfold retryVersion
  rw [runs_bind_of_forall (sendIn_runs _)]
  exact sendIn_runs _ _

theorem afterRead_runs (rlen : Int) (cl : Client) :
    Runs (afterRead rlen cl) := by
  unfold afterRead
  split_ifs
  · exact nfsSend_runs _
  · exact sendIn_runs _ _
  · exact sendIn_runs _ _
  · exact sendIn_runs _ _

----
-- Fields Of A Reply
----

variable {A : Type}

theorem runs_word_iff (rpc : List UInt8) (off : Nat) (k : Nat → Except Fault A) :
    Runs (word rpc off >>= k) ↔ off + 4 ≤ rpc.length ∧ Runs (k (wordAt rpc off)) :=
  runs_guard_iff _ _ k

theorem runs_bytes_iff (rpc : List UInt8) (off len : Nat) (k : List UInt8 → Except Fault A) :
    Runs (bytes rpc off len >>= k) ↔ off + len ≤ rpc.length ∧ Runs (k (bytesAt rpc off len)) :=
  runs_guard_iff _ _ k

theorem runs_copyPacket_iff (pkt : List UInt8) (k : List UInt8 → Except Fault A) :
    Runs (copyPacket pkt >>= k) ↔ pkt.length ≤ RPC_SIZE ∧ Runs (k (received pkt)) := by
  unfold copyPacket
  rw [runs_guard_iff]
  refine and_congr_right fun hLe => ?_
  rw [received, take_of_length_le hLe]

theorem runs_checkId_iff (rpc : List UInt8) (cl : Client) (accepted : Reply) :
    Runs (checkId rpc cl accepted) ↔
      4 ≤ rpc.length ∧ (wordAt rpc 0 = cl.rpcId → Runs accepted) := by
  unfold checkId
  rw [runs_word_iff]
  apply and_congr_right
  intro _
  split_ifs with hAfter hBefore
  · exact ⟨fun _ hEq => absurd hEq (Nat.ne_of_gt hAfter), fun _ => runs_ok _⟩
  · exact ⟨fun _ hEq => absurd hEq (Nat.ne_of_lt hBefore), fun _ => runs_ok _⟩
  · have hEq : wordAt rpc 0 = cl.rpcId := by omega
    exact ⟨fun h _ => h, fun h => h hEq⟩

/-
  The fields are received, up to the first that is set; if
  none is, so is the content of the reply.
-/
theorem runs_status_iff {rpc : List UInt8} {bad good : Reply} {offs : List Nat}
    (hBad : Runs bad ↔ errorNeeded cl rpc ≤ rpc.length)
    (hGood : Runs good ↔ contentNeeded cl rpc ≤ rpc.length ∧ RoomFits cl rpc) :
    (Runs (anySet rpc offs >>= fun set =>
        if set then bad else good)) ↔
      neededFrom cl rpc offs ≤ rpc.length ∧
        ((∀ off ∈ offs, wordAt rpc off = 0) → RoomFits cl rpc) := by
  induction offs with
  | nil =>
    refine Iff.trans hGood ?_
    apply and_congr_right
    intro _
    exact ⟨fun h _ => h, fun h => h nofun⟩
  | cons off rest ih =>
    unfold anySet neededFrom
    rw [bind_assoc, runs_word_iff, Nat.max_le, and_assoc]
    apply and_congr_right
    intro _
    by_cases hSet : wordAt rpc off ≠ 0
    · rw [if_pos hSet, if_pos hSet]
      change Runs bad ↔ _
      rw [hBad]
      exact ⟨fun h => ⟨h, fun hZero =>
          absurd (hZero off mem_cons_self) hSet⟩,
        fun h => h.1⟩
    · have hZero : wordAt rpc off = 0 := Classical.not_not.mp hSet
      rw [if_neg hSet, if_neg hSet, ih]
      simp only [forall_mem_cons, hZero, true_and]

/- What each parser does with the packet it has copied. -/
def parse (cl : Client) (bad good : List UInt8 → Reply)
    (rpc : List UInt8) : Reply :=
  checkId rpc cl (anySet rpc (statusFields cl) >>= fun set =>
    if set then bad rpc else good rpc)

theorem runs_parse_iff (rpc : List UInt8) (bad good : List UInt8 → Reply)
    (hBad : Runs (bad rpc) ↔ errorNeeded cl rpc ≤ rpc.length)
    (hGood : Runs (good rpc) ↔ contentNeeded cl rpc ≤ rpc.length ∧ RoomFits cl rpc) :
    Runs (parse cl bad good rpc) ↔
      needed cl rpc ≤ rpc.length ∧ (Succeeds cl rpc → RoomFits cl rpc) := by
  unfold parse needed Succeeds
  rw [runs_checkId_iff, runs_status_iff hBad hGood]
  by_cases hId : wordAt rpc 0 = cl.rpcId
  · rw [if_neg (not_not.mpr hId), Nat.max_le, and_assoc]
    apply and_congr_right
    intro _
    constructor
    · exact fun h => ⟨(h hId).1, fun hOk => (h hId).2 hOk.2⟩
    · exact fun h _ => ⟨h.1, fun hOk => h.2 ⟨hId, hOk⟩⟩
  · rw [if_pos hId]
    apply and_congr_right
    intro _
    exact ⟨fun _ hOk => absurd hOk.1 hId, fun _ hEq => absurd hEq hId⟩

theorem runs_copy_parse_iff
    {pkt : List UInt8} (bad : List UInt8 → Reply) {good : List UInt8 → Reply}
    (hState : cl.state ≠ .read) (hBad : ∀ rpc, Runs (bad rpc) ↔ errorNeeded cl rpc ≤ rpc.length)
    (hGood : ∀ rpc, Runs (good rpc) ↔ contentNeeded cl rpc ≤ rpc.length ∧ RoomFits cl rpc) :
    Runs (copyPacket pkt >>= parse cl bad good) ↔ PacketFits cl pkt := by
  rw [runs_copyPacket_iff, runs_parse_iff _ bad good (hBad _) (hGood _)]
  constructor
  · rintro ⟨hPacket, hNeeded, hRoom⟩
    exact ⟨fun _ => hPacket, hNeeded, hRoom⟩
  · rintro ⟨hPacket, hNeeded, hRoom⟩
    exact ⟨hPacket hState, hNeeded, hRoom⟩

----
-- Parsers
----

section Parsers

variable {cl : Client} {rpc pkt : List UInt8}

/- Nothing more is looked at after an error. -/
theorem runs_minus_one_iff (hNone : errorNeeded cl rpc = 0) :
    Runs (.ok (-1, cl) : Reply) ↔ errorNeeded cl rpc ≤ rpc.length := by
  rw [hNone]
  exact ⟨fun _ => Nat.zero_le _, fun _ => runs_ok _⟩

theorem runs_rpcLookupReply_iff
    (prog : Prog) (hState : cl.state = .prclookupProgMount ∨ cl.state = .prclookupProgNfs) :
    Runs (rpcLookupReply prog pkt cl) ↔ PacketFits cl pkt := by
  have hFields : statusFields cl = [RSTATUS, VERIFIER, ASTATUS] := by
    unfold statusFields
    rcases hState with h | h <;> rw [h]
  have hContent : ∀ rpc, contentNeeded cl rpc = DATA 0 + 4 := by
    intro rpc
    unfold contentNeeded
    rcases hState with h | h <;> rw [h] <;> rfl
  have hRoom : ∀ rpc, RoomFits cl rpc := by
    intro rpc
    unfold RoomFits
    rcases hState with h | h <;> rw [h] <;> trivial
  have hError : ∀ rpc, errorNeeded cl rpc = 0 := by
    intro rpc
    unfold errorNeeded
    rcases hState with h | h <;> rw [h]
  have hNot : cl.state ≠ .read := by rcases hState with h | h <;> rw [h] <;> decide
  unfold rpcLookupReply
  rw [← hFields]
  refine runs_copy_parse_iff (fun _ => .ok (-1, cl)) hNot
    (fun rpc => runs_minus_one_iff (hError rpc)) ?_
  intro rpc
  rw [hContent, runs_word_iff]
  apply and_congr_right
  intro _
  cases prog <;> exact ⟨fun _ => hRoom rpc, fun _ => runs_ok _⟩

variable {A : Type}

theorem runs_copy_iff {size : Nat} (buffer : Buffer size) (src : List UInt8)
    (k : Buffer size → Except Fault A) (hAll : ∀ b, Runs (k b)) :
    Runs (buffer.copy src >>= k) ↔ src.length ≤ size := by
  rw [runs_bind_of_forall hAll]
  unfold Buffer.copy
  split_ifs with hFits
  · exact ⟨fun _ => hFits, fun _ => runs_ok _⟩
  · exact ⟨fun h => absurd h (not_runs_error _), fun h => absurd h hFits⟩

theorem length_bytesAt_le (rpc : List UInt8) (off len : Nat) :
    (bytesAt rpc off len).length ≤ len := by
  unfold bytesAt
  rw [length_take]
  exact Nat.min_le_left _ _

theorem runs_handle_iff {size : Nat}
    (off len : Nat) (buffer : Buffer size) (k : Buffer size → Except Fault A) (hLen : len ≤ size)
    (hAll : ∀ b, Runs (k b)) :
    Runs (bytes rpc off len >>= fun fh =>
        buffer.copy fh >>= k) ↔
      off + len ≤ rpc.length := by
  have hCopied := length_bytesAt_le rpc off len
  rw [runs_bytes_iff, runs_copy_iff buffer _ k hAll]
  exact ⟨fun h => h.1, fun h => ⟨h, Nat.le_trans hCopied hLen⟩⟩

theorem runs_nfsMountReply_iff (hState : cl.state = .mount) :
    Runs (nfsMountReply pkt cl) ↔ PacketFits cl pkt := by
  have hFields : statusFields cl = [RSTATUS, VERIFIER, ASTATUS, DATA 0] := by
    unfold statusFields
    rw [hState]
  have hContent : ∀ rpc, contentNeeded cl rpc = DATA 1 + NFS_FHSIZE := by
    intro rpc
    unfold contentNeeded
    rw [hState]
  have hRoom : ∀ rpc, RoomFits cl rpc := by
    intro rpc
    unfold RoomFits
    rw [hState]
    trivial
  have hError : ∀ rpc, errorNeeded cl rpc = 0 := by
    intro rpc
    unfold errorNeeded
    rw [hState]
  have hNot : cl.state ≠ .read := by
    rw [hState]
    decide
  unfold nfsMountReply
  rw [← hFields]
  refine runs_copy_parse_iff (fun _ => .ok (-1, cl)) hNot
    (fun rpc => runs_minus_one_iff (hError rpc)) ?_
  intro rpc
  rw [hContent, runs_handle_iff _ _ _ _ (Nat.le_refl _) (fun _ => runs_ok _)]
  exact ⟨fun h => ⟨h, hRoom rpc⟩, fun h => h.1⟩

theorem runs_nfsUmountallReply_iff (hState : cl.state = .umount) :
    Runs (nfsUmountallReply pkt cl) ↔ PacketFits cl pkt := by
  have hFields : statusFields cl = [RSTATUS, VERIFIER, ASTATUS] := by
    unfold statusFields
    rw [hState]
  have hError : ∀ rpc, errorNeeded cl rpc = 0 := by
    intro rpc
    unfold errorNeeded
    rw [hState]
  have hNot : cl.state ≠ .read := by
    rw [hState]
    decide
  have hContent : ∀ rpc, contentNeeded cl rpc = 0 := by
    intro rpc
    unfold contentNeeded
    rw [hState]
  have hRoom : ∀ rpc, RoomFits cl rpc := by
    intro rpc
    unfold RoomFits
    rw [hState]
    trivial
  unfold nfsUmountallReply
  rw [← hFields]
  refine runs_copy_parse_iff (fun _ => .ok (-1, cl)) hNot
    (fun rpc => runs_minus_one_iff (hError rpc)) ?_
  intro rpc
  rw [hContent]
  exact ⟨fun _ => ⟨Nat.zero_le _, hRoom rpc⟩, fun _ => runs_ok _⟩

/- The word is looked at again when the reply is refused. -/
theorem runs_lookupError_iff (hState : cl.state = .lookup) :
    Runs (lookupError rpc cl) ↔ errorNeeded cl rpc ≤ rpc.length := by
  have hStatus : ASTATUS = 20 ∧ DATA 0 = 24 := ⟨rfl, rfl⟩
  unfold lookupError errorNeeded
  rw [runs_word_iff, hState]
  dsimp only
  split_ifs with hMismatch
  · rw [runs_word_iff]
    constructor
    · rintro ⟨-, hLe, -⟩
      omega
    · intro hLe
      refine ⟨by omega, by omega, ?_⟩
      split_ifs
      · exact runs_ok _
      · exact runs_ok _
  · constructor
    · rintro ⟨hLe, -⟩
      omega
    · intro hLe
      exact ⟨by omega, runs_ok _⟩

theorem runs_nfsLookupReply_iff (hState : cl.state = .lookup) :
    Runs (nfsLookupReply pkt cl) ↔ PacketFits cl pkt := by
  have hFields : statusFields cl = [RSTATUS, VERIFIER, ASTATUS, DATA 0] := by
    unfold statusFields
    rw [hState]
  have hNot : cl.state ≠ .read := by
    rw [hState]
    decide
  unfold nfsLookupReply
  rw [← hFields]
  refine runs_copy_parse_iff (fun rpc => lookupError rpc cl) hNot
    (fun rpc => runs_lookupError_iff hState) ?_
  intro rpc
  unfold contentNeeded RoomFits
  rw [hState]
  dsimp only
  by_cases hv2 : cl.v2 = true
  · rw [if_pos hv2, if_pos hv2, runs_handle_iff _ _ _ _ (by decide) (fun _ => runs_ok _)]
    exact ⟨fun h => ⟨h, fun hNo => by rw [hv2] at hNo; cases hNo⟩, fun h => h.1⟩
  · rw [if_neg hv2, if_neg hv2, runs_word_iff]
    have hNo : cl.v2 = false := by simpa using hv2
    have hData : DATA 1 = 28 ∧ DATA 2 = 32 := ⟨rfl, rfl⟩
    by_cases hNeg : toInt (wordAt rpc (DATA 1)) < 0
    · rw [if_pos hNeg]
      constructor
      · exact fun h => absurd h.2 (not_runs_error _)
      · exact fun h => absurd (h.2 hNo) (by omega)
    · rw [if_neg hNeg, runs_handle_iff _ _ _ _ (Nat.min_le_right _ _) (fun _ => runs_ok _)]
      constructor
      · exact fun h => ⟨h.2, fun _ => by omega⟩
      · exact fun h => ⟨by omega, h.1⟩

/- The flag of the attributes is before what follows it. -/
theorem runs_attributes_iff (k : Nat → Except Fault A) :
    Runs (nfs3GetAttributesOffset rpc >>= k) ↔ DATA 2 ≤ rpc.length ∧
        Runs (k (if wordAt rpc (DATA 1) ≠ 0 then 22
          else 1)) := by
  unfold nfs3GetAttributesOffset
  rw [bind_assoc, runs_word_iff]
  apply and_congr_right
  intro _
  split_ifs
  · exact Iff.rfl
  · exact Iff.rfl

theorem runs_setPath_iff (bs : List UInt8) :
    Runs (setPath bs) ↔ bs.length < PATH_SIZE ∧ slash ∈ cstr bs := by
  unfold setPath
  split_ifs with hFits
  · split
    · rename_i dir name hSplit
      have hEq := (splitPath_eq hSplit).1
      refine ⟨fun _ => ⟨hFits, ?_⟩, fun _ => runs_ok _⟩
      rw [hEq]
      exact mem_append_right _ mem_cons_self
    · rename_i hNone
      constructor
      · exact fun h => absurd h (not_runs_error _)
      · intro h
        exact absurd h.2 (splitPath_isNone hNone)
  · exact ⟨fun h => absurd h (not_runs_error _), fun h => absurd h.1 hFits⟩

/- The target of the link starts with its first byte. -/
theorem slash_mem_target {off len : Nat} (hFirst : bytesAt rpc off 1 = [slash]) (hPos : 0 < len) :
    slash ∈ cstr (bytesAt rpc off len) := by
  unfold bytesAt at hFirst ⊢
  cases hRest : rpc.drop off with
  | nil =>
    rw [hRest] at hFirst
    cases hFirst
  | cons b rest =>
    rw [hRest] at hFirst
    cases hFirst
    rcases Nat.exists_eq_succ_of_ne_zero (Nat.ne_of_gt hPos) with ⟨n, rfl⟩
    unfold cstr
    rw [take_succ_cons, takeWhile_cons_of_pos (by decide)]
    exact mem_cons_self

/- The NUL after a path is where the link is put. -/
theorem cstr_append {path : List UInt8} (hPath : 0 ∉ path) (target : List UInt8) :
    cstr (path ++ slash :: target) = path ++ slash :: cstr target := by
  unfold cstr
  rw [takeWhile_append_of_pos, takeWhile_cons_of_pos (by decide)]
  intro b hb
  have hNe : b ≠ 0 := fun hEq => hPath (hEq ▸ hb)
  exact decide_eq_true hNe

theorem runs_followLink_iff {off len : Nat} (paths : PathBuffer) (hLen : off + len ≤ rpc.length) :
    Runs (followLink paths (bytesAt rpc off 1) (bytesAt rpc off len)) ↔
      if bytesAt rpc off 1 ≠ [slash] then
        paths.path.length + 1 + len < PATH_SIZE
      else 0 < len ∧ len < PATH_SIZE := by
  have hLength : (bytesAt rpc off len).length = len := by
    unfold bytesAt
    rw [length_take, length_drop]
    omega
  unfold followLink
  split_ifs with hFirst
  · rw [runs_setPath_iff, cstr_append paths.path_no_nul, length_append, length_cons, hLength]
    constructor
    · rintro ⟨hLt, -⟩
      omega
    · intro hLt
      refine ⟨by omega, ?_⟩
      exact mem_append_right _ mem_cons_self
  · rw [runs_setPath_iff, hLength]
    have hSlash := Classical.not_not.mp hFirst
    constructor
    · rintro ⟨hLt, hMem⟩
      refine ⟨Nat.pos_of_ne_zero ?_, hLt⟩
      intro hZero
      rw [hZero] at hMem
      cases hMem
    · exact fun h => ⟨h.2, slash_mem_target hSlash h.1⟩

theorem runs_linkOffset_iff (k : Nat → Except Fault A) :
    Runs (linkOffset cl rpc >>= k) ↔
      (cl.v2 = false → DATA 2 ≤ rpc.length) ∧ Runs (k (attributesOffset cl rpc)) := by
  unfold linkOffset attributesOffset
  cases cl.v2 with
  | true => exact ⟨fun h => ⟨nofun, h⟩, fun h => h.2⟩
  | false =>
    rw [if_neg Bool.false_ne_true, if_neg Bool.false_ne_true, runs_attributes_iff]
    exact ⟨fun h => ⟨fun _ => h.1, h.2⟩, fun h => ⟨h.1 rfl, h.2⟩⟩

theorem runs_nfsReadlinkReply_iff (hState : cl.state = .readlink) :
    Runs (nfsReadlinkReply pkt cl) ↔ PacketFits cl pkt := by
  have hFields : statusFields cl = [RSTATUS, VERIFIER, ASTATUS, DATA 0] := by
    unfold statusFields
    rw [hState]
  have hError : ∀ rpc, errorNeeded cl rpc = 0 := by
    intro rpc
    unfold errorNeeded
    rw [hState]
  have hNot : cl.state ≠ .read := by
    rw [hState]
    decide
  unfold nfsReadlinkReply
  rw [← hFields]
  refine runs_copy_parse_iff (fun _ => .ok (-1, cl)) hNot
    (fun rpc => runs_minus_one_iff (hError rpc)) ?_
  intro rpc
  unfold contentNeeded RoomFits linkAt linkLength
  rw [runs_linkOffset_iff, hState]
  dsimp only
  generalize attributesOffset cl rpc = offset
  have hNext : DATA (1 + offset) + 4 = DATA (2 + offset) := by
    unfold DATA
    omega
  have hFlag : DATA 2 ≤ DATA (2 + offset) := by
    unfold DATA
    omega
  rw [runs_word_iff, runs_bytes_iff, runs_bytes_iff, runs_bind_of_forall fun _ => runs_ok _]
  constructor
  · rintro ⟨-, -, hFirst, hLen, hRoom⟩
    exact ⟨by omega, (runs_followLink_iff _ hLen).mp hRoom⟩
  · rintro ⟨hLen, hRoom⟩
    refine ⟨fun _ => by omega, by omega, by omega, by omega, ?_⟩
    exact (runs_followLink_iff _ (by omega)).mpr hRoom

theorem runs_readPlace_iff (k : Nat × Nat → Except Fault A) :
    Runs (readPlace cl rpc >>= k) ↔
      (cl.v2 = false → DATA 2 ≤ rpc.length) ∧ Runs (k (countAt cl rpc, dataAt cl rpc)) := by
  unfold readPlace countAt dataAt attributesOffset
  cases cl.v2 with
  | true => exact ⟨fun h => ⟨nofun, h⟩, fun h => h.2⟩
  | false =>
    simp only [Bool.false_eq_true, if_false]
    rw [bind_assoc, runs_attributes_iff]
    exact ⟨fun h => ⟨fun _ => h.1, h.2⟩, fun h => ⟨h.1 trivial, h.2⟩⟩

theorem runs_readError_iff (hState : cl.state = .read) :
    Runs (readError rpc cl) ↔ errorNeeded cl rpc ≤ rpc.length := by
  have hStatus : RSTATUS = 8 ∧ ASTATUS = 20 ∧ DATA 0 = 24 := ⟨rfl, rfl, rfl⟩
  unfold readError errorNeeded
  rw [runs_word_iff, hState]
  dsimp only
  split_ifs with hRstatus hAstatus
  · exact ⟨fun h => by omega, fun h => ⟨by omega, runs_ok _⟩⟩
  · rw [runs_word_iff, if_pos hAstatus]
    exact ⟨fun h => by omega, fun h => ⟨by omega, by omega, runs_ok _⟩⟩
  · rw [runs_word_iff, if_neg hAstatus, runs_word_iff]
    exact ⟨fun h => by omega, fun h => ⟨by omega, by omega, by omega, runs_ok _⟩⟩

theorem count_before_data (cl : Client) (rpc : List UInt8) :
    DATA 2 ≤ dataAt cl rpc ∧ countAt cl rpc + 4 ≤ dataAt cl rpc := by
  unfold dataAt countAt DATA
  split_ifs <;> omega

theorem runs_nfsReadReply_iff (loadAddr : Nat) (hState : cl.state = .read) :
    Runs (nfsReadReply loadAddr pkt cl) ↔ PacketFits cl pkt := by
  have hFields : statusFields cl = [RSTATUS, VERIFIER, ASTATUS, DATA 0] := by
    unfold statusFields
    rw [hState]
  have hRoom : ∀ rpc, RoomFits cl rpc := by
    intro rpc
    unfold RoomFits
    rw [hState]
    trivial
  unfold nfsReadReply
  rw [← hFields]
  have hParse := runs_parse_iff (received pkt) (fun rpc => readError rpc cl)
    (fun rpc => do
      let place ← readPlace cl rpc
      let rlen ← word rpc place.1
      let src ← bytes rpc place.2 rlen
      .ok (toInt rlen, storeBlock loadAddr src cl))
    (runs_readError_iff hState)
    (by
      have hBefore := count_before_data cl (received pkt)
      unfold contentNeeded
      rw [runs_readPlace_iff, runs_word_iff, runs_bytes_iff, hState]
      dsimp only
      constructor
      · exact fun h => ⟨h.2.2.1, hRoom _⟩
      · exact fun h => ⟨fun _ => by omega, by omega, h.1, runs_ok _⟩)
  refine Iff.trans hParse ?_
  constructor
  · rintro ⟨hNeeded, hRoom⟩
    exact ⟨fun hNot => absurd hState hNot, hNeeded, hRoom⟩
  · exact fun h => ⟨h.hNeeded, h.hRoom⟩

end Parsers

----
-- The Handler
----

/- What the handler does with the result never fails. -/
theorem nfsHandler_runs_iff (loadAddr dest : Nat) (pkt : List UInt8) (cl : Client) :
    Runs (nfsHandler loadAddr dest pkt cl) ↔ (dest = NFS_OUR_PORT → PacketFits cl pkt) := by
  unfold nfsHandler
  by_cases hDest : dest = NFS_OUR_PORT
  · rw [if_neg (not_not.mpr hDest)]
    refine Iff.trans ?_ ⟨fun h _ => h, fun h => h hDest⟩
    cases hState : cl.state with
    | prclookupProgMount =>
      rw [← runs_rpcLookupReply_iff .mount (Or.inl hState)]
      refine runs_bind_of_forall (fun r => ?_) _
      dsimp only
      split_ifs
      · exact runs_ok _
      · exact sendIn_runs _ _
    | prclookupProgNfs =>
      rw [← runs_rpcLookupReply_iff .nfs (Or.inr hState)]
      refine runs_bind_of_forall (fun r => ?_) _
      dsimp only
      split_ifs
      · exact runs_ok _
      · exact sendIn_runs _ _
    | mount =>
      rw [← runs_nfsMountReply_iff hState]
      refine runs_bind_of_forall (fun r => ?_) _
      dsimp only
      split_ifs
      · exact runs_ok _
      · exact sendIn_runs _ _
      · exact sendIn_runs _ _
    | umount =>
      rw [← runs_nfsUmountallReply_iff hState]
      refine runs_bind_of_forall (fun r => ?_) _
      dsimp only
      split_ifs
      · exact runs_ok _
      · exact runs_ok _
      · exact runs_ok _
    | lookup =>
      rw [← runs_nfsLookupReply_iff hState]
      refine runs_bind_of_forall (fun r => ?_) _
      dsimp only
      split_ifs
      · exact runs_ok _
      · exact sendIn_runs _ _
      · exact retryVersion_runs _
      · exact sendIn_runs _ _
    | read =>
      rw [← runs_nfsReadReply_iff loadAddr hState]
      exact runs_bind_of_forall (fun r : Int × Client => afterRead_runs r.1 r.2) _
    | readlink =>
      rw [← runs_nfsReadlinkReply_iff hState]
      refine runs_bind_of_forall (fun r => ?_) _
      dsimp only
      split_ifs
      · exact runs_ok _
      · exact sendIn_runs _ _
      · exact sendIn_runs _ _
  · rw [if_pos hDest]
    exact ⟨fun _ hEq => absurd hEq hDest, fun _ => runs_ok _⟩

----
-- Sequences Of Packets
----

/- Packets that come one after the other, each to a port. -/
def deliverAll (loadAddr : Nat) :
    List (Nat × List UInt8) → Client → Except Fault Client
  | [], cl => .ok cl
  | (dest, pkt) :: rest, cl =>
    nfsHandler loadAddr dest pkt cl >>= deliverAll loadAddr rest

/-
  The client takes packets without a fault if and only if
  each of them fits the state that it is received in.
-/
theorem nfs_client_safe_iff (loadAddr : Nat) (pkts : List (Nat × List UInt8)) (cl : Client) :
    Runs (deliverAll loadAddr pkts cl) ↔ ∀ before dest pkt after cl',
        pkts = before ++ (dest, pkt) :: after →
          deliverAll loadAddr before cl = .ok cl' → dest = NFS_OUR_PORT → PacketFits cl' pkt := by
  induction pkts generalizing cl with
  | nil =>
    constructor
    · intro _ before dest pkt after cl' hEq
      cases before <;> cases hEq
    · exact fun _ => runs_ok cl
  | cons first rest ih =>
    rcases first with ⟨dest, pkt⟩
    change Runs (_ >>= _) ↔ _
    rw [runs_bind_iff]
    constructor
    · rintro ⟨next, hNext, hRest⟩
      rw [ih] at hRest
      intro before dest' pkt' after cl' hEq hBefore
      cases before with
      | nil =>
        cases hEq
        cases hBefore
        exact (nfsHandler_runs_iff _ _ _ _).mp ⟨next, hNext⟩
      | cons head before =>
        cases hEq
        apply hRest before dest' pkt' after cl' rfl
        change nfsHandler _ _ _ _ >>= _ = _ at hBefore
        rw [hNext] at hBefore
        exact hBefore
    · intro hFits
      have hFirst := hFits [] dest pkt rest cl rfl rfl
      rcases (nfsHandler_runs_iff loadAddr _ _ _).mpr hFirst with ⟨next, hNext⟩
      refine ⟨next, hNext, (ih next).mpr ?_⟩
      intro before dest' pkt' after cl' hEq hBefore
      apply hFits ((dest, pkt) :: before) dest' pkt' after cl'
      · rw [hEq]
        rfl
      · change nfsHandler _ _ _ _ >>= _ = _
        rw [hNext]
        exact hBefore

----
-- A Count That Does Not Fit
----

theorem letter_no_nul : 0 ∉ ([98] : List UInt8) := by
  decide

/- A client that waits for the first block of a file. -/
def readingClient : Client where
  fsMounted := true
  rpcId := 5
  nfsOffset := 0
  nfsLen := NFS_READ_SIZE
  dirfh := ⟨List.replicate NFS_FHSIZE 1, length_replicate⟩
  filefh := ⟨List.replicate NFS3_FHSIZE 2, length_replicate⟩
  filefh3Length := 0
  downloadState := .fail
  mountPort := 635
  serverPort := 2049
  timeoutCount := 0
  state := .read
  paths :=
    { path := [slash, 97]
      filename := [98]
      path_no_nul := by decide
      filename_no_nul := letter_no_nul
      fits := by decide }
  v2 := true
  netState := .continue
  netBootFileSize := 0
  memory := fun _ => 0
  sent := []
  filefh3Length_le := by decide

/- The count is 1024, and four bytes follow it. -/
def shortRead : List UInt8 :=
  be32 5 ++ be32 1 ++ List.replicate 88 0 ++ be32 1024 ++ [1, 2, 3, 4]

/- Bytes that were not received are stored as the file. -/
theorem nfs_read_count_not_checked :
    wordAt shortRead (DATA 18) = 1024 ∧ shortRead.length = 104 ∧
      ¬ Runs (deliverAll 0x1000 [(NFS_OUR_PORT, shortRead)] readingClient) := by
  refine ⟨by decide +kernel, by decide +kernel, ?_⟩
  intro hRuns
  rcases (runs_bind_iff _ _).mp hRuns with ⟨cl, hEq, -⟩
  have hFits := (nfsHandler_runs_iff 0x1000 NFS_OUR_PORT shortRead readingClient).mp ⟨cl, hEq⟩ rfl
  have hShort : ¬ needed readingClient (received shortRead) ≤ (received shortRead).length := by
    decide +kernel
  exact hShort hFits.hNeeded

end Uboot.Nfs
