import BootFirmware.Uboot.Nfs.Server

/-
  What the client does with the replies of a correct server,
  in every run.

  Key definitions include:
    * `Transfer.Base` and `Transfer.Inv`

  The main results are:
    * `nfsHandler_late`
    * `Transfer.reachable_inv`
    * `nfs_transfer`
    * `nfs_late_reply_aborts`
-/

----
-- Fields Of A Reply
----

namespace Uboot.Nfs

open Faults List

section Fields

variable {cl : Client} {rpc pkt : List UInt8} {accepted : Reply}

theorem word_ok {off : Nat} (hLe : off + 4 ≤ rpc.length) :
    word rpc off = .ok (wordAt rpc off) :=
  if_pos hLe

theorem bytes_ok {off len : Nat} (hLe : off + len ≤ rpc.length) :
    bytes rpc off len = .ok (bytesAt rpc off len) :=
  if_pos hLe

theorem copyPacket_ok (hLe : pkt.length ≤ RPC_SIZE) :
    copyPacket pkt = .ok pkt :=
  if_pos hLe

theorem checkId_late (hLength : 4 ≤ rpc.length) (hLate : wordAt rpc 0 < cl.rpcId) :
    checkId rpc cl accepted = .ok (-NFS_RPC_DROP, cl) := by
  unfold checkId
  rw [word_ok hLength]
  change (if _ then _ else _) = _
  rw [if_neg (by omega), if_pos hLate]

theorem checkId_current (hLength : 4 ≤ rpc.length) (hId : wordAt rpc 0 = cl.rpcId) :
    checkId rpc cl accepted = accepted := by
  unfold checkId
  rw [word_ok hLength]
  change (if _ then _ else _) = _
  rw [if_neg (by omega), if_neg (by omega)]

theorem anySet_false
    {offs : List Nat} (hFields : ∀ off ∈ offs, off + 4 ≤ rpc.length ∧ wordAt rpc off = 0) :
    anySet rpc offs = .ok false := by
  induction offs with
  | nil => rfl
  | cons off rest ih =>
    rcases hFields off mem_cons_self with ⟨hLe, hZero⟩
    unfold anySet
    rw [word_ok hLe]
    change (if _ then _ else _) = _
    rw [if_neg (not_not.mpr hZero)]
    exact ih fun o ho => hFields o (mem_cons_of_mem _ ho)

theorem anySet_true
    {off : Nat} (before : List Nat) (hBefore : ∀ o ∈ before, o + 4 ≤ rpc.length ∧ wordAt rpc o = 0)
    (hLe : off + 4 ≤ rpc.length) (hSet : wordAt rpc off ≠ 0) (rest : List Nat) :
    anySet rpc (before ++ off :: rest) = .ok true := by
  induction before with
  | nil =>
    rw [nil_append]
    unfold anySet
    rw [word_ok hLe]
    exact if_pos hSet
  | cons o before ih =>
    rcases hBefore o mem_cons_self with ⟨hLe', hZero⟩
    rw [cons_append]
    unfold anySet
    rw [word_ok hLe']
    change (if _ then _ else _) = _
    rw [if_neg (not_not.mpr hZero)]
    exact ih fun o' ho' => hBefore o' (mem_cons_of_mem _ ho')

end Fields

section

variable (id : Nat)

/- The three words of the header that tell of an error. -/
theorem header_fields (body : List UInt8) :
    ∀ off ∈ [RSTATUS, VERIFIER, ASTATUS],
      off + 4 ≤ (replyHeader id 0 ++ body).length ∧ wordAt (replyHeader id 0 ++ body) off = 0 := by
  have hStatus : RSTATUS = 8 ∧ VERIFIER = 12 ∧ ASTATUS = 20 := ⟨rfl, rfl, rfl⟩
  rw [length_append, length_replyHeader]
  simp only [forall_mem_cons, wordAt_header_rstatus, wordAt_header_verifier]
  rw [wordAt_header_astatus id (by decide)]
  exact ⟨⟨by omega, trivial⟩, ⟨by omega, trivial⟩, ⟨by omega, rfl⟩, nofun⟩

theorem anySet_refused
    {astatus : Nat} (hPos : 0 < astatus) (hLt : astatus < 2 ^ 32) (rest : List Nat) :
    anySet (replyHeader id astatus) (RSTATUS :: VERIFIER :: ASTATUS :: rest) = .ok true := by
  have hStatus : RSTATUS = 8 ∧ VERIFIER = 12 ∧ ASTATUS = 20 := ⟨rfl, rfl, rfl⟩
  have hLength := length_replyHeader id astatus
  rw [← append_nil (replyHeader id astatus)] at hLength ⊢
  apply anySet_true [RSTATUS, VERIFIER]
  · simp only [forall_mem_cons, wordAt_header_rstatus, wordAt_header_verifier]
    exact ⟨⟨by omega, trivial⟩, ⟨by omega, trivial⟩, nofun⟩
  · omega
  · rw [wordAt_header_astatus id hLt]
    omega

theorem wordAt_status {status : Nat} (hLt : status < 2 ^ 32) (rest : List UInt8) :
    wordAt (replyHeader id 0 ++ (be32 status ++ rest)) (DATA 0) = status := by
  rw [wordAt_body]
  exact wordAt_be32 hLt rest

theorem anySet_failed
    {status : Nat} (hPos : 0 < status) (hLt : status < 2 ^ 32) (rest : List UInt8) :
    anySet (replyHeader id 0 ++ (be32 status ++ rest))
      [RSTATUS, VERIFIER, ASTATUS, DATA 0] = .ok true := by
  have hData : DATA 0 = 24 := rfl
  apply anySet_true _ (header_fields id _)
  · simp only [length_append, length_replyHeader, length_be32]
    omega
  · rw [wordAt_status id hLt]
    omega

theorem anySet_success (rest : List UInt8) :
    anySet (replyHeader id 0 ++ (be32 0 ++ rest))
      [RSTATUS, VERIFIER, ASTATUS, DATA 0] = .ok false := by
  have hData : DATA 0 = 24 := rfl
  apply anySet_false
  intro off hMem
  rcases mem_append.mp
    (show off ∈ [RSTATUS, VERIFIER, ASTATUS] ++ [DATA 0]
      from hMem) with hMem | hMem
  · exact header_fields id _ off hMem
  · rw [mem_singleton.mp hMem, wordAt_status id (by decide)]
    simp only [length_append, length_replyHeader, length_be32]
    exact ⟨by omega, trivial⟩

end

----
-- Late Replies
----

/- Only one state does not drop a late reply. -/
theorem nfsHandler_late {cl : Client} {pkt : List UInt8} (loadAddr : Nat) (hLength : 4 ≤ pkt.length)
    (hFits : pkt.length ≤ RPC_SIZE) (hLate : wordAt pkt 0 < cl.rpcId) :
    nfsHandler loadAddr NFS_OUR_PORT pkt cl =
      if cl.state = .read then sendIn .umount cl
      else .ok cl := by
  have hCopy := copyPacket_ok hFits
  have hCheck : ∀ accepted, checkId pkt cl accepted = .ok (-NFS_RPC_DROP, cl) :=
    fun _ => checkId_late hLength hLate
  unfold nfsHandler
  rw [if_neg (not_not.mpr rfl)]
  cases hState : cl.state with
  | prclookupProgMount | prclookupProgNfs =>
    unfold rpcLookupReply
    rw [hCopy]
    change (checkId _ _ _ >>= _) = _
    rw [hCheck]
    rfl
  | mount =>
    unfold nfsMountReply
    rw [hCopy]
    change (checkId _ _ _ >>= _) = _
    rw [hCheck]
    rfl
  | umount =>
    unfold nfsUmountallReply
    rw [hCopy]
    change (checkId _ _ _ >>= _) = _
    rw [hCheck]
    rfl
  | lookup =>
    unfold nfsLookupReply
    rw [hCopy]
    change (checkId _ _ _ >>= _) = _
    rw [hCheck]
    rfl
  | readlink =>
    unfold nfsReadlinkReply
    rw [hCopy]
    change (checkId _ _ _ >>= _) = _
    rw [hCheck]
    rfl
  | read =>
    unfold nfsReadReply
    rw [take_of_length_le hFits]
    rw [hCheck]
    rfl

----
-- Replies To The Last Request
----

section Replies

variable {srv : Server} {req : Request} {cl cl' : Client} {pkt : List UInt8} {reply : Int}

/- A reply to the last request is looked at. -/
theorem checkId_answer (hAnswers : Answers srv req pkt) (hId : req.id = cl.rpcId)
    (hRpc : cl.rpcId < 2 ^ 32) (accepted : Reply) :
    checkId pkt cl accepted = accepted := by
  rcases hAnswers.header with ⟨astatus, body, rfl⟩
  apply checkId_current
  · rw [length_append, length_replyHeader]
    omega
  · rw [wordAt_header_id (by omega)]
    exact hId

theorem checkId_stores {accepted : Reply} (hReply : checkId pkt cl accepted = .ok (reply, cl')) :
    cl' = cl ∨ accepted = .ok (reply, cl') := by
  rcases bind_eq_ok hReply with ⟨id, -, hRest⟩
  split_ifs at hRest
  · cases hRest
    exact Or.inl rfl
  · cases hRest
    exact Or.inl rfl
  · exact Or.inr hRest

theorem rpcLookupReply_stores
    {prog : Prog} (hReply : rpcLookupReply prog pkt cl = .ok (reply, cl')) :
    ∃ mountPort serverPort, cl' = { cl with
        mountPort := mountPort
        serverPort := serverPort } := by
  rcases bind_eq_ok hReply with ⟨rpc, -, hCheck⟩
  rcases checkId_stores hCheck with rfl | hRest
  · exact ⟨cl'.mountPort, cl'.serverPort, rfl⟩
  · rcases bind_eq_ok hRest with ⟨set, -, hRest⟩
    cases set with
    | true =>
      cases hRest
      exact ⟨cl.mountPort, cl.serverPort, rfl⟩
    | false =>
      rcases bind_eq_ok hRest with ⟨port, -, hRest⟩
      cases prog <;> cases hRest <;> exact ⟨_, _, rfl⟩

/- The mark of the mount and its handle are cleared. -/
theorem nfsUmountallReply_stores (hReply : nfsUmountallReply pkt cl = .ok (reply, cl')) :
    ∃ fsMounted dirfh, cl' = { cl with
        fsMounted := fsMounted
        dirfh := dirfh } := by
  rcases bind_eq_ok hReply with ⟨rpc, -, hCheck⟩
  rcases checkId_stores hCheck with rfl | hRest
  · exact ⟨cl'.fsMounted, cl'.dirfh, rfl⟩
  · rcases bind_eq_ok hRest with ⟨set, -, hRest⟩
    cases set with
    | true =>
      cases hRest
      exact ⟨cl.fsMounted, cl.dirfh, rfl⟩
    | false =>
      cases hRest
      exact ⟨_, _, rfl⟩

theorem Buffer.copy_eq {size n : Nat} (buffer : Buffer size) (src : Buffer n) (hLe : n ≤ size) :
    ∃ copied, buffer.copy src.bytes = .ok copied ∧ copied.bytes.take n = src.bytes := by
  have hLength := src.length_bytes
  unfold Buffer.copy
  rw [dif_pos (by omega)]
  exact ⟨_, rfl, take_left' hLength⟩

theorem Buffer.copy_self {size : Nat} (buffer src : Buffer size) :
    buffer.copy src.bytes = .ok src := by
  have hLength := src.length_bytes
  have hRest : buffer.bytes.drop src.bytes.length = [] :=
    drop_eq_nil_of_le (by rw [hLength, buffer.length_bytes])
  unfold Buffer.copy
  rw [dif_pos (by omega)]
  congr
  rw [hRest, append_nil]

theorem bytes_handle (id : Nat) (fh : Buffer NFS_FHSIZE) (rest : List UInt8) :
    bytes (replyHeader id 0 ++ (be32 0 ++ (fh.bytes ++ rest)))
      (DATA 1) NFS_FHSIZE = .ok fh.bytes := by
  have hLength := fh.length_bytes
  have hData : DATA 1 = 28 := rfl
  rw [bytes_ok, bytesAt_body]
  · have hSkip := bytesAt_be32_skip 0 0 NFS_FHSIZE (fh.bytes ++ rest)
    rw [bytesAt_take (by omega), take_of_length_le (by omega)] at hSkip
    exact congrArg Except.ok hSkip
  · simp only [length_append, length_replyHeader, length_be32]
    omega

section

variable (hAnswers : Answers srv req pkt) (hId : req.id = cl.rpcId) (hRpc : cl.rpcId < 2 ^ 32)
include hAnswers hId hRpc

theorem nfsMountReply_answer {path : List UInt8} (hCall : req.call = .mount path) :
    nfsMountReply pkt cl = .ok (-1, cl) ∨ ∃ fh, srv.mount path = some fh ∧
        nfsMountReply pkt cl = .ok (0, { cl with fsMounted := true, dirfh := fh }) := by
  have hFits := hAnswers.length_le fun fh offset count hRead => by
    rw [hCall] at hRead
    cases hRead
  unfold nfsMountReply
  rw [copyPacket_ok hFits]
  change checkId _ _ _ = _ ∨ ∃ fh, _ ∧ checkId _ _ _ = _
  rw [checkId_answer hAnswers hId hRpc]
  cases hAnswers with
  | refused hPos hLt _ =>
    left
    rw [anySet_refused _ hPos hLt]
    rfl
  | failed _ hPos hLt =>
    left
    rw [← append_nil (be32 _), anySet_failed _ hPos (by omega)]
    rfl
  | mounted hMount hSome =>
    right
    rw [hCall] at hMount
    cases hMount
    refine ⟨_, hSome, ?_⟩
    rw [anySet_success]
    change (bytes _ _ _ >>= _) = _
    rw [← append_nil (Buffer.bytes _), bytes_handle]
    change (Buffer.copy _ _ >>= _) = _
    rw [Buffer.copy_self]
    rfl
  | port hOther | unmounted hOther | found hOther
  | target hOther | data hOther =>
    rw [hCall] at hOther
    cases hOther

theorem nfsLookupReply_answer
    {dirfh name : List UInt8} (hV2 : cl.v2 = true) (hCall : req.call = .lookup dirfh name) :
    nfsLookupReply pkt cl = .ok (-1, cl) ∨
      ∃ fh filefh, srv.lookup dirfh name = some fh ∧ filefh.bytes.take NFS_FHSIZE = fh.bytes ∧
        nfsLookupReply pkt cl = .ok (0, { cl with filefh := filefh }) := by
  have hFits := hAnswers.length_le fun fh offset count hRead => by
    rw [hCall] at hRead
    cases hRead
  have hAstatus : ASTATUS = 20 := rfl
  unfold nfsLookupReply
  rw [copyPacket_ok hFits]
  change checkId _ _ _ = _ ∨ ∃ fh filefh, _ ∧ _ ∧ checkId _ _ _ = _
  rw [checkId_answer hAnswers hId hRpc]
  cases hAnswers with
  | @refused astatus hPos hLt hMatch =>
    left
    rw [anySet_refused _ hPos hLt, ok_bind, if_pos rfl]
    have hLength := length_replyHeader req.id astatus
    have hWord := wordAt_header_astatus req.id hLt []
    rw [append_nil] at hWord
    unfold lookupError
    rw [word_ok (by omega), hWord]
    exact if_neg hMatch
  | @failed status _ hPos hLt =>
    left
    rw [← append_nil (be32 _), anySet_failed _ hPos (by omega), ok_bind, if_pos rfl]
    have hWord := wordAt_header_astatus req.id (show 0 < 2 ^ 32 by decide) (be32 status ++ [])
    unfold lookupError
    have hNe : 0 ≠ NFS_RPC_PROG_MISMATCH := by decide
    rw [word_ok, hWord, ok_bind, if_neg hNe]
    · rw [length_append, length_replyHeader]
      omega
  | @found dirfh' name' fh attributes hFound hSome =>
    right
    rw [hCall] at hFound
    cases hFound
    rcases Buffer.copy_eq cl.filefh fh (by decide) with ⟨filefh, hCopy, hTake⟩
    refine ⟨fh, filefh, hSome, hTake, ?_⟩
    rw [anySet_success]
    change (if _ then _ else _) = _
    rw [if_pos hV2]
    change (bytes _ _ _ >>= _) = _
    rw [bytes_handle]
    change (Buffer.copy _ _ >>= _) = _
    rw [hCopy]
    rfl
  | port hOther | unmounted hOther | mounted hOther
  | target hOther | data hOther =>
    rw [hCall] at hOther
    cases hOther

theorem nfsReadlinkReply_answer
    {fh : List UInt8} (hV2 : cl.v2 = true) (hCall : req.call = .readlink fh) :
    nfsReadlinkReply pkt cl = .ok (-1, cl) ∨ ∃ target, srv.node fh = .link target ∧
        nfsReadlinkReply pkt cl = (followLink cl.paths (target.take 1) target >>=
            fun paths => .ok (0, { cl with paths := paths })) := by
  have hFits := hAnswers.length_le fun fh offset count hRead => by
    rw [hCall] at hRead
    cases hRead
  unfold nfsReadlinkReply
  rw [copyPacket_ok hFits]
  change checkId _ _ _ = _ ∨ ∃ target, _ ∧ checkId _ _ _ = _
  rw [checkId_answer hAnswers hId hRpc]
  cases hAnswers with
  | refused hPos hLt _ =>
    left
    rw [anySet_refused _ hPos hLt]
    rfl
  | failed _ hPos hLt =>
    left
    rw [← append_nil (be32 _), anySet_failed _ hPos (by omega)]
    rfl
  | @target fh' target pad hTarget hNode hPad =>
    right
    rw [hCall] at hTarget
    cases hTarget
    refine ⟨target, hNode, ?_⟩
    rcases srv.link_le _ _ hNode with ⟨hNe, hLe, -⟩
    have hPos := length_pos_iff.mpr hNe
    have hData : DATA 1 = 28 ∧ DATA 2 = 32 := ⟨rfl, rfl⟩
    have hLength : (replyHeader req.id 0 ++
        (be32 0 ++ (be32 target.length ++ (target ++ pad)))).length =
        32 + target.length + pad.length := by
      simp only [length_append, length_replyHeader, length_be32]
      omega
    have hWord : wordAt (replyHeader req.id 0 ++
        (be32 0 ++ (be32 target.length ++ (target ++ pad)))) (DATA 1) = target.length := by
      rw [wordAt_body]
      exact (wordAt_be32_skip 0 0 _).trans (wordAt_be32 (by omega) _)
    have hBytes : ∀ len, len ≤ target.length → bytes (replyHeader req.id 0 ++
          (be32 0 ++ (be32 target.length ++ (target ++ pad)))) (DATA 2) len =
          .ok (target.take len) := by
      intro len hLen
      rw [bytes_ok (by omega), bytesAt_body]
      have hSkip := bytesAt_be32_skip 0 4 len (be32 target.length ++ (target ++ pad))
      have hNext := bytesAt_be32_skip target.length 0 len (target ++ pad)
      rw [hNext, bytesAt_take hLen] at hSkip
      exact congrArg Except.ok hSkip
    have hOffset : linkOffset cl (replyHeader req.id 0 ++
        (be32 0 ++ (be32 target.length ++ (target ++ pad)))) = .ok 0 := if_pos hV2
    have hCount : DATA 1 + 4 ≤ (replyHeader req.id 0 ++
        (be32 0 ++ (be32 target.length ++ (target ++ pad)))).length := by
      omega
    rw [anySet_success, ok_bind, if_neg Bool.false_ne_true,
      hOffset, ok_bind, word_ok hCount, hWord, ok_bind,
      hBytes 1 hPos, ok_bind, hBytes _ (Nat.le_refl _), ok_bind, take_length]
  | port hOther | unmounted hOther | mounted hOther
  | found hOther | data hOther =>
    rw [hCall] at hOther
    cases hOther

end

theorem readError_answer {status : Nat} (hPos : 0 < status) (hLt : status < 2 ^ 31) :
    readError (replyHeader req.id 0 ++ (be32 status ++ [])) cl = .ok (-(status : Int), cl) := by
  have hOff : RSTATUS = 8 ∧ ASTATUS = 20 ∧ DATA 0 = 24 := ⟨rfl, rfl, rfl⟩
  have hLength : (replyHeader req.id 0 ++ (be32 status ++ [])).length = 28 := by rfl
  have hNeg : toInt (2 ^ 32 - status) = -(status : Int) := by
    rw [toInt_eq_neg_iff _ _ hPos (by omega)]
    omega
  unfold readError
  rw [word_ok (by omega), ok_bind, wordAt_header_rstatus,
    if_neg (not_not.mpr rfl), word_ok (by omega), ok_bind, wordAt_header_astatus _ (by decide),
    if_neg (not_not.mpr rfl), word_ok (by omega), ok_bind, wordAt_status _ (by omega), hNeg]

/- The bytes of a block are stored. -/
theorem nfsReadReply_data
    {contents pad : List UInt8} {offset n loadAddr id : Nat} {attributes : Buffer 68}
    (hV2 : cl.v2 = true) (hRest : n ≤ contents.length - offset) (hLe : n ≤ NFS_READ_SIZE) :
    let rpc := replyHeader id 0 ++
      (be32 0 ++ (attributes.bytes ++ (be32 n ++ ((contents.drop offset).take n ++ pad))))
    (anySet rpc [RSTATUS, VERIFIER, ASTATUS, DATA 0] >>=
      fun set =>
        if set then readError rpc cl
        else do
          let place ← readPlace cl rpc
          let rlen ← word rpc place.1
          let src ← bytes rpc place.2 rlen
          .ok (toInt rlen, storeBlock loadAddr src cl)) =
      .ok ((n : Int), storeBlock loadAddr ((contents.drop offset).take n) cl) := by
  intro rpc
  have hSize : NFS_READ_SIZE = 1024 := rfl
  have hAttributes := attributes.length_bytes
  have hTake : ((contents.drop offset).take n).length = n := by
    rw [length_take, length_drop]
    omega
  have hLength : rpc.length = 100 + n + pad.length := by
    simp only [rpc, length_append, length_replyHeader, length_be32]
    omega
  have hPlace : readPlace cl rpc = .ok (96, 100) := if_pos hV2
  have hCount : wordAt rpc 96 = n := by
    have hData := wordAt_body id 0 18
      (be32 0 ++ (attributes.bytes ++ (be32 n ++ ((contents.drop offset).take n ++ pad))))
    have hSkip := wordAt_append attributes.bytes (be32 n ++
      ((contents.drop offset).take n ++ pad)) 0
    rw [hAttributes] at hSkip
    exact hData.trans ((wordAt_be32_skip 0 68 _).trans (hSkip.trans (wordAt_be32 (by omega) _)))
  have hBytes : bytesAt rpc 100 n = (contents.drop offset).take n := by
    have hData := bytesAt_body id 0 19 n
      (be32 0 ++ (attributes.bytes ++ (be32 n ++ ((contents.drop offset).take n ++ pad))))
    have hSkip := bytesAt_append attributes.bytes (be32 n ++
      ((contents.drop offset).take n ++ pad)) 4 n
    rw [hAttributes] at hSkip
    have hBlock : bytesAt ((contents.drop offset).take n ++ pad) 0 n = _ :=
      bytesAt_take (Nat.le_of_eq hTake.symm)
    rw [take_of_length_le (Nat.le_of_eq hTake)] at hBlock
    exact hData.trans ((bytesAt_be32_skip 0 72 n _).trans
      (hSkip.trans ((bytesAt_be32_skip n 0 n _).trans hBlock)))
  rw [anySet_success, ok_bind, if_neg Bool.false_ne_true,
    hPlace, ok_bind, word_ok (by dsimp only; omega), ok_bind,
    hCount, bytes_ok (by dsimp only; omega), ok_bind, hBytes, toInt_of_lt (by omega)]

theorem nfsReadReply_answer
    {fh : List UInt8} {offset : Nat} (loadAddr : Nat) (hAnswers : Answers srv req pkt)
    (hId : req.id = cl.rpcId) (hRpc : cl.rpcId < 2 ^ 32) (hV2 : cl.v2 = true)
    (hCall : req.call = .read fh offset NFS_READ_SIZE) :
    (∃ reply < 0, nfsReadReply loadAddr pkt cl = .ok (reply, cl)) ∨
      ∃ contents n, srv.node fh = .file contents ∧ n ≤ contents.length - offset ∧
        (n = 0 → contents.length ≤ offset) ∧ nfsReadReply loadAddr pkt cl =
          .ok ((n : Int), storeBlock loadAddr ((contents.drop offset).take n) cl) := by
  have hFits := hAnswers.length_le fun fh' offset' count hRead => by
    rw [hCall] at hRead
    cases hRead
    exact Nat.le_refl _
  have hAstatus : ASTATUS = 20 ∧ RSTATUS = 8 := ⟨rfl, rfl⟩
  unfold nfsReadReply
  rw [take_of_length_le hFits]
  rw [checkId_answer hAnswers hId hRpc]
  cases hAnswers with
  | @refused astatus hPos hLt hMatch =>
    left
    refine ⟨-9999, by decide, ?_⟩
    have hLength := length_replyHeader req.id astatus
    have hWord := wordAt_header_astatus req.id hLt []
    have hZero := wordAt_header_rstatus req.id astatus []
    rw [append_nil] at hWord hZero
    rw [anySet_refused _ hPos hLt, ok_bind, if_pos rfl]
    unfold readError
    rw [word_ok (by omega), ok_bind, hZero, if_neg (not_not.mpr rfl), word_ok (by omega), ok_bind,
      hWord]
    exact if_pos (Nat.ne_of_gt hPos)
  | @failed status _ hPos hLt =>
    left
    refine ⟨-status, by omega, ?_⟩
    rw [← append_nil (be32 _), anySet_failed _ hPos (by omega), ok_bind, if_pos rfl]
    exact readError_answer hPos hLt
  | @data fh' contents pad offset' count n attributes hData hNode hLe hRest hEnd hPad =>
    right
    rw [hCall] at hData
    cases hData
    refine ⟨contents, n, hNode, hRest, fun hZero => ?_, ?_⟩
    · rcases hEnd hZero with hCount | hDone
      · cases hCount
      · exact hDone
    · exact nfsReadReply_data hV2 hRest hLe
  | port hOther | unmounted hOther | mounted hOther
  | found hOther | target hOther =>
    rw [hCall] at hOther
    cases hOther

end Replies

----
-- The Invariant
----

/- The bytes of a file, and none of anything else. -/
def Node.contents : Node → List UInt8
  | .file contents => contents
  | .link _ => []
  | .other => []

/- The handle is that of the path and the name. -/
structure Found
    (srv : Server) (paths : PathBuffer) (handle : List UInt8)
    (fh : Buffer NFS_FHSIZE) : Prop where
  hLookup :
    ∃ dirfh, srv.mount paths.path = some dirfh ∧ srv.lookup dirfh.bytes paths.filename = some fh
  hHandle : handle = fh.bytes

/- The first bytes of the file were loaded. -/
structure Progress
    (contents : List UInt8) (memory : Memory UInt8)
    (loadAddr offset size : Nat) : Prop where
  hLe : offset ≤ contents.length
  hMemory : memory.slice loadAddr offset = contents.take offset
  hSize : size = offset

/- What was found out before each state. -/
def Phase (t : Transfer) (srv : Server)
    (cl : Client) : Prop :=
  match cl.state with
  | .prclookupProgMount | .prclookupProgNfs | .mount => cl.netBootFileSize = 0
  | .umount => True
  | .lookup => cl.netBootFileSize = 0 ∧ srv.mount cl.paths.path = some cl.dirfh
  | .read =>
    cl.nfsLen = NFS_READ_SIZE ∧ ∃ fh, Found srv cl.paths (fileHandle cl) fh ∧
        Progress (srv.node fh.bytes).contents cl.memory t.loadAddr cl.nfsOffset cl.netBootFileSize
  | .readlink =>
    ∃ fh, Found srv cl.paths (fileHandle cl) fh ∧
      ((srv.node fh.bytes).contents = [] → cl.netBootFileSize = 0)

/- The part of the invariant that a request does not touch. -/
structure Base
    (t : Transfer) (srv : Server)
    (cl : Client) : Prop where
  hV2 : cl.v2 = true
  hRpc : cl.rpcId < 2 ^ 32
  hIds : ∀ r ∈ cl.sent, r.id ≤ cl.rpcId
  hCount : ∀ r ∈ cl.sent, ∀ fh offset count, r.call = .read fh offset count → count = NFS_READ_SIZE
  hName : slash ∉ cl.paths.filename
  hPath : ∀ contents,
    srv.Holds (cl.paths.path ++ slash :: cl.paths.filename) contents → srv.Holds t.path contents
  hPhase : Phase t srv cl
  hDone : cl.downloadState = .success → cl.state = .umount ∧ t.Loaded srv cl
  hNet : cl.netState = .success → cl.downloadState = .success

/- The last request is the one of the state. -/
structure Inv
    (t : Transfer) (srv : Server)
    (cl : Client) : Prop where
  base : Base t srv cl
  hCurrent : cl.state ≠ .umount → ∀ r ∈ cl.sent, r.id = cl.rpcId → currentCall cl = some r.call

section Steps

variable {t : Transfer} {srv : Server} {cl cl' : Client}

theorem umount_of_currentCall_none (hNone : currentCall cl = none) :
    cl.state = .umount := by
  unfold currentCall at hNone
  cases hState : cl.state with
  | umount => rfl
  | prclookupProgMount | prclookupProgNfs | mount | lookup
  | read | readlink =>
    rw [hState] at hNone
    cases hNone

/- What is asked for in one read. -/
theorem Base.count_of_currentCall {fh : List UInt8} {offset count : Nat}
    (hBase : Base t srv cl) (hCall : currentCall cl = some (.read fh offset count)) :
    count = NFS_READ_SIZE := by
  have hPhase := hBase.hPhase
  unfold Phase at hPhase
  unfold currentCall at hCall
  cases hState : cl.state with
  | read =>
    rw [hState] at hCall hPhase
    cases hCall
    exact hPhase.1
  | umount =>
    rw [hState] at hCall
    dsimp only at hCall
    split at hCall <;> cases hCall
  | prclookupProgMount | prclookupProgNfs | mount | lookup
  | readlink =>
    rw [hState] at hCall
    cases hCall

theorem Base.sendCall {call : Call}
    (hBase : Base t srv cl) (hRpc : cl.rpcId + 1 < 2 ^ 32) (hCall : currentCall cl = some call) :
    Inv t srv (sendCall call cl) := by
  have hId : (cl.rpcId + 1) % 2 ^ 64 = cl.rpcId + 1 := by omega
  constructor
  · constructor
    · exact hBase.hV2
    · change (cl.rpcId + 1) % 2 ^ 64 < 2 ^ 32
      omega
    · intro r hMem
      change r.id ≤ (cl.rpcId + 1) % 2 ^ 64
      rcases mem_cons.mp hMem with rfl | hMem
      · exact Nat.le_refl _
      · have hOld := hBase.hIds r hMem
        omega
    · intro r hMem fh offset count hRead
      rcases mem_cons.mp hMem with rfl | hMem
      · change call = _ at hRead
        rw [hRead] at hCall
        exact hBase.count_of_currentCall hCall
      · exact hBase.hCount r hMem fh offset count hRead
    · exact hBase.hName
    · exact hBase.hPath
    · exact hBase.hPhase
    · exact hBase.hDone
    · exact hBase.hNet
  · intro _ r hMem hEq
    change r.id = (cl.rpcId + 1) % 2 ^ 64 at hEq
    rcases mem_cons.mp hMem with rfl | hMem
    · exact hCall
    · have hOld := hBase.hIds r hMem
      omega

theorem Inv.of_send
    (hSend : nfsSend cl = .ok cl') (hRpc : cl.rpcId + 1 < 2 ^ 32) (hBase : Base t srv cl) :
    Inv t srv cl' := by
  cases hCall : currentCall cl with
  | some call =>
    rw [nfsSend_some hCall] at hSend
    cases hSend
    exact hBase.sendCall hRpc hCall
  | none =>
    rw [nfsSend_none hCall] at hSend
    cases hSend
    exact ⟨hBase, fun hState => absurd (umount_of_currentCall_none hCall) hState⟩

/- A state that is left without success. -/
theorem Base.not_done (hBase : Base t srv cl) (hState : cl.state ≠ .umount) :
    cl.downloadState ≠ .success ∧ cl.netState ≠ .success := by
  have hNot : cl.downloadState ≠ .success := fun hDone => hState (hBase.hDone hDone).1
  exact ⟨hNot, fun hNet => hNot (hBase.hNet hNet)⟩

/- The transfer is given up. -/
theorem Base.umount (hBase : Base t srv cl) :
    Base t srv { cl with state := .umount } where
  hV2 := hBase.hV2
  hRpc := hBase.hRpc
  hIds := hBase.hIds
  hCount := hBase.hCount
  hName := hBase.hName
  hPath := hBase.hPath
  hPhase := trivial
  hDone hDone := ⟨rfl, (hBase.hDone hDone).2⟩
  hNet := hBase.hNet

variable {req : Request}

/- What each state asks for. -/
theorem Inv.call_eq (call : Call) (hInv : Inv t srv cl) (hMem : req ∈ cl.sent)
    (hId : req.id = cl.rpcId) (hState : cl.state ≠ .umount) (hCall : currentCall cl = some call) :
    req.call = call := by
  have hLast := hInv.hCurrent hState req hMem hId
  rw [hCall] at hLast
  cases hLast
  rfl

variable {state : NfsState}

theorem Inv.of_sendIn {c : Client} (hSend : sendIn state c = .ok cl') (hRpc : c.rpcId + 1 < 2 ^ 32)
    (hBase : Base t srv { c with state := state }) :
    Inv t srv cl' :=
  .of_send hSend hRpc hBase

variable {pkt : List UInt8}

section

variable (hInv : Inv t srv cl)
include hInv

/- The ports are asked for, whatever the replies say. -/
theorem Inv.prclookup (hRpc : cl.rpcId + 1 < 2 ^ 32)
    (hState : cl.state = .prclookupProgMount ∨ cl.state = .prclookupProgNfs)
    (hStep : nfsHandler t.loadAddr NFS_OUR_PORT pkt cl = .ok cl') :
    Inv t srv cl' := by
  have hBase := hInv.base
  have hSize : cl.netBootFileSize = 0 := by
    have hPhase := hBase.hPhase
    unfold Phase at hPhase
    rcases hState with h | h <;> rw [h] at hPhase <;>
      exact hPhase
  have hNot : cl.state ≠ .umount := by rcases hState with h | h <;> rw [h] <;> decide
  rcases hBase.not_done hNot with ⟨hDown, hNet⟩
  have hPorts : ∀ mountPort serverPort, Inv t srv { cl with
        mountPort := mountPort, serverPort := serverPort } := by
    intro mountPort serverPort
    refine ⟨⟨hBase.hV2, hBase.hRpc, hBase.hIds, hBase.hCount,
      hBase.hName, hBase.hPath, hBase.hPhase, hBase.hDone, hBase.hNet⟩, ?_⟩
    intro _ r hMem hId
    have hLast := hInv.hCurrent hNot r hMem hId
    unfold currentCall at hLast ⊢
    rcases hState with h | h <;> rw [h] at hLast ⊢ <;>
      exact hLast
  have hNext : ∀ mountPort serverPort state, state = .prclookupProgNfs ∨ state = .mount →
      sendIn state { cl with
        mountPort := mountPort
        serverPort := serverPort } = .ok cl' →
      Inv t srv cl' := by
    intro mountPort serverPort state hNext hSend
    refine .of_sendIn hSend hRpc ⟨hBase.hV2, hBase.hRpc,
      hBase.hIds, hBase.hCount, hBase.hName, hBase.hPath, ?_, fun hDone => absurd hDone hDown,
      fun hSuccess => absurd hSuccess hNet⟩
    rcases hNext with rfl | rfl <;> exact hSize
  unfold nfsHandler at hStep
  rw [if_neg (not_not.mpr rfl)] at hStep
  rcases hState with h | h
  · rw [h] at hStep
    rcases bind_eq_ok hStep with ⟨⟨reply, c⟩, hReply, hRest⟩
    rcases rpcLookupReply_stores hReply with ⟨x, y, rfl⟩
    dsimp only at hRest
    split_ifs at hRest
    · cases hRest
      exact hPorts x y
    · exact hNext x y _ (Or.inl rfl) hRest
  · rw [h] at hStep
    rcases bind_eq_ok hStep with ⟨⟨reply, c⟩, hReply, hRest⟩
    rcases rpcLookupReply_stores hReply with ⟨x, y, rfl⟩
    dsimp only at hRest
    split_ifs at hRest
    · cases hRest
      exact hPorts x y
    · exact hNext x y _ (Or.inr rfl) hRest

/- The loop ends with what the transfer came to. -/
theorem Inv.unmounting
    (hState : cl.state = .umount) (hStep : nfsHandler t.loadAddr NFS_OUR_PORT pkt cl = .ok cl') :
    Inv t srv cl' := by
  have hBase := hInv.base
  have hEnd : ∀ fsMounted dirfh netState, (netState = .success → cl.downloadState = .success) →
      Inv t srv { cl with
        fsMounted := fsMounted
        dirfh := dirfh
        netState := netState } := by
    intro fsMounted dirfh netState hNet
    refine ⟨⟨hBase.hV2, hBase.hRpc, hBase.hIds, hBase.hCount,
      hBase.hName, hBase.hPath, ?_, hBase.hDone, hNet⟩, ?_⟩
    · rw [hState]
      trivial
    · exact fun hNot => absurd hState hNot
  unfold nfsHandler at hStep
  rw [if_neg (not_not.mpr rfl), hState] at hStep
  rcases bind_eq_ok hStep with ⟨⟨reply, c⟩, hReply, hRest⟩
  rcases nfsUmountallReply_stores hReply with ⟨x, y, rfl⟩
  dsimp only at hRest
  split_ifs at hRest
  · cases hRest
    exact hEnd x y _ hBase.hNet
  · cases hRest
    exact hEnd x y _ fun h => NetloopState.noConfusion h
  · cases hRest
    exact hEnd x y _ id

end

theorem cstr_of_no_nul {bs : List UInt8} (hNoNul : 0 ∉ bs) :
    cstr bs = bs := by
  apply takeWhile_eq_self_iff.mpr
  intro b hb
  have hNe : b ≠ 0 := fun hEq => hNoNul (hEq ▸ hb)
  exact decide_eq_true hNe

theorem setPath_eq {bs : List UInt8} {paths : PathBuffer} (hPaths : setPath bs = .ok paths) :
    cstr bs = paths.path ++ slash :: paths.filename ∧ slash ∉ paths.filename := by
  unfold setPath at hPaths
  split_ifs at hPaths with hFits
  split at hPaths
  · rename_i hSplit
    cases hPaths
    exact splitPath_eq hSplit
  · cases hPaths

theorem followLink_holds {fh target : List UInt8} {paths paths' : PathBuffer}
    (srv : Server) (hPaths : followLink paths (target.take 1) target = .ok paths')
    (hNode : srv.node fh = .link target) :
    slash ∉ paths'.filename ∧ ∀ c, srv.Holds (paths'.path ++ slash :: paths'.filename) c →
        srv.Holds (resolve paths.path target) c := by
  have hNoNul := (srv.link_le _ _ hNode).2.2
  have hHead : target.take 1 = [slash] ↔ target.head? = some slash := by
    cases target with
    | nil => exact ⟨nofun, nofun⟩
    | cons b rest => simp
  unfold followLink at hPaths
  unfold resolve
  split_ifs at hPaths with hFirst
  · rcases setPath_eq hPaths with ⟨hEq, hName⟩
    rw [cstr_append paths.path_no_nul, cstr_of_no_nul hNoNul] at hEq
    rw [if_neg (mt hHead.mpr hFirst), hEq]
    exact ⟨hName, fun _ h => h⟩
  · rcases setPath_eq hPaths with ⟨hEq, hName⟩
    rw [cstr_of_no_nul hNoNul] at hEq
    rw [if_pos (hHead.mp (not_not.mp hFirst)), ← hEq]
    exact ⟨hName, fun _ h => h⟩

/- One more block was stored. -/
theorem Progress.store
    {contents : List UInt8} {memory : Memory UInt8} {loadAddr offset size n : Nat}
    (hProgress : Progress contents memory loadAddr offset size)
    (hRest : n ≤ contents.length - offset) :
    Progress contents (memory.write (loadAddr + offset) ((contents.drop offset).take n))
      loadAddr (offset + n) (max size (offset + n)) := by
  have hLe := hProgress.hLe
  have hSize := hProgress.hSize
  have hLength : ((contents.drop offset).take n).length = n := by
    rw [length_take, length_drop]
    omega
  constructor
  · omega
  · rw [Memory.slice_add, Memory.slice_write_apart (Or.inl (Nat.le_refl _)),
      hProgress.hMemory, take_add]
    congr 1
    have hSelf := Memory.slice_write_self memory (loadAddr + offset) ((contents.drop offset).take n)
    rwa [hLength] at hSelf
  · omega

section Replies

variable (hInv : Inv t srv cl) (hRpc : cl.rpcId + 1 < 2 ^ 32)
  (hMem : req ∈ cl.sent) (hId : req.id = cl.rpcId)
  (hAnswers : Answers srv req pkt)
  (hStep : nfsHandler t.loadAddr NFS_OUR_PORT pkt cl = .ok cl')
include hInv hRpc hMem hId hAnswers hStep

/- The directory is mounted, or the transfer is given up. -/
theorem Inv.mounting (hState : cl.state = .mount) :
    Inv t srv cl' := by
  have hBase := hInv.base
  have hNot : cl.state ≠ .umount := by
    rw [hState]
    decide
  have hPhase := hBase.hPhase
  unfold Phase at hPhase
  rw [hState] at hPhase
  have hCall := hInv.call_eq (.mount _) hMem hId hNot (by
    unfold currentCall
    rw [hState])
  rcases hBase.not_done hNot with ⟨hDown, hNet⟩
  unfold nfsHandler at hStep
  rw [if_neg (not_not.mpr rfl), hState] at hStep
  rcases nfsMountReply_answer hAnswers hId (by omega) hCall with hFail | ⟨fh, hMount, hOk⟩
  · rw [hFail] at hStep
    exact .of_sendIn hStep hRpc hBase.umount
  · rw [hOk] at hStep
    change sendIn .lookup { cl with
      fsMounted := true, dirfh := fh } = _ at hStep
    exact .of_sendIn hStep hRpc ⟨hBase.hV2, hBase.hRpc,
      hBase.hIds, hBase.hCount, hBase.hName, hBase.hPath,
      ⟨hPhase, hMount⟩, fun hDone => absurd hDone hDown, fun hSuccess => absurd hSuccess hNet⟩

/- The file is found, or the transfer is given up. -/
theorem Inv.lookingUp (hState : cl.state = .lookup) :
    Inv t srv cl' := by
  have hBase := hInv.base
  have hNot : cl.state ≠ .umount := by
    rw [hState]
    decide
  have hPhase := hBase.hPhase
  unfold Phase at hPhase
  rw [hState] at hPhase
  have hCall := hInv.call_eq (.lookup _ _) hMem hId hNot (by
    unfold currentCall
    rw [hState])
  rcases hBase.not_done hNot with ⟨hDown, hNet⟩
  unfold nfsHandler at hStep
  rw [if_neg (not_not.mpr rfl), hState] at hStep
  rcases nfsLookupReply_answer hAnswers hId (by omega) hBase.hV2 hCall with
    hFail | ⟨fh, filefh, hLookup, hTake, hOk⟩
  · rw [hFail] at hStep
    exact .of_sendIn hStep hRpc hBase.umount
  · rw [hOk, ok_bind] at hStep
    dsimp only at hStep
    rw [if_neg (by decide), if_neg (by decide), if_neg (by decide)] at hStep
    have hHandle : fileHandle { cl with
        filefh := filefh
        nfsOffset := 0
        nfsLen := NFS_READ_SIZE
        state := .read } = fh.bytes := by
      unfold fileHandle
      rw [if_pos hBase.hV2]
      exact hTake
    have hFound : Found srv cl.paths fh.bytes fh := ⟨⟨cl.dirfh, hPhase.2, hLookup⟩, rfl⟩
    have hStart : Progress (srv.node fh.bytes).contents cl.memory t.loadAddr 0 cl.netBootFileSize :=
      ⟨Nat.zero_le _, rfl, hPhase.1⟩
    refine .of_sendIn hStep hRpc ⟨hBase.hV2, hBase.hRpc,
      hBase.hIds, hBase.hCount, hBase.hName, hBase.hPath, ?_, fun hDone => absurd hDone hDown,
      fun hSuccess => absurd hSuccess hNet⟩
    unfold Phase
    rw [hHandle]
    exact ⟨rfl, fh, hFound, hStart⟩

/- The path is that of the link, which is mounted next. -/
theorem Inv.followingLink (hState : cl.state = .readlink) :
    Inv t srv cl' := by
  have hBase := hInv.base
  have hNot : cl.state ≠ .umount := by
    rw [hState]
    decide
  have hPhase := hBase.hPhase
  unfold Phase at hPhase
  rw [hState] at hPhase
  rcases hPhase with ⟨fh, ⟨⟨dirfh, hMount, hLookup⟩, hHandle⟩, hSize⟩
  have hCall := hInv.call_eq (.readlink _) hMem hId hNot (by
    unfold currentCall
    rw [hState])
  rcases hBase.not_done hNot with ⟨hDown, hNet⟩
  unfold nfsHandler at hStep
  rw [if_neg (not_not.mpr rfl), hState] at hStep
  rcases nfsReadlinkReply_answer hAnswers hId (by omega)
    hBase.hV2 hCall with hFail | ⟨target, hNode, hOk⟩
  · rw [hFail] at hStep
    exact .of_sendIn hStep hRpc hBase.umount
  · rw [hOk, bind_assoc] at hStep
    rcases bind_eq_ok hStep with ⟨paths, hPaths, hStep⟩
    rw [ok_bind] at hStep
    dsimp only at hStep
    rw [if_neg (by decide), if_neg (by decide)] at hStep
    rw [hHandle] at hNode
    rcases followLink_holds srv hPaths hNode with ⟨hName, hHolds⟩
    have hContents : (srv.node fh.bytes).contents = [] := by
      rw [hNode]
      rfl
    exact .of_sendIn hStep hRpc ⟨hBase.hV2, hBase.hRpc, hBase.hIds,
      hBase.hCount, hName, fun c hc => hBase.hPath c
        (.link hBase.hName hMount hLookup hNode (hHolds c hc)),
      hSize hContents, fun hDone => absurd hDone hDown, fun hSuccess => absurd hSuccess hNet⟩

/- A block is stored, or the transfer ends. -/
theorem Inv.reading (hState : cl.state = .read) :
    Inv t srv cl' := by
  have hBase := hInv.base
  have hNot : cl.state ≠ .umount := by
    rw [hState]
    decide
  have hPhase := hBase.hPhase
  unfold Phase at hPhase
  rw [hState] at hPhase
  rcases hPhase with ⟨hLen, fh, ⟨⟨dirfh, hMount, hLookup⟩, hHandle⟩, hProgress⟩
  have hCall := hInv.call_eq (.read _ _ NFS_READ_SIZE) hMem
    hId hNot (by
      unfold currentCall
      rw [hState, ← hLen])
  rcases hBase.not_done hNot with ⟨hDown, hNet⟩
  unfold nfsHandler at hStep
  rw [if_neg (not_not.mpr rfl), hState] at hStep
  dsimp only at hStep
  rcases nfsReadReply_answer t.loadAddr hAnswers hId (by omega) hBase.hV2 hCall with
    ⟨reply, hNeg, hFail⟩ | ⟨contents, n, hNode, hRest, hEnd, hOk⟩
  · rw [hFail, ok_bind] at hStep
    unfold afterRead at hStep
    rw [if_neg (by omega)] at hStep
    split_ifs at hStep with hLink hZero
    · refine .of_sendIn hStep hRpc ⟨hBase.hV2, hBase.hRpc,
        hBase.hIds, hBase.hCount, hBase.hName, hBase.hPath,
        ⟨fh, ⟨⟨dirfh, hMount, hLookup⟩, hHandle⟩, ?_⟩, fun hDone => absurd hDone hDown,
        fun hSuccess => absurd hSuccess hNet⟩
      intro hNone
      have hLe := hProgress.hLe
      have hSize := hProgress.hSize
      rw [hNone, length_nil] at hLe
      dsimp only
      omega
    · omega
    · exact .of_sendIn hStep hRpc hBase.umount
  · rw [hOk, ok_bind] at hStep
    rw [hHandle] at hNode
    have hContents : (srv.node fh.bytes).contents = contents := by
      rw [hNode]
      rfl
    rw [hContents] at hProgress
    have hLe := hProgress.hLe
    have hFile := srv.file_lt _ _ hNode
    have hStored := hProgress.store hRest
    have hLength : ((contents.drop cl.nfsOffset).take n).length = n := by
      rw [length_take, length_drop]
      omega
    have hOffset : u32 (cl.nfsOffset + n) = cl.nfsOffset + n := u32_of_lt (by omega)
    unfold storeBlock at hStep
    rw [hLength, hOffset] at hStep
    unfold afterRead at hStep
    by_cases hZero : n = 0
    · have hDone : cl.nfsOffset + n = contents.length := by
        omega
      have hOther : ¬ ((n : Int) = -NFSERR_ISDIR ∨ (n : Int) = -NFSERR_INVAL) := by
        rw [hZero]
        decide
      rw [if_neg (by omega), if_neg hOther, if_pos (by omega)] at hStep
      refine .of_sendIn hStep hRpc ⟨hBase.hV2, hBase.hRpc,
        hBase.hIds, hBase.hCount, hBase.hName, hBase.hPath, trivial,
        fun _ => ⟨rfl, contents, ?_, ?_, ?_⟩, fun _ => rfl⟩
      · exact hBase.hPath _ (.file hBase.hName hMount hLookup hNode)
      · have hMemory := hStored.hMemory
        rw [hDone, take_length] at hMemory
        exact hMemory
      · exact hStored.hSize.trans hDone
    · rw [if_pos (by omega), Int.toNat_natCast, hOffset] at hStep
      refine .of_send hStep hRpc ⟨hBase.hV2, hBase.hRpc,
        hBase.hIds, hBase.hCount, hBase.hName, hBase.hPath, ?_, fun hDone => absurd hDone hDown,
        fun hSuccess => absurd hSuccess hNet⟩
      rw [hState]
      refine ⟨hLen, fh, ⟨⟨dirfh, hMount, hLookup⟩, hHandle⟩, ?_⟩
      rw [hContents]
      exact hStored

end Replies

theorem sendIn_state (hSend : sendIn state cl = .ok cl') :
    cl'.state = state := by
  unfold sendIn at hSend
  cases hCall : currentCall { cl with state := state } with
  | some call =>
    rw [nfsSend_some hCall] at hSend
    cases hSend
    rfl
  | none =>
    rw [nfsSend_none hCall] at hSend
    cases hSend
    rfl

section

variable (hInv : Inv t srv cl)
include hInv

/- A reply to an earlier request, which was delayed. -/
theorem Inv.late (hMem : req ∈ cl.sent) (hId : req.id < cl.rpcId) (hAnswers : Answers srv req pkt) :
    nfsHandler t.loadAddr NFS_OUR_PORT pkt cl =
      if cl.state = .read then sendIn .umount cl
      else .ok cl := by
  have hFits := hAnswers.length_le fun fh offset count hCall =>
    Nat.le_of_eq (hInv.base.hCount req hMem fh offset count hCall)
  have hRpc := hInv.base.hRpc
  rcases hAnswers.header with ⟨astatus, body, rfl⟩
  refine nfsHandler_late _ ?_ hFits ?_
  · rw [length_append, length_replyHeader]
    omega
  · rwa [wordAt_header_id (by omega)]

theorem Inv.reply
    (hRpc : cl.rpcId + 1 < 2 ^ 32) (hMem : req ∈ cl.sent) (hAnswers : Answers srv req pkt)
    (hStep : nfsHandler t.loadAddr NFS_OUR_PORT pkt cl = .ok cl') :
    Inv t srv cl' := by
  rcases Nat.lt_or_eq_of_le (hInv.base.hIds req hMem) with
    hId | hId
  · rw [hInv.late hMem hId hAnswers] at hStep
    split_ifs at hStep
    · exact .of_sendIn hStep hRpc hInv.base.umount
    · cases hStep
      exact hInv
  · cases hState : cl.state with
    | prclookupProgMount => exact hInv.prclookup hRpc (Or.inl hState) hStep
    | prclookupProgNfs => exact hInv.prclookup hRpc (Or.inr hState) hStep
    | mount => exact hInv.mounting hRpc hMem hId hAnswers hStep hState
    | umount => exact hInv.unmounting hState hStep
    | lookup => exact hInv.lookingUp hRpc hMem hId hAnswers hStep hState
    | read => exact hInv.reading hRpc hMem hId hAnswers hStep hState
    | readlink => exact hInv.followingLink hRpc hMem hId hAnswers hStep hState

theorem Inv.netStartAgain (retry : Bool) :
    Inv t srv (netStartAgain retry cl) := by
  have hBase := hInv.base
  refine ⟨⟨hBase.hV2, hBase.hRpc, hBase.hIds, hBase.hCount,
    hBase.hName, hBase.hPath, hBase.hPhase, hBase.hDone, ?_⟩, hInv.hCurrent⟩
  intro hSuccess
  cases retry <;> cases hSuccess

theorem Inv.timeout
    {retry : Bool} (hRpc : cl.rpcId + 1 < 2 ^ 32) (hStep : nfsTimeoutHandler retry cl = .ok cl') :
    Inv t srv cl' := by
  have hBase := hInv.base
  have hCounted : Base t srv { cl with
      timeoutCount := cl.timeoutCount + 1 } :=
    ⟨hBase.hV2, hBase.hRpc, hBase.hIds, hBase.hCount,
      hBase.hName, hBase.hPath, hBase.hPhase, hBase.hDone, hBase.hNet⟩
  unfold nfsTimeoutHandler at hStep
  dsimp only at hStep
  split_ifs at hStep
  · cases hStep
    exact Inv.netStartAgain ⟨hCounted, hInv.hCurrent⟩ retry
  · exact .of_send hStep hRpc hCounted

end

/- A load starts with nothing found out. -/
theorem Inv.of_nfsStart (hStart : nfsStart t.netIp t.fileName cl = .ok cl')
    (hRpc : cl.rpcId + 1 < 2 ^ 32) (hV2 : cl.v2 = true) (hIds : ∀ r ∈ cl.sent, r.id ≤ cl.rpcId)
    (hCount : ∀ r ∈ cl.sent, ∀ fh offset count,
      r.call = .read fh offset count → count = NFS_READ_SIZE) :
    Inv t srv cl' := by
  rcases bind_eq_ok hStart with ⟨paths, hPaths, hSend⟩
  rcases setPath_eq hPaths with ⟨hEq, hName⟩
  refine .of_send hSend hRpc ⟨hV2, ?_, hIds, hCount, hName, ?_, rfl, nofun, nofun⟩
  · exact Nat.lt_of_succ_lt hRpc
  intro c hHolds
  unfold Transfer.path
  rw [hEq]
  exact hHolds

theorem Inv.step {event : Event} (hInv : Inv t srv cl) (hAdmitted : Transfer.Admitted srv cl event)
    (hStep : t.step cl event = some cl') :
    Inv t srv cl' := by
  rcases hAdmitted with ⟨hRpc, hEvent⟩
  have hOk : ∀ x : Except Fault Client, x.toOption = some cl' → x = .ok cl' := by
    intro x hSome
    cases x <;> cases hSome
    rfl
  cases event with
  | reply req pkt => exact hInv.reply hRpc hEvent.1 hEvent.2 (hOk _ hStep)
  | timeout retry =>
    unfold Transfer.step at hStep
    dsimp only at hStep
    split_ifs at hStep
    exact hInv.timeout hRpc (hOk _ hStep)
  | startAgain retry =>
    unfold Transfer.step at hStep
    dsimp only at hStep
    split_ifs at hStep
    cases hStep
    exact hInv.netStartAgain retry
  | restart =>
    unfold Transfer.step at hStep
    dsimp only at hStep
    split_ifs at hStep
    exact .of_nfsStart (hOk _ hStep) hRpc hInv.base.hV2 hInv.base.hIds hInv.base.hCount

theorem Transfer.reachable_inv (hReach : t.system.ReachableBy (Transfer.Admitted srv) cl) :
    Inv t srv cl := by
  refine hReach.invariant (I := Inv t srv) ?_
    fun _ _ _ hInv hOk hStep => hInv.step hOk hStep
  rintro s ⟨last, hV2, hNone, hRpc, hStart⟩
  refine .of_nfsStart hStart hRpc hV2 ?_ ?_
  · rw [hNone]
    exact nofun
  · rw [hNone]
    exact nofun

end Steps

----
-- Transfers
----

/- What a late reply has to leave as it is. -/
structure Unchanged (cl cl' : Client) : Prop where
  hState : cl'.state = cl.state
  hOffset : cl'.nfsOffset = cl.nfsOffset
  hDirfh : cl'.dirfh = cl.dirfh
  hFilefh : cl'.filefh = cl.filefh
  hPaths : cl'.paths = cl.paths
  hMemory : cl'.memory = cl.memory
  hDownload : cl'.downloadState = cl.downloadState

/-
  In every state that is reached, a late reply leaves the
  transfer as it is unless the file is being read, and a
  success means that the file was loaded.
-/
theorem nfs_transfer (t : Transfer) (srv : Server) (cl : Client)
    (hReach : t.system.ReachableBy (Transfer.Admitted srv) cl) :
    (∀ req ∈ cl.sent, req.id < cl.rpcId → ∀ pkt, Answers srv req pkt →
        ((∃ cl', nfsHandler t.loadAddr NFS_OUR_PORT pkt cl = .ok cl' ∧ Unchanged cl cl') ↔
          cl.state ≠ .read)) ∧
    (cl.netState = .success → t.Loaded srv cl) := by
  have hInv := Transfer.reachable_inv hReach
  constructor
  · intro req hMem hId pkt hAnswers
    rw [hInv.late hMem hId hAnswers]
    constructor
    · rintro ⟨cl', hEq, hSame⟩ hRead
      rw [if_pos hRead] at hEq
      have hState := sendIn_state hEq
      rw [hSame.hState, hRead] at hState
      cases hState
    · intro hNot
      rw [if_neg hNot]
      exact ⟨cl, rfl, rfl, rfl, rfl, rfl, rfl, rfl, rfl⟩
  · intro hSuccess
    exact (hInv.base.hDone (hInv.base.hNet hSuccess)).2

----
-- A Late Reply
----

theorem length_dirHandle :
    (List.replicate NFS_FHSIZE (1 : UInt8)).length = NFS_FHSIZE :=
  length_replicate

def dirHandle : Buffer NFS_FHSIZE :=
  ⟨List.replicate NFS_FHSIZE 1, length_dirHandle⟩

def smallHandle : Buffer NFS_FHSIZE :=
  ⟨List.replicate NFS_FHSIZE 2, length_replicate⟩

def noAttributes : Buffer 68 :=
  ⟨List.replicate 68 0, length_replicate⟩

/- Every path is that of a file of three bytes. -/
def smallServer : Server where
  mount _ := some dirHandle
  lookup _ _ := some smallHandle
  node _ := .file [7, 8, 9]
  file_lt _ contents hNode := by
    cases hNode
    decide
  link_le _ target hNode := by cases hNode

/- The file is `/a/b`. -/
def smallTransfer : Transfer where
  loadAddr := 0x1000
  netIp := [10, 0, 0, 1]
  fileName := [slash, 97, slash, 98]

def askMountPort : Request := ⟨6, true, .getPort .mount 1⟩
def askNfsPort : Request := ⟨7, true, .getPort .nfs 2⟩
def askMount : Request := ⟨8, true, .mount [slash, 97]⟩

def askLookup (id : Nat) : Request :=
  ⟨id, true, .lookup dirHandle.bytes [98]⟩

def askRead (id offset : Nat) : Request :=
  ⟨id, true, .read smallHandle.bytes offset NFS_READ_SIZE⟩

def askUmount : Request := ⟨12, true, .umountAll⟩

def portReply (id port : Nat) : List UInt8 :=
  replyHeader id 0 ++ be32 port

def mountReply : List UInt8 :=
  replyHeader 8 0 ++ (be32 0 ++ dirHandle.bytes)

def lookupReply (id : Nat) : List UInt8 :=
  replyHeader id 0 ++ (be32 0 ++ (smallHandle.bytes ++ noAttributes.bytes))

def readReply (id n offset : Nat) : List UInt8 :=
  replyHeader id 0 ++
    (be32 0 ++ (noAttributes.bytes ++ (be32 n ++ ((List.drop offset [7, 8, 9]).take n ++ []))))

/- The replies of the runs below. -/
def smallReplies : List (Request × List UInt8) :=
  [(askMountPort, portReply 6 635), (askNfsPort, portReply 7 2049), (askMount, mountReply),
    (askLookup 9, lookupReply 9), (askLookup 10, lookupReply 10), (askRead 10 0, readReply 10 3 0),
    (askRead 11 3, readReply 11 0 3), (askUmount, replyHeader 12 0)]

theorem smallReplies_answer : ∀ r ∈ smallReplies, Answers smallServer r.1 r.2 := by
  have hLookup : ∀ id, Answers smallServer (askLookup id) (lookupReply id) :=
    fun _ => .found rfl rfl
  unfold smallReplies
  simp only [forall_mem_cons]
  refine ⟨.port rfl (by decide), .port rfl (by decide),
    .mounted rfl rfl, hLookup 9, hLookup 10, ?_, ?_, .unmounted rfl, nofun⟩
  · exact .data rfl rfl (by decide) (by decide) (by decide) (by decide)
  · exact .data rfl rfl (by decide) (by decide) (by decide) (by decide)

/- The replies of a run are among these. -/
def Expected (cl : Client) : Event → Prop
  | .reply req pkt => cl.rpcId + 1 < 2 ^ 32 ∧ req ∈ cl.sent ∧ (req, pkt) ∈ smallReplies
  | _ => cl.rpcId + 1 < 2 ^ 32

instance (cl : Client) : DecidablePred (Expected cl)
  | .reply req pkt =>
    inferInstanceAs (Decidable (cl.rpcId + 1 < 2 ^ 32 ∧ req ∈ cl.sent ∧ (req, pkt) ∈ smallReplies))
  | .timeout _ | .startAgain _ | .restart =>
    inferInstanceAs (Decidable (cl.rpcId + 1 < 2 ^ 32))

theorem Expected.admitted {cl : Client} {event : Event} (hExpected : Expected cl event) :
    Transfer.Admitted smallServer cl event := by
  cases event with
  | reply req pkt => exact ⟨hExpected.1, hExpected.2.1, smallReplies_answer _ hExpected.2.2⟩
  | timeout | startAgain | restart => exact ⟨hExpected, trivial⟩

def smallStart : Client :=
  (nfsStart smallTransfer.netIp smallTransfer.fileName readingClient).toOption.getD readingClient

theorem smallTransfer_reaches (schedule : List Event) (P : Client → Prop) [DecidablePred P]
    (hRun : (TransitionSystem.runSteps smallTransfer.step
      Expected schedule smallStart).any (fun cl => decide (P cl)) = true) :
    ∃ cl, smallTransfer.system.ReachableBy (Transfer.Admitted smallServer) cl ∧ P cl := by
  rcases TransitionSystem.exists_reachableBy smallTransfer.step Expected smallStart schedule P hRun
    with ⟨cl, hReach, hP⟩
  refine ⟨cl, ?_, hP⟩
  refine .mono (fun _ _ => Expected.admitted) (.of_ofStep ?_ (fun _ _ _ h => h) hReach)
  exact ⟨readingClient, rfl, rfl, by decide, rfl⟩

/- The file of the server is loaded. -/
theorem nfs_transfer_small :
    ∃ cl, cl.netState = .success ∧ smallTransfer.Loaded smallServer cl := by
  rcases smallTransfer_reaches
    [.reply askMountPort (portReply 6 635), .reply askNfsPort (portReply 7 2049),
      .reply askMount mountReply, .reply (askLookup 9) (lookupReply 9),
      .reply (askRead 10 0) (readReply 10 3 0), .reply (askRead 11 3) (readReply 11 0 3),
      .reply askUmount (replyHeader 12 0)]
    (fun cl => cl.netState = .success) (by decide +kernel)
    with ⟨cl, hReach, hSuccess⟩
  exact ⟨cl, hSuccess, (nfs_transfer smallTransfer smallServer cl hReach).2 hSuccess⟩

/-
  The request for the name is sent twice, and the reply to
  the first comes after the reply to the second.
-/
theorem nfs_late_reply_aborts :
    ∃ cl, smallTransfer.system.ReachableBy (Transfer.Admitted smallServer) cl ∧
      askLookup 9 ∈ cl.sent ∧ 9 < cl.rpcId ∧ Answers smallServer (askLookup 9) (lookupReply 9) ∧
      ¬ ∃ cl', nfsHandler smallTransfer.loadAddr NFS_OUR_PORT (lookupReply 9) cl = .ok cl' ∧
        Unchanged cl cl' := by
  rcases smallTransfer_reaches
    [.reply askMountPort (portReply 6 635), .reply askNfsPort (portReply 7 2049),
      .reply askMount mountReply, .timeout false, .reply (askLookup 10) (lookupReply 10)]
    (fun cl => cl.state = .read ∧ askLookup 9 ∈ cl.sent ∧ 9 < cl.rpcId) (by decide +kernel)
    with ⟨cl, hReach, hRead, hMem, hLate⟩
  have hAnswers : Answers smallServer (askLookup 9) (lookupReply 9) := .found rfl rfl
  refine ⟨cl, hReach, hMem, hLate, hAnswers, ?_⟩
  rintro ⟨cl', hEq, hSame⟩
  rw [(Transfer.reachable_inv hReach).late hMem hLate hAnswers, if_pos hRead] at hEq
  have hState := sendIn_state hEq
  rw [hSame.hState, hRead] at hState
  cases hState

end Uboot.Nfs
