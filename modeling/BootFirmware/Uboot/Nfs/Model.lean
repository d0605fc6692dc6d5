import BootFirmware.Lib.Memory
import BootFirmware.Lib.Words
import BootFirmware.Uboot.CTypes
import Mathlib.Data.List.TakeWhile

/-
  The NFS client, which mounts the directory of a file, looks
  the file up there and reads it.

  Loads to flash are not configured.  A call ends in a fault
  where a copy leaves its destination, or where a byte that
  was not received has an influence.  The buffer from which
  packets are sent is not modelled.

  Key definitions include:
    * `Client`
    * `rpcReq` and `nfsSend`
    * `rpcLookupReply`, `nfsMountReply`, `nfsUmountallReply`,
      `nfsLookupReply`, `nfsReadlinkReply` and `nfsReadReply`
    * `nfsHandler`
    * `nfsTimeoutHandler`
    * `nfsStart`
-/

----
-- The Client
----

namespace Uboot.Nfs

open List

inductive Fault where
  | overflow
  | notReceived
deriving DecidableEq, Repr

inductive NfsState where
  | prclookupProgMount
  | prclookupProgNfs
  | mount
  | umount
  | lookup
  | read
  | readlink
deriving DecidableEq, Repr

/- The states of the network loop. -/
inductive NetloopState where
  | continue
  | restart
  | success
  | fail
deriving DecidableEq, Repr

def NFS_RPC_ERR : Int := 1
def NFS_RPC_PROG_MISMATCH : Nat := 2
def NFS_RPC_DROP : Int := 124

def NFSERR_ISDIR : Int := 21
def NFSERR_INVAL : Int := 22

def NFS_FHSIZE : Nat := 32
def NFS3_FHSIZE : Nat := 64
def NFS_READ_SIZE : Nat := 1024
def NFS_RETRY_COUNT : Nat := 30

/- `sizeof(struct rpc_t)`, which is that of a reply. -/
def RPC_SIZE : Nat := 24 + 4 * NFS_READ_SIZE

/- `sizeof(nfs_path_buff)`. -/
def PATH_SIZE : Nat := 2048

def slash : UInt8 := 47

/- An array of bytes. -/
structure Buffer (size : Nat) where
  bytes : List UInt8
  length_bytes : bytes.length = size
deriving DecidableEq, Repr

/-
  The two strings in `nfs_path_buff`: `nfs_path` from its
  start, and `nfs_filename` after the NUL of that one.
-/
structure PathBuffer where
  path : List UInt8
  filename : List UInt8
  path_no_nul : 0 ∉ path
  filename_no_nul : 0 ∉ filename
  fits : path.length + filename.length + 1 < PATH_SIZE
deriving Repr

inductive Prog where
  | mount
  | nfs
deriving DecidableEq, Repr

/- What is asked of the server. -/
inductive Call where
  | getPort (prog : Prog) (version : Nat)
  | mount (path : List UInt8)
  | umountAll
  | lookup (dirfh name : List UInt8)
  | readlink (fh : List UInt8)
  | read (fh : List UInt8) (offset count : Nat)
deriving DecidableEq, Repr

/- A request as it is sent; `v2` is the version of NFS. -/
structure Request where
  id : Nat
  v2 : Bool
  call : Call
deriving DecidableEq, Repr

/-
  The variables of the client.  `sent` are the requests that
  were handed to the network, the last one first.
-/
structure Client where
  fsMounted : Bool
  rpcId : Nat
  nfsOffset : Nat
  nfsLen : Nat
  dirfh : Buffer NFS_FHSIZE
  filefh : Buffer NFS3_FHSIZE
  filefh3Length : Nat
  downloadState : NetloopState
  mountPort : Int
  serverPort : Int
  timeoutCount : Nat
  state : NfsState
  paths : PathBuffer
  v2 : Bool
  netState : NetloopState
  netBootFileSize : Nat
  memory : Memory UInt8
  sent : List Request
  filefh3Length_le : filefh3Length ≤ NFS3_FHSIZE

/- `memcpy` to the start of an array. -/
def Buffer.copy {size : Nat} (buffer : Buffer size)
    (src : List UInt8) : Except Fault (Buffer size) :=
  if hFits : src.length ≤ size then
    .ok ⟨src ++ buffer.bytes.drop src.length, by
      rw [length_append, length_drop, buffer.length_bytes]
      omega⟩
  else .error .overflow

----
-- Paths
----

/-
  What comes before the last slash, and after it: `dirname`
  and `basename`.
-/
def splitPath : List UInt8 → Option (List UInt8 × List UInt8)
  | [] => none
  | b :: rest =>
    match splitPath rest with
    | some (dir, name) => some (b :: dir, name)
    | none => if b = slash then some ([], rest) else none

theorem splitPath_isNone {path : List UInt8} (hNone : splitPath path = none) :
    slash ∉ path := by
  induction path with
  | nil => exact not_mem_nil
  | cons b rest ih =>
    unfold splitPath at hNone
    cases hRest : splitPath rest with
    | some pair =>
      rw [hRest] at hNone
      cases hNone
    | none =>
      rw [hRest] at hNone
      by_cases hb : b = slash
      · rw [if_pos hb] at hNone
        cases hNone
      · intro hMem
        rcases mem_cons.mp hMem with hEq | hMem
        · exact hb hEq.symm
        · exact ih hRest hMem

theorem splitPath_eq {path dir name : List UInt8} (hSome : splitPath path = some (dir, name)) :
    path = dir ++ slash :: name ∧ slash ∉ name := by
  induction path generalizing dir with
  | nil => cases hSome
  | cons b rest ih =>
    unfold splitPath at hSome
    cases hRest : splitPath rest with
    | some pair =>
      rw [hRest] at hSome
      cases hSome
      rcases ih hRest with ⟨hEq, hName⟩
      exact ⟨congrArg (b :: ·) hEq, hName⟩
    | none =>
      rw [hRest] at hSome
      dsimp only at hSome
      split at hSome
      · rename_i hb
        cases hSome
        exact ⟨congrArg (· :: _) hb, splitPath_isNone hRest⟩
      · cases hSome

/- The string at the start of an array. -/
def cstr (bytes : List UInt8) : List UInt8 :=
  bytes.takeWhile (· ≠ 0)

theorem cstr_no_nul (bytes : List UInt8) : 0 ∉ cstr bytes := by
  intro hMem
  have hNe := mem_takeWhile_imp hMem
  exact absurd rfl (of_decide_eq_true hNe)

theorem length_cstr_le (bytes : List UInt8) : (cstr bytes).length ≤ bytes.length :=
  (takeWhile_sublist _).length_le

/- The two strings that a path is cut into. -/
def PathBuffer.ofSplit {bytes dir name : List UInt8}
    (hFits : bytes.length < PATH_SIZE) (hSplit : splitPath (cstr bytes) = some (dir, name)) :
    PathBuffer where
  path := dir
  filename := name
  path_no_nul hMem := cstr_no_nul bytes ((splitPath_eq hSplit).1 ▸ mem_append_left _ hMem)
  filename_no_nul hMem := cstr_no_nul bytes
    ((splitPath_eq hSplit).1 ▸ mem_append_right _ (mem_cons_of_mem _ hMem))
  fits := by
    have hLe := length_cstr_le bytes
    rw [(splitPath_eq hSplit).1, length_append, length_cons] at hLe
    omega

/-
  The string in `nfs_path_buff` is cut into the path and the
  name.  Without a slash `dirname` writes before the array.
-/
def setPath (bytes : List UInt8) : Except Fault PathBuffer :=
  if hFits : bytes.length < PATH_SIZE then
    match hSplit : splitPath (cstr bytes) with
    | some (_, _) => .ok (.ofSplit hFits hSplit)
    | none => .error .overflow
  else .error .overflow

----
-- Requests
----

/- `htonl`, as bytes. -/
def be32 (n : Nat) : List UInt8 :=
  (Words.toBytes 4 n).reverse

/- `rpc_add_credentials`. -/
def rpcAddCredentials : List UInt8 :=
  be32 1 ++ be32 20 ++ List.replicate 28 0

/- The length of a string, and its bytes in whole words. -/
def xdrString (s : List UInt8) : List UInt8 :=
  be32 s.length ++ s ++ List.replicate ((s.length + 3) / 4 * 4 - s.length) 0

/- The handle of a file; only its whole words are kept. -/
def xdrHandle (v2 : Bool) (fh : List UInt8) : List UInt8 :=
  if v2 then fh
  else be32 fh.length ++ fh.take (fh.length / 4 * 4)

/- The numbers of the programs. -/
def Prog.number : Prog → Nat
  | .mount => 100005
  | .nfs => 100003

/- The array `data` of each request. -/
def Request.data (r : Request) : List UInt8 :=
  match r.call with
  | .getPort prog version =>
    List.replicate 16 0 ++ be32 prog.number ++ be32 version ++ be32 17 ++ be32 0
  | .mount path => rpcAddCredentials ++ xdrString path
  | .umountAll => rpcAddCredentials
  | .lookup dirfh name => rpcAddCredentials ++ xdrHandle r.v2 dirfh ++ xdrString name
  | .readlink fh => rpcAddCredentials ++ xdrHandle r.v2 fh
  | .read fh offset count =>
    rpcAddCredentials ++ xdrHandle r.v2 fh ++ (if r.v2 then [] else be32 0) ++
      be32 offset ++ be32 count ++ be32 0

/- `rpc_id` is an `unsigned long`. -/
def rpcReq (call : Call)
    (cl : Client) : Except Fault Client :=
  let id := (cl.rpcId + 1) % 2 ^ 64
  let request : Request := ⟨id, cl.v2, call⟩
  if 24 + request.data.length ≤ RPC_SIZE then
    .ok { cl with rpcId := id, sent := request :: cl.sent }
  else .error .overflow

/- The handle of the file that is sent. -/
def fileHandle (cl : Client) : List UInt8 :=
  if cl.v2 then cl.filefh.bytes.take NFS_FHSIZE
  else cl.filefh.bytes.take cl.filefh3Length

/- What is asked in a state, if anything. -/
def currentCall (cl : Client) : Option Call :=
  match cl.state with
  | .prclookupProgMount => some (.getPort .mount (if cl.v2 then 1 else 3))
  | .prclookupProgNfs => some (.getPort .nfs (if cl.v2 then 2 else 3))
  | .mount => some (.mount cl.paths.path)
  | .umount =>
    if cl.mountPort = -1 ∨ cl.fsMounted = false then none
    else some .umountAll
  | .lookup => some (.lookup cl.dirfh.bytes cl.paths.filename)
  | .read => some (.read (fileHandle cl) cl.nfsOffset cl.nfsLen)
  | .readlink => some (.readlink (fileHandle cl))

def nfsSend (cl : Client) : Except Fault Client :=
  match currentCall cl with
  | some call => rpcReq call cl
  | none => .ok cl

----
-- Replies
----

/- `memcpy(&rpc_pkt, pkt, len)`. -/
def copyPacket (pkt : List UInt8) : Except Fault (List UInt8) :=
  if pkt.length ≤ RPC_SIZE then .ok pkt
  else .error .overflow

/- `ntohl` of a word, where that is in the packet. -/
def wordAt (rpc : List UInt8) (off : Nat) : Nat :=
  Words.ofBytes ((rpc.drop off).take 4).reverse

def word (rpc : List UInt8) (off : Nat) : Except Fault Nat :=
  if off + 4 ≤ rpc.length then .ok (wordAt rpc off)
  else .error .notReceived

def bytesAt (rpc : List UInt8)
    (off len : Nat) : List UInt8 :=
  (rpc.drop off).take len

def bytes (rpc : List UInt8)
    (off len : Nat) : Except Fault (List UInt8) :=
  if off + len ≤ rpc.length then .ok (bytesAt rpc off len)
  else .error .notReceived

/- The offsets of the fields of a reply. -/
def RSTATUS : Nat := 8
def VERIFIER : Nat := 12
def ASTATUS : Nat := 20
def DATA (i : Nat) : Nat := 24 + 4 * i

/- Whether one of the fields is not zero; `||` in C. -/
def anySet (rpc : List UInt8) : List Nat → Except Fault Bool
  | [] => .ok false
  | off :: rest => do
      let w ← word rpc off
      if w ≠ 0 then .ok true else anySet rpc rest

/- The result of a parser, and what it stored. -/
abbrev Reply := Except Fault (Int × Client)

/- The test of the identifier, with which each parser begins. -/
def checkId (rpc : List UInt8) (cl : Client)
    (accepted : Reply) : Reply := do
  let id ← word rpc 0
  if id > cl.rpcId then .ok (-NFS_RPC_ERR, cl)
  else if id < cl.rpcId then .ok (-NFS_RPC_DROP, cl)
  else accepted

def rpcLookupReply (prog : Prog) (pkt : List UInt8)
    (cl : Client) : Reply := do
  let rpc ← copyPacket pkt
  checkId rpc cl do
    if ← anySet rpc [RSTATUS, VERIFIER, ASTATUS] then
      .ok (-1, cl)
    else
      let port ← word rpc (DATA 0)
      match prog with
      | .mount => .ok (0, { cl with mountPort := toInt port })
      | .nfs => .ok (0, { cl with serverPort := toInt port })

def nfsMountReply (pkt : List UInt8)
    (cl : Client) : Reply := do
  let rpc ← copyPacket pkt
  checkId rpc cl do
    if ← anySet rpc [RSTATUS, VERIFIER, ASTATUS, DATA 0] then
      .ok (-1, cl)
    else
      let fh ← bytes rpc (DATA 1) NFS_FHSIZE
      let dirfh ← cl.dirfh.copy fh
      .ok (0, { cl with fsMounted := true, dirfh := dirfh })

def nfsUmountallReply (pkt : List UInt8)
    (cl : Client) : Reply := do
  let rpc ← copyPacket pkt
  checkId rpc cl do
    if ← anySet rpc [RSTATUS, VERIFIER, ASTATUS] then
      .ok (-1, cl)
    else
      .ok (0, { cl with
        fsMounted := false
        dirfh := ⟨List.replicate NFS_FHSIZE 0, length_replicate⟩ })

/- The reply is not accepted, or the file is not found. -/
def lookupError (rpc : List UInt8)
    (cl : Client) : Reply := do
  let astatus ← word rpc ASTATUS
  if astatus = NFS_RPC_PROG_MISMATCH then
    let low ← word rpc (DATA 0)
    if low = 3 then
      .ok (-NFS_RPC_PROG_MISMATCH, { cl with v2 := false })
    else .ok (-1, cl)
  else .ok (-1, cl)

/- `filefh3_length` is an `int`. -/
def nfsLookupReply (pkt : List UInt8)
    (cl : Client) : Reply := do
  let rpc ← copyPacket pkt
  checkId rpc cl do
    if ← anySet rpc [RSTATUS, VERIFIER, ASTATUS, DATA 0] then
      lookupError rpc cl
    else if cl.v2 then
      let fh ← bytes rpc (DATA 1) NFS_FHSIZE
      let filefh ← cl.filefh.copy fh
      .ok (0, { cl with filefh := filefh })
    else
      let length ← word rpc (DATA 1)
      if toInt length < 0 then .error .overflow
      else
        let length := min length NFS3_FHSIZE
        let fh ← bytes rpc (DATA 2) length
        let filefh ← cl.filefh.copy fh
        .ok (0, { cl with
          filefh := filefh
          filefh3Length := length
          filefh3Length_le := Nat.min_le_right _ _ })

/- The words that the attributes take. -/
def nfs3GetAttributesOffset (rpc : List UInt8) : Except Fault Nat := do
  let follow ← word rpc (DATA 1)
  if follow ≠ 0 then .ok 22 else .ok 1

/- `nfsv3_data_offset` in the reply to a READLINK. -/
def linkOffset (cl : Client)
    (rpc : List UInt8) : Except Fault Nat :=
  if cl.v2 then .ok 0 else nfs3GetAttributesOffset rpc

/- The new string in `nfs_path_buff`. -/
def followLink (paths : PathBuffer)
    (first target : List UInt8) : Except Fault PathBuffer :=
  if first ≠ [slash] then
    setPath (paths.path ++ slash :: target)
  else setPath target

/- A negative length is more than there is room for. -/
def nfsReadlinkReply (pkt : List UInt8)
    (cl : Client) : Reply := do
  let rpc ← copyPacket pkt
  checkId rpc cl do
    if ← anySet rpc [RSTATUS, VERIFIER, ASTATUS, DATA 0] then
      .ok (-1, cl)
    else
      let offset ← linkOffset cl rpc
      let rlen ← word rpc (DATA (1 + offset))
      let first ← bytes rpc (DATA (2 + offset)) 1
      let target ← bytes rpc (DATA (2 + offset)) rlen
      let paths ← followLink cl.paths first target
      .ok (0, { cl with paths := paths })

/- `store_block`; the offset is an `unsigned`. -/
def storeBlock (loadAddr : Nat) (src : List UInt8)
    (cl : Client) : Client :=
  let newsize := u32 (cl.nfsOffset + src.length)
  { cl with
    memory := cl.memory.write (loadAddr + cl.nfsOffset) src
    netBootFileSize := max cl.netBootFileSize newsize }

/- The code of an error of the read. -/
def readError (rpc : List UInt8)
    (cl : Client) : Reply := do
  let rstatus ← word rpc RSTATUS
  if rstatus ≠ 0 then .ok (-9999, cl)
  else
    let astatus ← word rpc ASTATUS
    if astatus ≠ 0 then .ok (-9999, cl)
    else
      let status ← word rpc (DATA 0)
      .ok (toInt (2 ^ 32 - status), cl)

/- Where the number of the bytes read is, and the bytes. -/
def readPlace (cl : Client)
    (rpc : List UInt8) : Except Fault (Nat × Nat) :=
  if cl.v2 then .ok (DATA 18, DATA 19)
  else do
    let offset ← nfs3GetAttributesOffset rpc
    .ok (DATA (1 + offset), DATA (4 + offset))

/- The whole of `rpc_pkt` is copied, whatever was received. -/
def nfsReadReply (loadAddr : Nat) (pkt : List UInt8)
    (cl : Client) : Reply :=
  let rpc := pkt.take RPC_SIZE
  checkId rpc cl do
    if ← anySet rpc [RSTATUS, VERIFIER, ASTATUS, DATA 0] then
      readError rpc cl
    else
      let place ← readPlace cl rpc
      let rlen ← word rpc place.1
      let src ← bytes rpc place.2 rlen
      .ok (toInt rlen, storeBlock loadAddr src cl)

----
-- Handlers
----

/- `nfs_our_port`. -/
def NFS_OUR_PORT : Nat := 1000

/- The next state, whose request is sent. -/
def sendIn (state : NfsState)
    (cl : Client) : Except Fault Client :=
  nfsSend { cl with state := state }

/- Unmount, and start again with the other version. -/
def retryVersion (cl : Client) : Except Fault Client := do
  let cl ← sendIn .umount cl
  sendIn .prclookupProgMount cl

/- What is done with the number of bytes that were read. -/
def afterRead (rlen : Int)
    (cl : Client) : Except Fault Client :=
  if rlen > 0 then
    nfsSend { cl with
      nfsOffset := u32 (cl.nfsOffset + rlen.toNat) }
  else if rlen = -NFSERR_ISDIR ∨ rlen = -NFSERR_INVAL then
    sendIn .readlink cl
  else if rlen = 0 then
    sendIn .umount { cl with downloadState := .success }
  else sendIn .umount cl

def nfsHandler (loadAddr : Nat) (dest : Nat) (pkt : List UInt8)
    (cl : Client) : Except Fault Client :=
  if dest ≠ NFS_OUR_PORT then .ok cl
  else
    match cl.state with
    | .prclookupProgMount => do
        let (reply, cl) ← rpcLookupReply .mount pkt cl
        if reply = -NFS_RPC_DROP then .ok cl
        else sendIn .prclookupProgNfs cl
    | .prclookupProgNfs => do
        let (reply, cl) ← rpcLookupReply .nfs pkt cl
        if reply = -NFS_RPC_DROP then .ok cl
        else sendIn .mount cl
    | .mount => do
        let (reply, cl) ← nfsMountReply pkt cl
        if reply = -NFS_RPC_DROP then .ok cl
        else if reply = -NFS_RPC_ERR then sendIn .umount cl
        else sendIn .lookup cl
    | .umount => do
        let (reply, cl) ← nfsUmountallReply pkt cl
        if reply = -NFS_RPC_DROP then .ok cl
        else if reply = -NFS_RPC_ERR then
          .ok { cl with netState := .fail }
        else .ok { cl with netState := cl.downloadState }
    | .lookup => do
        let (reply, cl) ← nfsLookupReply pkt cl
        if reply = -NFS_RPC_DROP then .ok cl
        else if reply = -NFS_RPC_ERR then sendIn .umount cl
        else if reply = -NFS_RPC_PROG_MISMATCH then
          retryVersion cl
        else
          sendIn .read { cl with
            nfsOffset := 0, nfsLen := NFS_READ_SIZE }
    | .readlink => do
        let (reply, cl) ← nfsReadlinkReply pkt cl
        if reply = -NFS_RPC_DROP then .ok cl
        else if reply = -NFS_RPC_ERR then sendIn .umount cl
        else sendIn .mount cl
    | .read => do
        let (rlen, cl) ← nfsReadReply loadAddr pkt cl
        afterRead rlen cl

/- `net_start_again`; it depends on the environment. -/
def netStartAgain (retry : Bool) (cl : Client) : Client :=
  { cl with netState := if retry then .restart else .fail }

def nfsTimeoutHandler (retry : Bool)
    (cl : Client) : Except Fault Client :=
  let cl := { cl with timeoutCount := cl.timeoutCount + 1 }
  if cl.timeoutCount > NFS_RETRY_COUNT then
    .ok (netStartAgain retry cl)
  else nfsSend cl

/- A byte as `%02X` prints it. -/
def hexByte (b : UInt8) : List UInt8 :=
  let digit (n : Nat) : UInt8 := UInt8.ofNat (if n < 10 then 48 + n else 55 + n)
  [digit (b.toNat / 16), digit (b.toNat % 16)]

def nfsroot : List UInt8 :=
  [47, 110, 102, 115, 114, 111, 111, 116, 47]

def dotImg : List UInt8 := [46, 105, 109, 103]

/-
  The string for `nfs_path_buff`: without a file name it is
  made of the address, and a server before a colon is left
  out.
-/
def startPath (netIp fileName : List UInt8) : List UInt8 :=
  if fileName = [] then
    nfsroot ++ netIp.flatMap hexByte ++ dotImg
  else
    match fileName.dropWhile (· ≠ 58) with
    | [] => fileName
    | _ :: afterColon => afterColon

/- `net_loop` up to the end of `nfs_start`. -/
def nfsStart (netIp fileName : List UInt8)
    (cl : Client) : Except Fault Client := do
  let paths ← setPath (startPath netIp fileName)
  nfsSend { cl with
    netState := .continue
    netBootFileSize := 0
    downloadState := .fail
    paths := paths
    timeoutCount := 0
    state := .prclookupProgMount }

end Uboot.Nfs
