import BootFirmware.Lib.TransitionSystem
import BootFirmware.Uboot.Nfs.Safety

/-
  A correct server for the second version of NFS, and the
  runs of the client with it over a network that loses,
  duplicates, delays and reorders packets.

  Key definitions include:
    * `Server`
    * `Server.Holds`
    * `Answers`
    * `Transfer.step` and `Transfer.system`
    * `Transfer.Admitted`

  The lemmas used by the developments built on top are:
    * `wordAt_append` and `bytesAt_append`
    * `Answers.late`
-/

----
-- Servers
----

namespace Uboot.Nfs

open List

/- What a handle stands for. -/
inductive Node where
  | file (contents : List UInt8)
  | link (target : List UInt8)
  | other

/-
  The files of a server.  The sizes of NFSv2 have 32 bits,
  and the paths in links 1024 bytes at most.
-/
structure Server where
  mount : List UInt8 → Option (Buffer NFS_FHSIZE)
  lookup : List UInt8 → List UInt8 → Option (Buffer NFS_FHSIZE)
  node : List UInt8 → Node
  file_lt : ∀ fh contents, node fh = .file contents → contents.length < 2 ^ 32
  link_le : ∀ fh target, node fh = .link target → target ≠ [] ∧ target.length ≤ 1024 ∧ 0 ∉ target

/- The path that a link in a directory stands for. -/
def resolve (dir target : List UInt8) : List UInt8 :=
  if target.head? = some slash then target
  else dir ++ slash :: target

/-
  The file with a path, through any number of links: the
  directory is mounted, and the name is looked up there.
-/
inductive Server.Holds (srv : Server) : List UInt8 → List UInt8 → Prop
  | file {dir name contents : List UInt8} {dirfh fh : Buffer NFS_FHSIZE} :
      slash ∉ name → srv.mount dir = some dirfh → srv.lookup dirfh.bytes name = some fh →
        srv.node fh.bytes = .file contents → srv.Holds (dir ++ slash :: name) contents
  | link {dir name target contents : List UInt8} {dirfh fh : Buffer NFS_FHSIZE} :
      slash ∉ name → srv.mount dir = some dirfh → srv.lookup dirfh.bytes name = some fh →
        srv.node fh.bytes = .link target →
        srv.Holds (resolve dir target) contents → srv.Holds (dir ++ slash :: name) contents

----
-- Replies
----

/- An accepted reply; the verifier is empty. -/
def replyHeader (id astatus : Nat) : List UInt8 :=
  be32 id ++ be32 1 ++ be32 0 ++ be32 0 ++ be32 0 ++ be32 astatus

/- The calls whose results begin with a status. -/
def Call.HasStatus : Call → Prop
  | .getPort _ _ => False
  | .umountAll => False
  | _ => True

/-
  The replies to a request of version 2.  Any request may
  be refused or fail; what is read may be cut short, but not
  to nothing before the end of the file.
-/
inductive Answers
    (srv : Server)
    (req : Request) : List UInt8 → Prop
  | refused {astatus : Nat} :
      0 < astatus → astatus < 2 ^ 32 →
        astatus ≠ NFS_RPC_PROG_MISMATCH → Answers srv req (replyHeader req.id astatus)
  | failed {status : Nat} :
      req.call.HasStatus → 0 < status → status < 2 ^ 31 →
        Answers srv req (replyHeader req.id 0 ++ be32 status)
  | port {prog : Prog} {version port : Nat} :
      req.call = .getPort prog version → port < 2 ^ 16 →
        Answers srv req (replyHeader req.id 0 ++ be32 port)
  | mounted {path : List UInt8} {fh : Buffer NFS_FHSIZE} :
      req.call = .mount path → srv.mount path = some fh →
        Answers srv req (replyHeader req.id 0 ++ (be32 0 ++ fh.bytes))
  | unmounted : req.call = .umountAll → Answers srv req (replyHeader req.id 0)
  | found {dirfh name : List UInt8} {fh : Buffer NFS_FHSIZE} {attributes : Buffer 68} :
      req.call = .lookup dirfh name → srv.lookup dirfh name = some fh →
          Answers srv req (replyHeader req.id 0 ++ (be32 0 ++ (fh.bytes ++ attributes.bytes)))
  | target {fh target pad : List UInt8} :
      req.call = .readlink fh → srv.node fh = .link target → pad.length ≤ 3 → Answers srv req
            (replyHeader req.id 0 ++ (be32 0 ++ (be32 target.length ++ (target ++ pad))))
  | data {fh contents pad : List UInt8} {offset count n : Nat} {attributes : Buffer 68} :
      req.call = .read fh offset count → srv.node fh = .file contents →
        n ≤ count → n ≤ contents.length - offset → (n = 0 → count = 0 ∨ contents.length ≤ offset) →
        pad.length ≤ 3 → Answers srv req
            (replyHeader req.id 0 ++
              (be32 0 ++ (attributes.bytes ++ (be32 n ++ ((contents.drop offset).take n ++ pad)))))

----
-- Runs
----

/- The arguments of a load. -/
structure Transfer where
  loadAddr : Nat
  netIp : List UInt8
  fileName : List UInt8

/- The path of the file. -/
def Transfer.path (t : Transfer) : List UInt8 :=
  cstr (startPath t.netIp t.fileName)

/-
  A reply comes to the port of the client, the timer runs
  out, or the loop starts a load again that has failed.
-/
inductive Event where
  | reply (req : Request) (pkt : List UInt8)
  | timeout (retry : Bool)
  | startAgain (retry : Bool)
  | restart

def Transfer.step (t : Transfer)
    (cl : Client) : Event → Option Client
  | .reply _ pkt => (nfsHandler t.loadAddr NFS_OUR_PORT pkt cl).toOption
  | .timeout retry =>
    if cl.netState = .continue then
      (nfsTimeoutHandler retry cl).toOption
    else none
  | .startAgain retry =>
    if cl.netState = .fail then some (netStartAgain retry cl)
    else none
  | .restart =>
    if cl.netState = .restart then
      (nfsStart t.netIp t.fileName cl).toOption
    else none

/-
  The replies are to requests that were sent, at any time
  since, and the next identifier does not wrap.
-/
def Transfer.Admitted (srv : Server) (cl : Client)
    (event : Event) : Prop :=
  cl.rpcId + 1 < 2 ^ 32 ∧
    match event with
    | .reply req pkt => req ∈ cl.sent ∧ Answers srv req pkt
    | _ => True

/- A load starts when nothing was sent before. -/
def Transfer.system (t : Transfer) : TransitionSystem Client Event where
  init cl := ∃ last : Client, last.v2 = true ∧ last.sent = [] ∧ last.rpcId + 1 < 2 ^ 32 ∧
      nfsStart t.netIp t.fileName last = .ok cl
  step cl event cl' := t.step cl event = some cl'

/- The memory holds the file, and its size is reported. -/
def Transfer.Loaded (t : Transfer) (srv : Server)
    (cl : Client) : Prop :=
  ∃ contents, srv.Holds t.path contents ∧ cl.memory.slice t.loadAddr contents.length = contents ∧
      cl.netBootFileSize = contents.length

----
-- Fields Of A Reply
----

theorem wordAt_append (xs ys : List UInt8) (off : Nat) :
    wordAt (xs ++ ys) (xs.length + off) = wordAt ys off := by
  unfold wordAt
  rw [drop_length_add_append]

theorem bytesAt_append (xs ys : List UInt8) (off len : Nat) :
    bytesAt (xs ++ ys) (xs.length + off) len = bytesAt ys off len := by
  unfold bytesAt
  rw [drop_length_add_append]

theorem bytesAt_take {xs ys : List UInt8} {len : Nat} (hLe : len ≤ xs.length) :
    bytesAt (xs ++ ys) 0 len = xs.take len := by
  unfold bytesAt
  rw [drop_zero, take_append_of_le_length hLe]

theorem wordAt_be32 {n : Nat} (hLt : n < 2 ^ 32) (rest : List UInt8) :
    wordAt (be32 n ++ rest) 0 = n := by
  have hTake : (be32 n ++ rest).take 4 = be32 n := take_left' (length_be32 n)
  unfold wordAt
  rw [drop_zero, hTake]
  unfold be32
  rw [reverse_reverse]
  exact Words.ofBytes_toBytes 4 n (by omega)

theorem wordAt_be32_skip (n off : Nat) (rest : List UInt8) :
    wordAt (be32 n ++ rest) (4 + off) = wordAt rest off := by
  have hSkip := wordAt_append (be32 n) rest off
  rwa [length_be32] at hSkip

theorem bytesAt_be32_skip (n off len : Nat) (rest : List UInt8) :
    bytesAt (be32 n ++ rest) (4 + off) len = bytesAt rest off len := by
  have hSkip := bytesAt_append (be32 n) rest off len
  rwa [length_be32] at hSkip

theorem length_replyHeader (id astatus : Nat) : (replyHeader id astatus).length = 24 := by
  unfold replyHeader
  simp only [length_append, length_be32]

theorem wordAt_header_id {id : Nat} (hId : id < 2 ^ 32) (astatus : Nat) (body : List UInt8) :
    wordAt (replyHeader id astatus ++ body) 0 = id := by
  exact wordAt_be32 hId _

theorem wordAt_header_rstatus (id astatus : Nat) (body : List UInt8) :
    wordAt (replyHeader id astatus ++ body) RSTATUS = 0 := by
  have hOff : RSTATUS = 4 + (4 + 0) := rfl
  unfold replyHeader
  simp only [append_assoc]
  rw [hOff, wordAt_be32_skip, wordAt_be32_skip]
  exact wordAt_be32 (by decide) _

theorem wordAt_header_verifier (id astatus : Nat) (body : List UInt8) :
    wordAt (replyHeader id astatus ++ body) VERIFIER = 0 := by
  have hOff : VERIFIER = 4 + (4 + (4 + 0)) := rfl
  unfold replyHeader
  simp only [append_assoc]
  rw [hOff, wordAt_be32_skip, wordAt_be32_skip, wordAt_be32_skip]
  exact wordAt_be32 (by decide) _

theorem wordAt_header_astatus
    {astatus : Nat} (id : Nat) (hLt : astatus < 2 ^ 32) (body : List UInt8) :
    wordAt (replyHeader id astatus ++ body) ASTATUS = astatus := by
  have hOff : ASTATUS = 4 + (4 + (4 + (4 + (4 + 0)))) := rfl
  unfold replyHeader
  simp only [append_assoc]
  rw [hOff, wordAt_be32_skip, wordAt_be32_skip,
    wordAt_be32_skip, wordAt_be32_skip, wordAt_be32_skip]
  exact wordAt_be32 hLt _

theorem wordAt_body (id astatus i : Nat) (body : List UInt8) :
    wordAt (replyHeader id astatus ++ body) (DATA i) = wordAt body (4 * i) := by
  have hSkip := wordAt_append (replyHeader id astatus) body (4 * i)
  rwa [length_replyHeader] at hSkip

theorem bytesAt_body (id astatus i len : Nat) (body : List UInt8) :
    bytesAt (replyHeader id astatus ++ body) (DATA i) len = bytesAt body (4 * i) len := by
  have hSkip := bytesAt_append (replyHeader id astatus) body (4 * i) len
  rwa [length_replyHeader] at hSkip

variable {pkt : List UInt8}

theorem Answers.header {srv : Server} {req : Request} (hAnswers : Answers srv req pkt) :
    ∃ astatus body, pkt = replyHeader req.id astatus ++ body := by
  cases hAnswers with
  | refused | unmounted => exact ⟨_, [], (append_nil _).symm⟩
  | failed | port | mounted | found | target | data => exact ⟨_, _, rfl⟩

/-
  The replies fit into `rpc_pkt`, if not more is asked for
  than a block.
-/
theorem Answers.length_le {srv : Server} {req : Request} (hAnswers : Answers srv req pkt)
    (hCount : ∀ fh offset count, req.call = .read fh offset count → count ≤ NFS_READ_SIZE) :
    pkt.length ≤ RPC_SIZE := by
  have hRpc : RPC_SIZE = 4120 := rfl
  have hFh : NFS_FHSIZE = 32 := rfl
  cases hAnswers with
  | refused | unmounted =>
    rw [length_replyHeader]
    omega
  | failed | port =>
    rw [length_append, length_replyHeader, length_be32]
    omega
  | @mounted path fh =>
    have hLength := fh.length_bytes
    simp only [length_append, length_replyHeader, length_be32]
    omega
  | @found dirfh name fh attributes =>
    have hLength := fh.length_bytes
    have hAttributes := attributes.length_bytes
    simp only [length_append, length_replyHeader, length_be32]
    omega
  | target _ hNode hPad =>
    have hLength := (srv.link_le _ _ hNode).2.1
    simp only [length_append, length_replyHeader, length_be32]
    omega
  | @data fh contents pad offset count n attributes hCall _ hLe _ _ hPad =>
    have hBlock := hCount _ _ _ hCall
    have hSize : NFS_READ_SIZE = 1024 := rfl
    have hAttributes := attributes.length_bytes
    have hTake : ((contents.drop offset).take n).length ≤ n := by
      rw [length_take]
      exact Nat.min_le_left _ _
    simp only [length_append, length_replyHeader, length_be32]
    omega

end Uboot.Nfs
