import BootFirmware.Lib.Words
import Mathlib.Algebra.Ring.Nat
import Mathlib.Data.List.TakeWhile

/-
  EFI device paths: nodes in a row, closed by an end node.

  `efi_dp_size` counts the end node of a path that has no
  other, so that path is copied and appended to as if it had
  one node.

  Key definitions include:
    * `efiDpNext` and `efiDpSize`
    * `efiDpAppend` and `efiDpSplitFilePath`
    * `Node` and `pathBytes`

  The main result is `device_paths_monoid`.
-/

namespace Uboot.Efi.DevicePath

open List Option

----
-- The Code
----

def DEVICE_PATH_TYPE_END : UInt8 := 0x7f
def DEVICE_PATH_TYPE_MESSAGING_DEVICE : UInt8 := 0x03
def DEVICE_PATH_TYPE_MEDIA_DEVICE : UInt8 := 0x04
def DEVICE_PATH_SUB_TYPE_MSG_USB_CLASS : UInt8 := 0x0f
def DEVICE_PATH_SUB_TYPE_HARD_DRIVE_PATH : UInt8 := 0x01
def DEVICE_PATH_SUB_TYPE_FILE_PATH : UInt8 := 0x04

/- The template end node. -/
def END : List UInt8 := [DEVICE_PATH_TYPE_END, 0xff, 4, 0]

/-
  A pointer is the memory from it on.  A read behind that
  memory is `none`, and so is a walk that does not end.
-/
abbrev Ptr := List UInt8

/- The field `length`. -/
def dpLength (dp : Ptr) : Option Nat := do
  some ((← dp[2]?).toNat + 256 * (← dp[3]?).toNat)

def memcpy (src : Ptr)
    (n : Nat) : Option (List UInt8) :=
  if n ≤ src.length then some (src.take n) else none

/- `EFI_DP_TYPE`. -/
def efiDpType (dp : Ptr)
    (type subType : UInt8) : Option Bool := do
  if (← dp[0]?) = type then some ((← dp[1]?) == subType) else some false

/- `efi_dp_next` of a path, NULL behind the last node. -/
def efiDpNext (dp : Ptr) : Option (Option Ptr) := do
  if (← dp[0]?) = DEVICE_PATH_TYPE_END then some none
  else
    let next := dp.drop (← dpLength dp)
    if (← next[0]?) = DEVICE_PATH_TYPE_END then some none else some (some next)

def efiDpSizeLoop : Nat → Option Ptr → Option Nat
  | _, none => some 0
  | 0, some _ => none
  | turns + 1, some dp => do
    let sz ← dpLength dp
    some (sz + (← efiDpSizeLoop turns (← efiDpNext dp)))

/-
  No walk takes more turns than there are bytes.  The source
  adds up in an `unsigned`, which a path in memory fits.
-/
def efiDpSize (dp : Option Ptr) : Option Nat :=
  efiDpSizeLoop ((dp.getD []).length + 1) dp

/- `efi_dp_dup`, with memory left to allocate. -/
def efiDpDup (dp : Option Ptr) : Option (Option (List UInt8)) := do
  let sz := (← efiDpSize dp) + END.length
  match dp with
  | none => some none
  | some dp => (memcpy dp sz).map some

/- `efi_dp_append`. -/
def efiDpAppend (dp1 dp2 : Option Ptr) : Option (Option (List UInt8)) :=
  match dp1, dp2 with
  | none, dp2 => efiDpDup dp2
  | some dp1, none => efiDpDup (some dp1)
  | some dp1, some dp2 => do
    let sz1 ← efiDpSize (some dp1)
    let sz2 ← efiDpSize (some dp2)
    some (some ((← memcpy dp1 sz1) ++ ((← memcpy dp2 sz2) ++ END)))

/- `efi_dp_append_node`. -/
def efiDpAppendNode (dp node : Option Ptr) : Option (Option (List UInt8)) :=
  match dp, node with
  | none, none => efiDpDup (some END)
  | some dp, none => efiDpDup (some dp)
  | none, some node => do
    some (some ((← memcpy node (← dpLength node)) ++ END))
  | some dp, some node => do
    let sz ← efiDpSize (some dp)
    some (some ((← memcpy dp sz) ++ ((← memcpy node (← dpLength node)) ++ END)))

/- The loop of `efi_dp_split_file_path`. -/
def filePathLoop : Nat → Ptr → Option (Option Ptr)
  | 0, _ => none
  | turns + 1, p => do
    if ← efiDpType p DEVICE_PATH_TYPE_MEDIA_DEVICE DEVICE_PATH_SUB_TYPE_FILE_PATH then
      some (some p)
    else
      match ← efiDpNext p with
      | none => some none
      | some next => filePathLoop turns next

/-
  `efi_dp_split_file_path`: the device path and the file
  path, or NULL for `EFI_OUT_OF_RESOURCES`.
-/
def efiDpSplitFilePath (fullPath : Option Ptr) : Option (Option (List UInt8 × List UInt8)) := do
  match ← efiDpDup fullPath with
  | none => some none
  | some dp =>
    match ← filePathLoop (dp.length + 1) dp with
    | none => some none
    | some p =>
      match ← efiDpDup (some p) with
      | none => some none
      | some fp =>
        -- the node becomes the end node of the device path
        some (some (dp.take (dp.length - p.length) ++ (END ++ p.drop END.length), fp))

----
-- Paths
----

/- A node that is not the end node. -/
structure Node where
  type : UInt8
  subType : UInt8
  data : List UInt8
  hType : type ≠ DEVICE_PATH_TYPE_END
  hFits : 4 + data.length < 2 ^ 16
deriving DecidableEq

def Node.length (n : Node) : Nat :=
  4 + n.data.length

def Node.bytes (n : Node) : List UInt8 :=
  n.type :: n.subType :: (Words.toBytes 2 n.length ++ n.data)

def Node.Is (n : Node) (type subType : UInt8) : Prop :=
  n.type = type ∧ n.subType = subType

instance (n : Node) (type subType : UInt8) : Decidable (n.Is type subType) :=
  inferInstanceAs (Decidable (_ ∧ _))

abbrev Node.IsFilePath (n : Node) : Prop :=
  n.Is DEVICE_PATH_TYPE_MEDIA_DEVICE DEVICE_PATH_SUB_TYPE_FILE_PATH

def nodeBytes (ns : List Node) : List UInt8 :=
  ns.flatMap Node.bytes

def pathBytes (ns : List Node) : List UInt8 :=
  nodeBytes ns ++ END

/- The nodes before the first file node, and the others. -/
def devicePart (ns : List Node) : List Node :=
  ns.takeWhile fun n => decide ¬ n.IsFilePath

def filePart (ns : List Node) : List Node :=
  ns.dropWhile fun n => decide ¬ n.IsFilePath

/- The total length of the nodes. -/
def total (ns : List Node) : Nat :=
  (ns.map Node.length).sum

section Reads

variable {n : Node} {ns : List Node} {r : List UInt8}

theorem length_nodeBytes (ns : List Node) :
    (nodeBytes ns).length = total ns := by
  induction ns with
  | nil => rfl
  | cons n ns ih =>
    have hNode : n.bytes.length = n.length := by
      unfold Node.bytes Node.length
      rw [length_cons, length_cons, length_append, Words.length_toBytes]
      omega
    change (n.bytes ++ nodeBytes ns).length = n.length + total ns
    rw [length_append, hNode, ih]

theorem length_le_total (ns : List Node) :
    ns.length ≤ total ns := by
  induction ns with
  | nil => exact Nat.zero_le _
  | cons n ns ih =>
    change ns.length + 1 ≤ (4 + n.data.length) + total ns
    omega

theorem pathBytes_cons : pathBytes (n :: ns) ++ r = n.bytes ++ (pathBytes ns ++ r) := by
  simp [pathBytes, nodeBytes]

theorem dpLength_bytes : dpLength (n.bytes ++ r) = some n.length :=
  congrArg some (Words.ofBytes_toBytes 2 _ n.hFits)

theorem drop_cons : (pathBytes (n :: ns) ++ r).drop n.length = pathBytes ns ++ r := by
  rw [pathBytes_cons]
  refine drop_left' ?_
  have hLength := length_nodeBytes [n]
  simpa [nodeBytes, total] using hLength

theorem head_type :
    (pathBytes ns ++ r)[0]? = some ((ns.head?.map Node.type).getD DEVICE_PATH_TYPE_END) := by
  cases ns with
  | nil => rfl
  | cons n ns => rfl

theorem head_type_eq_end :
    (ns.head?.map Node.type).getD DEVICE_PATH_TYPE_END = DEVICE_PATH_TYPE_END ↔ ns = [] := by
  cases ns with
  | nil => exact ⟨fun _ => rfl, fun _ => rfl⟩
  | cons n ns => exact ⟨fun h => absurd h n.hType, nofun⟩

theorem efiDpNext_cons :
    efiDpNext (pathBytes (n :: ns) ++ r) =
      some (if ns = [] then none else some (pathBytes ns ++ r)) := by
  unfold efiDpNext
  rw [head_type, bind_eq_bind, bind_some,
    if_neg (head_type_eq_end.not.mpr (cons_ne_nil _ _)), pathBytes_cons,
    dpLength_bytes, bind_eq_bind, bind_some, ← pathBytes_cons, drop_cons]
  dsimp only
  rw [head_type, bind_some]
  simp only [head_type_eq_end]
  split <;> rfl

theorem efiDpSizeLoop_of_ne {turns : Nat} (hNe : ns ≠ []) (hTurns : ns.length ≤ turns) :
    efiDpSizeLoop turns (some (pathBytes ns ++ r)) = some (total ns) := by
  induction ns generalizing turns with
  | nil => exact absurd rfl hNe
  | cons n ns ih =>
    cases turns with
    | zero => cases hTurns
    | succ turns =>
      unfold efiDpSizeLoop
      rw [efiDpNext_cons, pathBytes_cons, dpLength_bytes]
      by_cases hLast : ns = []
      · subst hLast
        cases turns <;> rfl
      · have hRest := ih hLast (Nat.le_of_succ_le_succ hTurns)
        simp [hLast, hRest, total]

/- The end node is counted if it is the only one. -/
theorem efiDpSize_eq :
    efiDpSize (some (pathBytes ns ++ r)) = some (if ns = [] then END.length else total ns) := by
  by_cases hNone : ns = []
  · subst hNone
    rfl
  · have hTurns := length_le_total ns
    rw [if_neg hNone]
    refine efiDpSizeLoop_of_ne hNone ?_
    simp only [getD_some, length_append, pathBytes, length_nodeBytes]
    omega

theorem memcpy_nodes : memcpy (pathBytes ns ++ r) (total ns) = some (nodeBytes ns) := by
  unfold memcpy pathBytes
  rw [append_assoc, if_pos, take_left' (length_nodeBytes ns)]
  rw [length_append, length_nodeBytes]
  exact Nat.le_add_right _ _

theorem memcpy_path : memcpy (pathBytes ns ++ r) (total ns + END.length) = some (pathBytes ns) := by
  have hLength : (pathBytes ns).length = total ns + END.length := by
    unfold pathBytes
    rw [length_append, length_nodeBytes]
  unfold memcpy
  rw [if_pos, take_left' hLength]
  rw [length_append, hLength]
  exact Nat.le_add_right _ _

----
-- Copies
----

variable {a b : List Node} {s : List UInt8}

theorem efiDpDup_eq (hNe : ns ≠ []) :
    efiDpDup (some (pathBytes ns ++ r)) = some (some (pathBytes ns)) := by
  unfold efiDpDup
  rw [efiDpSize_eq, if_neg hNe, bind_eq_bind, bind_some]
  dsimp only
  rw [memcpy_path]
  rfl

theorem efiDpAppend_eq (hA : a ≠ []) (hB : b ≠ []) :
    efiDpAppend (some (pathBytes a ++ r)) (some (pathBytes b ++ s)) =
      some (some (pathBytes (a ++ b))) := by
  have hNodes : nodeBytes (a ++ b) = nodeBytes a ++ nodeBytes b := flatMap_append
  unfold efiDpAppend
  dsimp only
  rw [efiDpSize_eq, if_neg hA, efiDpSize_eq, if_neg hB]
  simp only [bind_eq_bind, bind_some, memcpy_nodes]
  rw [pathBytes, hNodes, append_assoc]

theorem efiDpAppendNode_eq (hA : a ≠ []) :
    efiDpAppendNode (some (pathBytes a ++ r)) (some (n.bytes ++ s)) =
      some (some (pathBytes (a ++ [n]))) := by
  have hNode : nodeBytes [n] = n.bytes := append_nil _
  have hNodes : nodeBytes (a ++ [n]) = nodeBytes a ++ n.bytes := by
    rw [← hNode]
    exact flatMap_append
  have hCopy : memcpy (n.bytes ++ s) n.length = some n.bytes := by
    have hSize : n.bytes.length = n.length := by
      rw [← hNode, length_nodeBytes]
      rfl
    unfold memcpy
    rw [if_pos (by rw [length_append, hSize]; exact Nat.le_add_right _ _),
      take_left' hSize]
  unfold efiDpAppendNode
  dsimp only
  rw [efiDpSize_eq, if_neg hA]
  simp only [bind_eq_bind, bind_some, memcpy_nodes, dpLength_bytes, hCopy]
  rw [pathBytes, hNodes, append_assoc]

----
-- Splitting
----

theorem efiDpType_cons (type subType : UInt8) :
    efiDpType (pathBytes (n :: ns) ++ r) type subType = some (decide (n.Is type subType)) := by
  rw [pathBytes_cons]
  change (if n.type = type then some (n.subType == subType) else some false) = _
  by_cases hType : n.type = type
  · rw [if_pos hType, Bool.beq_eq_decide_eq]
    exact congrArg some (decide_eq_decide.mpr (and_iff_right hType).symm)
  · rw [if_neg hType]
    exact congrArg some (decide_eq_false fun h => hType h.1).symm

theorem filePathLoop_eq {turns : Nat} (hTurns : ns.length < turns) :
    filePathLoop turns (pathBytes ns ++ r) =
      some (if filePart ns = [] then none else some (pathBytes (filePart ns) ++ r)) := by
  induction ns generalizing turns with
  | nil =>
    cases turns with
    | zero => cases hTurns
    | succ turns => rfl
  | cons n ns ih =>
    cases turns with
    | zero => cases hTurns
    | succ turns =>
      unfold filePathLoop
      rw [efiDpType_cons, efiDpNext_cons]
      by_cases hFile : n.IsFilePath
      · simp [hFile, filePart]
      · have hRest := ih (Nat.lt_of_succ_lt_succ hTurns)
        by_cases hLast : ns = []
        · subst hLast
          simp [hFile, filePart]
        · simpa [hFile, hLast, filePart] using hRest

theorem efiDpSplitFilePath_eq (hNe : ns ≠ []) :
    efiDpSplitFilePath (some (pathBytes ns ++ r)) = some (if filePart ns = [] then none else
        some (pathBytes (devicePart ns) ++ (pathBytes (filePart ns)).drop END.length,
          pathBytes (filePart ns))) := by
  have hParts : devicePart ns ++ filePart ns = ns := takeWhile_append_dropWhile
  have hPath : pathBytes ns = nodeBytes (devicePart ns) ++ pathBytes (filePart ns) := by
    conv_lhs => rw [← hParts]
    unfold pathBytes nodeBytes
    rw [flatMap_append, append_assoc]
  have hTurns : ns.length < (pathBytes ns).length + 1 := by
    have hLe := length_le_total ns
    unfold pathBytes
    rw [length_append, length_nodeBytes]
    omega
  have hLoop := filePathLoop_eq (r := []) hTurns
  rw [append_nil, append_nil] at hLoop
  unfold efiDpSplitFilePath
  rw [efiDpDup_eq hNe, bind_eq_bind, bind_some]
  dsimp only
  rw [hLoop]
  by_cases hNone : filePart ns = []
  · rw [if_pos hNone, if_pos hNone]
    rfl
  · have hDup := efiDpDup_eq (r := []) hNone
    have hTake : (pathBytes ns).take ((pathBytes ns).length - (pathBytes (filePart ns)).length) =
        nodeBytes (devicePart ns) := by
      rw [hPath, length_append, Nat.add_sub_cancel]
      exact take_left
    rw [append_nil] at hDup
    rw [if_neg hNone, if_neg hNone, bind_some]
    dsimp only
    rw [hDup, bind_some, hTake, ← append_assoc]
    rfl

/- A path is not what it is behind an end node. -/
theorem efiDpAppend_nil_ne (hA : a ≠ []) (hB : b ≠ []) :
    efiDpAppend (some (pathBytes [] ++ r)) (some (pathBytes b ++ s)) ≠
      some (some (pathBytes a)) := by
  have hCopy : memcpy (pathBytes [] ++ r) END.length = some END := by exact memcpy_path (r := r)
  unfold efiDpAppend
  dsimp only
  rw [efiDpSize_eq, if_pos rfl, efiDpSize_eq, if_neg hB]
  simp only [bind_eq_bind, bind_some, memcpy_nodes, hCopy]
  intro hEq
  cases a with
  | nil => exact hA rfl
  | cons n a =>
    have hPath := Option.some.inj (Option.some.inj hEq)
    exact n.hType (List.cons.inj hPath).1.symm

end Reads

----
-- The Monoid
----

/- The laws at some paths, whatever the memory holds behind them. -/
structure MonoidLaws (a b c p : List Node) (n : Node) : Prop where
  size : ∀ x ∈ [a, b, c], ∀ r, efiDpSize (some (pathBytes x ++ r)) = some (total x)
  dup : ∀ x ∈ [a, b, c], ∀ r, efiDpDup (some (pathBytes x ++ r)) = some (some (pathBytes x))
  append : ∀ r s, efiDpAppend (some (pathBytes a ++ r)) (some (pathBytes b ++ s)) =
      some (some (pathBytes (a ++ b)))
  assoc :
    ((efiDpAppend (some (pathBytes a)) (some (pathBytes b))).bind fun ab =>
        efiDpAppend ab (some (pathBytes c))) =
      (efiDpAppend (some (pathBytes b)) (some (pathBytes c))).bind fun bc =>
        efiDpAppend (some (pathBytes a)) bc
  appendNode : ∀ r s, efiDpAppendNode (some (pathBytes a ++ r)) (some (n.bytes ++ s)) =
      some (some (pathBytes (a ++ [n])))
  split : ∀ r device file,
    efiDpSplitFilePath (some (pathBytes p ++ r)) = some (some (device, file)) →
      ∃ ns, pathBytes ns <+: device ∧ (∀ x ∈ ns, ¬ x.IsFilePath) ∧
        efiDpAppend (some device) (some file) = some (some (pathBytes p))

theorem efiDpSplitFilePath_nil (r : List UInt8) (parts : List UInt8 × List UInt8) :
    efiDpSplitFilePath (some (pathBytes [] ++ r)) ≠ some (some parts) := by
  have hDup : efiDpDup (some (pathBytes [] ++ r)) = (memcpy (pathBytes [] ++ r) 8).map some := rfl
  unfold efiDpSplitFilePath
  rw [hDup]
  unfold memcpy
  split
  · exact nofun
  · exact nofun

theorem device_paths_monoid (a b c p : List Node) (n : Node) :
    MonoidLaws a b c p n ↔ (a ≠ [] ∧ b ≠ [] ∧ c ≠ []) ∧ ∀ f ∈ p.head?, ¬ f.IsFilePath := by
  constructor
  · intro hLaws
    have hSome : ∀ x ∈ [a, b, c], x ≠ [] := by
      rintro x hx rfl
      cases hLaws.size [] hx []
    refine ⟨⟨hSome a (by simp), hSome b (by simp), hSome c (by simp)⟩, fun f hHead hFile => ?_⟩
    cases p with
    | nil => cases hHead
    | cons g p =>
      cases hHead
      have hDevice : devicePart (f :: p) = [] := by simp [devicePart, hFile]
      have hRest : filePart (f :: p) = f :: p := by simp [filePart, hFile]
      have hSplit := efiDpSplitFilePath_eq (r := []) (cons_ne_nil f p)
      rw [hDevice, hRest, if_neg (cons_ne_nil f p)] at hSplit
      rcases hLaws.split [] _ _ hSplit with ⟨-, -, -, hAppend⟩
      rw [← append_nil (pathBytes (f :: p))] at hAppend
      exact efiDpAppend_nil_ne (cons_ne_nil f p) (cons_ne_nil f p)
        (hAppend.trans (by rw [append_nil]))
  · rintro ⟨⟨hA, hB, hC⟩, hHead⟩
    have hEach : ∀ x ∈ [a, b, c], x ≠ [] := by simp [hA, hB, hC]
    have hAppend : ∀ {x y : List Node}, x ≠ [] → y ≠ [] →
        efiDpAppend (some (pathBytes x)) (some (pathBytes y)) =
          some (some (pathBytes (x ++ y))) := by
      intro x y hx hy
      simpa using efiDpAppend_eq (r := []) (s := []) hx hy
    refine ⟨fun x hx r => ?_, fun x hx r => efiDpDup_eq (hEach x hx),
      fun r s => efiDpAppend_eq hA hB, ?_, fun r s => efiDpAppendNode_eq hA, ?_⟩
    · rw [efiDpSize_eq, if_neg (hEach x hx)]
    · rw [hAppend hA hB, hAppend hB hC, bind_some, bind_some,
        hAppend (append_ne_nil_of_left_ne_nil hA b) hC,
        hAppend hA (append_ne_nil_of_left_ne_nil hB c), append_assoc]
    · intro r device file hSplit
      by_cases hNe : p = []
      · subst hNe
        exact absurd hSplit (efiDpSplitFilePath_nil r _)
      rw [efiDpSplitFilePath_eq hNe] at hSplit
      split at hSplit
      · cases hSplit
      · rename_i hFile
        cases hSplit
        have hDevice : devicePart p ≠ [] := by
          cases p with
          | nil => exact absurd rfl hNe
          | cons f p => simp [devicePart, hHead f rfl]
        refine ⟨_, prefix_append _ _, fun x hx => ?_, ?_⟩
        · have hBefore := mem_takeWhile_imp hx
          exact of_decide_eq_true hBefore
        have hJoined := efiDpAppend_eq (r := (pathBytes (filePart p)).drop END.length)
          (s := []) hDevice hFile
        rwa [append_nil, devicePart, filePart, takeWhile_append_dropWhile] at hJoined

/- The end-only path has a size, and hides what is appended to it. -/
theorem device_paths_end_only :
    let file : Node := ⟨4, 4, [], by decide, by decide⟩
    efiDpSize (some (pathBytes [])) = some 4 ∧
    efiDpAppend (some (pathBytes [])) (some (pathBytes [file])) =
      some (some (pathBytes [] ++ pathBytes [file])) ∧
    ¬ MonoidLaws [] [] [] [] file := by
  intro file
  exact ⟨rfl, by decide, fun h => by cases h.size [] (by simp) []⟩

end Uboot.Efi.DevicePath
