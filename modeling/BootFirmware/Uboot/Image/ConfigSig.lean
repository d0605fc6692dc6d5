import BootFirmware.Lib.Words
import BootFirmware.Uboot.Fdt.FoundRegions
import BootFirmware.Uboot.Image.Algos
import Mathlib.Data.List.TakeWhile

/-
  `fit_config_check_sig` up to the call of the verifier, on a
  FIT of any bytes, with the places of its array of names and
  of the properties of the signature that it uses.

  The properties are what `fdt_getprop` finds at the node of
  the signature; after each come the bytes that a read past
  its end meets.

  Key definitions include:
    * `SigNode`, `Use` and `Outcome`
    * `fillLoop`
    * `fitConfigCheckSig`
    * `SafelyChecked`

  The main results are:
    * `fillLoop_ok_iff`
    * `fit_config_check_sig_safe`
    * `fit_config_check_sig_unterminated`
-/

----
-- The Function
----

namespace Uboot.Image

open Fdt Fdt.Raw List

def IMAGE_MAX_HASHED_NODES : Nat := 100

/- The properties of the signature; `algo` is a string. -/
structure SigNode where
  algo : Option Str
  value : Option (List UInt8)
  hashedNodes : Option (List UInt8)
  beyondNodes : Str
  hashedStrings : Option (List UInt8)
  beyondStrings : List UInt8
deriving DecidableEq, Repr

/-
  A write to `node_inc[]`, a read of a byte of the property
  `hashed-nodes` or `hashed-strings`, and what the search for
  regions uses of its own arrays.
-/
inductive Use where
  | nodeInc (i : Nat)
  | nodesByte (p : Nat)
  | stringsByte (p : Nat)
  | search (a : Access)
deriving DecidableEq, Repr

/-
  What the call comes to: an error with its text, a search
  for regions that has not ended, or the regions that the
  verifier is given.
-/
inductive Outcome where
  | failed (msg : String)
  | searching
  | verify (regions : List FdtRegion)
deriving DecidableEq, Repr

/- `fit_image_setup_verify`: the algorithms, or an error. -/
def fitImageSetupVerify (node : SigNode) :
    Except String (ChecksumAlgo × CryptoAlgo) :=
  match node.algo with
  | none => .error "Can't get hash algo property"
  | some algoName =>
    match imageGetChecksumAlgo algoName, imageGetCryptoAlgo algoName with
    | some checksum, some crypto => .ok (checksum, crypto)
    | _, _ => .error "Unknown signature algorithm"

/-
  The loop that fills `node_inc`: the names, from the one at
  `pos` on.  A name without a NUL in the property goes on
  beyond it.  A turn takes a byte at least.
-/
def fillLoop (beyond : Str) :
    Nat → Nat → Nat → List UInt8 → List Str × List Use
  | 0, _, _, _ => ([], [])
  | turns + 1, i, pos, bytes =>
    if bytes = [] then ([], [])
    else
      let own := bytes.takeWhile (· ≠ 0)
      let name :=
        if own.length < bytes.length then own
        else own ++ beyond
      let uses := Use.nodeInc i :: (List.range' pos (name.length + 1)).map .nodesByte
      let rest := fillLoop beyond turns (i + 1)
        (pos + name.length + 1) (bytes.drop (name.length + 1))
      (name :: rest.1, uses ++ rest.2)

/- `fdt32_to_cpu` of a word. -/
def wordOf (bytes : List UInt8) (i : Nat) : Nat :=
  Words.ofBytes ((bytes.drop (4 * i)).take 4).reverse

/- The arguments of the search; `exc_prop` is `data`. -/
def configFindArgs (count : Nat) (nodeInc : List Str) : FindArgs where
  inc := nodeInc.take count
  excProp := [[0x64, 0x61, 0x74, 0x61]]
  maxRegions := (20 + count * 7 : Nat) - 1
  pathLen := 200
  addStringTab := false

/- The region of the strings, as the property has it. -/
def stringsRegion (fit : Blob) (bytes : List UInt8) : FdtRegion where
  offset := toInt (fit.offDtStrings + wordOf bytes 0)
  size := toInt (wordOf bytes 1)

/- What is done with the regions that are found. -/
def addStrings (fit : Blob) (node : SigNode)
    (regions : List FdtRegion) : Outcome × List Use :=
  match node.hashedStrings with
  | none => (.verify regions, [])
  | some strings =>
    (.verify (regions ++ [stringsRegion fit (strings ++ node.beyondStrings)]),
      (List.range 8).map .stringsByte)

/- The bytes of the property, and none where it is missing. -/
def SigNode.nodes (node : SigNode) : List UInt8 :=
  node.hashedNodes.getD []

/- The bytes that are NUL. -/
def SigNode.count (node : SigNode) : Nat :=
  node.nodes.count 0

/- The names, and what filling the array has used. -/
def SigNode.fill (node : SigNode) : List Str × List Use :=
  fillLoop node.beyondNodes node.nodes.length 0 0 node.nodes

/- The arguments of the search for these names. -/
def SigNode.args (node : SigNode) : FindArgs :=
  configFindArgs node.count node.fill.1

/-
  From the list of names on, with what stands around the stack
  and in the array of `fdt_find_regions`, and a bound on the
  tags that this reads.  Where the search leaves its arrays,
  nothing is known of what follows.
-/
def checkRegions (fit : Blob) (node : SigNode) (outside : Int → Int) (fdtRegions : Memory FdtRegion)
    (tags : Nat) : Outcome × List Use :=
  let maxRegions := 20 + node.count * 7
  match fdtFindRegions node.args fit outside fdtRegions tags with
  | none =>
    (.searching,
      node.fill.2 ++ (findUsed node.args fit tags (findStart outside fdtRegions)).map .search)
  | some (.error _, used) =>
    (.failed "Failed to hash configuration", node.fill.2 ++ used.map .search)
  | some (.ok (count, regions), used) =>
    let uses := node.fill.2 ++ used.map .search
    if count = 0 then (.failed "No data to hash", uses)
    else if maxRegions - 1 ≤ count then
      (.failed "Too many hash regions", uses)
    else
      let (outcome, last) := addStrings fit node (regions.slice 0 count)
      (outcome, uses ++ last)

/- `fit_config_check_sig`. -/
def fitConfigCheckSig
    (fit : Blob) (node : SigNode) (outside : Int → Int) (fdtRegions : Memory FdtRegion)
    (tags : Nat) : Outcome × List Use :=
  match fitImageSetupVerify node with
  | .error msg => (.failed msg, [])
  | .ok _ =>
    if node.value = none then
      (.failed "Can't get hash value property", [])
    else if node.count = 0 then
      (.failed "Can't get hashed-nodes property", [])
    else if IMAGE_MAX_HASHED_NODES < node.count then
      (.failed "Number of hashed nodes exceeds maximum", [])
    else checkRegions fit node outside fdtRegions tags

----
-- What is Safe
----

/- The place is one of so many. -/
def Use.Within (args : FindArgs) (names nodes strings : Nat) : Use → Prop
  | .nodeInc i => i < names
  | .nodesByte p => p < nodes
  | .stringsByte p => p < strings
  | .search a => a.Ok args

instance (args : FindArgs) (names nodes strings : Nat) (u : Use) :
    Decidable (u.Within args names nodes strings) :=
  match u with
  | .nodeInc _ => inferInstanceAs (Decidable (_ < _))
  | .nodesByte _ => inferInstanceAs (Decidable (_ < _))
  | .stringsByte _ => inferInstanceAs (Decidable (_ < _))
  | .search a => inferInstanceAs (Decidable (a.Ok args))

/- The place is one of the array or of the property. -/
def Use.Ok (node : SigNode) (u : Use) : Prop :=
  u.Within node.args node.count node.nodes.length (node.hashedStrings.getD []).length

instance (node : SigNode) (u : Use) : Decidable (u.Ok node) :=
  inferInstanceAs (Decidable (u.Within ..))

/- Only own places are used, and the regions are in the FIT. -/
structure Outcome.Safe
    (fit : Blob) (node : SigNode)
    (r : Outcome × List Use) : Prop where
  uses : ∀ u ∈ r.2, u.Ok node
  regions : ∀ regions, r.1 = .verify regions → ∀ region ∈ regions, InTree fit region

def SafelyChecked (fit : Blob) (node : SigNode) (outside : Int → Int)
    (fdtRegions : Memory FdtRegion) : Prop :=
  ∀ tags, Outcome.Safe fit node (fitConfigCheckSig fit node outside fdtRegions tags)

/- The property comes to its array of names. -/
structure ReachesNames (node : SigNode) : Prop where
  setup : ∃ algos, fitImageSetupVerify node = .ok algos
  value : node.value ≠ none
  some : node.count ≠ 0
  few : node.count ≤ IMAGE_MAX_HASHED_NODES

/- The search returns, with fewer regions than are allowed. -/
def FindsRegions (fit : Blob) (node : SigNode) (outside : Int → Int)
    (fdtRegions : Memory FdtRegion) : Prop :=
  ∃ tags count regions used,
    fdtFindRegions node.args fit outside fdtRegions tags = some (.ok (count, regions), used) ∧
    count < 20 + node.count * 7 - 1

/- The strings of the FIT are where the property says. -/
def StringsInTree (fit : Blob) (node : SigNode) : Prop :=
  ∀ strings, node.hashedStrings = some strings →
    8 ≤ strings.length ∧ InTree fit (stringsRegion fit (strings ++ node.beyondStrings))

----
-- Names
----

/- A name ends at the first NUL. -/
theorem split_name {bytes : List UInt8} (hNul : 0 ∈ bytes) :
    ∃ rest, bytes = bytes.takeWhile (· ≠ 0) ++ 0 :: rest := by
  induction bytes with
  | nil => cases hNul
  | cons b bytes ih =>
    by_cases hB : b = 0
    · exact ⟨bytes, by rw [hB]; rfl⟩
    · rcases mem_cons.mp hNul with hHead | hTail
      · exact absurd hHead.symm hB
      · rcases ih hTail with ⟨rest, hRest⟩
        refine ⟨rest, ?_⟩
        have hTake : (b :: bytes).takeWhile (· ≠ 0) = b :: bytes.takeWhile (· ≠ 0) :=
          takeWhile_cons_of_pos (decide_eq_true hB)
        rw [hTake, cons_append, ← hRest]

theorem no_nul_takeWhile (bytes : List UInt8) :
    0 ∉ bytes.takeWhile (· ≠ 0) := by
  intro hMem
  have hNe := mem_takeWhile_imp hMem
  exact absurd rfl (of_decide_eq_true hNe)

/-
  The array is filled within its bounds, and without a read
  past the property, exactly where the last byte is a NUL: a
  name is counted by its NUL, and filled in by its start.
-/
theorem fillLoop_ok_iff
    {beyond : Str} {turns i pos strings : Nat} {bytes : List UInt8} {args : FindArgs}
    (hTurns : bytes.length ≤ turns) :
    (∀ u ∈ (fillLoop beyond turns i pos bytes).2,
      u.Within args (i + bytes.count 0) (pos + bytes.length) strings)
      ↔ bytes = [] ∨ bytes.getLast? = some 0 := by
  induction turns generalizing i pos bytes with
  | zero => exact ⟨fun _ => Or.inl (length_eq_zero_iff.mp (Nat.le_zero.mp hTurns)), fun _ => nofun⟩
  | succ turns ih =>
    by_cases hNil : bytes = []
    · rw [hNil]
      exact ⟨fun _ => Or.inl rfl, fun _ => nofun⟩
    rw [fillLoop, if_neg hNil]
    dsimp only
    by_cases hNul : 0 ∈ bytes
    · rcases split_name hNul with ⟨rest, hRest⟩
      have hOwn := no_nul_takeWhile bytes
      generalize bytes.takeWhile (· ≠ 0) = own at hRest hOwn ⊢
      subst hRest
      have hLength : (own ++ 0 :: rest).length = own.length + rest.length + 1 := by
        rw [length_append, length_cons]
        omega
      have hCount : (own ++ 0 :: rest).count 0 = rest.count 0 + 1 := by
        rw [count_append, count_cons_self, count_eq_zero.mpr hOwn, Nat.zero_add]
      have hDrop : (own ++ 0 :: rest).drop (own.length + 1) = rest := by
        rw [drop_append, drop_eq_nil_of_le (by omega), nil_append, Nat.add_sub_cancel_left]
        rfl
      rw [if_pos (by omega), hDrop, hLength, hCount, forall_mem_append]
      have hTail := @ih (i + 1) (pos + own.length + 1) rest (by omega)
      rw [show i + (rest.count 0 + 1) = i + 1 + rest.count 0 by omega,
        show pos + (own.length + rest.length + 1) =
          pos + own.length + 1 + rest.length by omega, hTail]
      have hLast : (own ++ 0 :: rest).getLast? = some 0 ↔ rest = [] ∨ rest.getLast? = some 0 := by
        rw [getLast?_append, getLast?_cons, Option.some_or]
        cases rest with
        | nil => exact ⟨fun _ => Or.inl rfl, fun _ => rfl⟩
        | cons b rest =>
          rw [getLast?_cons, Option.getD_some]
          exact ⟨Or.inr, fun h => h.resolve_left nofun⟩
      rw [hLast]
      constructor
      · rintro ⟨-, hEnd⟩
        exact Or.inr hEnd
      · rintro (hEmpty | hEnd)
        · exact absurd hEmpty hNil
        · refine ⟨fun u hu => ?_, hEnd⟩
          rcases mem_cons.mp hu with rfl | hByte
          · change i < i + 1 + rest.count 0
            omega
          · rcases mem_map.mp hByte with ⟨p, hp, rfl⟩
            rw [mem_range'_1] at hp
            change p < pos + own.length + 1 + rest.length
            omega
    · rw [count_eq_zero.mpr hNul, Nat.add_zero]
      constructor
      · intro hAll
        have hFirst := hAll (.nodeInc i) (mem_append_left _ (mem_cons_self ..))
        exact absurd hFirst (Nat.lt_irrefl i)
      · rintro (hEmpty | hLast)
        · exact absurd hEmpty hNil
        · exact absurd (mem_of_getLast? hLast) hNul

/- The array of a property is filled safely by its last byte. -/
theorem SigNode.fill_ok_iff {node : SigNode} (hSome : node.count ≠ 0) :
    (∀ u ∈ node.fill.2, u.Ok node) ↔ node.nodes.getLast? = some 0 := by
  have hFill := @fillLoop_ok_iff node.beyondNodes
    node.nodes.length 0 0 (node.hashedStrings.getD []).length
    node.nodes node.args (Nat.le_refl _)
  rw [Nat.zero_add, Nat.zero_add] at hFill
  refine Iff.trans hFill ⟨fun hEither => ?_, Or.inr⟩
  rcases hEither with hNil | hLast
  · refine absurd ?_ hSome
    unfold SigNode.count
    rw [hNil]
    rfl
  · exact hLast

----
-- Regions
----

section

variable {fit : Blob} {node : SigNode} {outside : Int → Int} {fdtRegions : Memory FdtRegion}

/- A call that does not come to the names uses nothing. -/
theorem fitConfigCheckSig_early (tags : Nat) (hEarly : ¬ ReachesNames node) :
    ∃ msg, fitConfigCheckSig fit node outside fdtRegions tags = (.failed msg, []) := by
  unfold fitConfigCheckSig
  cases hSetup : fitImageSetupVerify node with
  | error msg => exact ⟨msg, rfl⟩
  | ok algos =>
    split_ifs with hValue hNone hMany
    · exact ⟨_, rfl⟩
    · exact ⟨_, rfl⟩
    · exact ⟨_, rfl⟩
    · exact absurd ⟨⟨algos, hSetup⟩, hValue, hNone, Nat.not_lt.mp hMany⟩ hEarly

theorem fitConfigCheckSig_names (tags : Nat) (hReaches : ReachesNames node) :
    fitConfigCheckSig fit node outside fdtRegions tags =
      checkRegions fit node outside fdtRegions tags := by
  rcases hReaches.setup with ⟨algos, hSetup⟩
  have hFew := hReaches.few
  unfold fitConfigCheckSig
  rw [hSetup]
  rw [if_neg hReaches.value, if_neg hReaches.some, if_neg (by omega)]

variable {regions : Memory FdtRegion} {used : List Access}

variable {tags count : Nat}

theorem checkRegions_found (hFind : fdtFindRegions node.args fit outside fdtRegions tags =
      some (.ok (count, regions), used))
    (hSome : count ≠ 0) (hFew : count < 20 + node.count * 7 - 1) :
    checkRegions fit node outside fdtRegions tags =
      ((addStrings fit node (regions.slice 0 count)).1,
        node.fill.2 ++ used.map .search ++ (addStrings fit node (regions.slice 0 count)).2) := by
  unfold checkRegions
  dsimp only
  rw [hFind]
  dsimp only
  rw [if_neg hSome, if_neg (by omega)]

theorem args_pathLen (node : SigNode) : 1 ≤ node.args.pathLen :=
  (by decide : (1 : Int) ≤ 200)

/- The search stays in its arrays if the turns of its loop do. -/
theorem search_ok_iff
    (hRun : ∃ r, fdtFindRegions node.args fit outside fdtRegions tags = some (r, used)) :
    (∀ u ∈ used.map Use.search, u.Ok node) ↔
      ∀ a ∈ findUsed node.args fit tags (findStart outside fdtRegions), a.Ok node.args := by
  rcases hRun with ⟨r, hRun⟩
  rw [← fdtFindRegions_used_iff (args_pathLen node) hRun]
  exact forall_mem_map

/-
  Either regions are found, or nothing is verified; the names
  are filled in and the search goes as far as it does.
-/
theorem checkRegions_cases (tags : Nat) :
    (∃ last, (checkRegions fit node outside fdtRegions tags).2 = node.fill.2 ++ last ∧
      ((∀ u ∈ last, u.Ok node) ↔
        ∀ a ∈ findUsed node.args fit tags (findStart outside fdtRegions), a.Ok node.args) ∧
      ∀ regions, (checkRegions fit node outside fdtRegions tags).1 ≠ .verify regions) ∨
      ∃ count regions used,
        fdtFindRegions node.args fit outside fdtRegions tags = some (.ok (count, regions), used) ∧
        count ≠ 0 ∧ count < 20 + node.count * 7 - 1 := by
  unfold checkRegions
  dsimp only
  rcases hRun : fdtFindRegions node.args fit outside fdtRegions tags with
    _ | ⟨e | ⟨count, regions⟩, used⟩
  · exact Or.inl ⟨_, rfl, forall_mem_map, nofun⟩
  · exact Or.inl ⟨_, rfl, search_ok_iff ⟨_, hRun⟩, nofun⟩
  · dsimp only
    split_ifs with hNone hMany
    · exact Or.inl ⟨_, rfl, search_ok_iff ⟨_, hRun⟩, nofun⟩
    · exact Or.inl ⟨_, rfl, search_ok_iff ⟨_, hRun⟩, nofun⟩
    · exact Or.inr ⟨count, regions, used, rfl, hNone, by omega⟩

theorem addStrings_safe_iff {regions : List FdtRegion} :
    Outcome.Safe fit node (addStrings fit node regions) ↔
      (∀ r ∈ regions, InTree fit r) ∧ StringsInTree fit node := by
  unfold addStrings StringsInTree
  cases hStrings : node.hashedStrings with
  | none =>
    constructor
    · intro hSafe
      exact ⟨hSafe.regions regions rfl, nofun⟩
    · rintro ⟨hRegions, -⟩
      refine ⟨nofun, fun rs hVerify => ?_⟩
      cases hVerify
      exact hRegions
  | some strings =>
    have hOk : ∀ p, Use.Ok node (.stringsByte p) ↔ p < strings.length := by
      intro p
      unfold Use.Ok
      rw [hStrings]
      rfl
    constructor
    · intro hSafe
      have hRegions := hSafe.regions _ rfl
      have hLast := (hOk 7).mp (hSafe.uses _
        (mem_map.mpr ⟨7, mem_range.mpr (by decide), rfl⟩))
      refine ⟨fun r hr => hRegions r (mem_append_left _ hr), ?_⟩
      intro strings' hEq
      cases hEq
      exact ⟨hLast, hRegions _ (mem_append_right _ (mem_singleton.mpr rfl))⟩
    · rintro ⟨hRegions, hWhere⟩
      rcases hWhere strings rfl with ⟨hLength, hIn⟩
      refine ⟨fun u hu => ?_, fun rs hVerify r hr => ?_⟩
      · rcases mem_map.mp hu with ⟨p, hp, rfl⟩
        rw [mem_range] at hp
        exact (hOk p).mpr (by omega)
      · cases hVerify
        rcases mem_append.mp hr with hOld | hNew
        · exact hRegions r hOld
        · rw [mem_singleton.mp hNew]
          exact hIn

theorem mem_slice_iff {α : Type} {m : Memory α} {n : Nat} {P : α → Prop} :
    (∀ x ∈ m.slice 0 n, P x) ↔ ∀ i < n, P (m i) := by
  unfold Memory.slice
  rw [forall_mem_map]
  simp only [mem_range, Nat.zero_add]

theorem found_safe_iff (hFind : fdtFindRegions node.args fit outside fdtRegions tags =
      some (.ok (count, regions), used))
    (hFew : count < 20 + node.count * 7 - 1) :
    count ≠ 0 ∧ (Outcome.Safe fit node (addStrings fit node (regions.slice 0 count)) ↔
        NoErrorCode fit ∧ StringsInTree fit node) := by
  have hFound := fdtFindRegions_inTree rfl hFind (by
    unfold SigNode.args configFindArgs
    dsimp only
    omega)
  refine ⟨by omega, ?_⟩
  rw [addStrings_safe_iff, mem_slice_iff, hFound.2]

end

/-
  The call is safe exactly where, if it comes to the names,
  the property ends with a NUL, no node ends in the tree that
  has not begun, and, if regions are found, no error code is
  the size of the structure block and the strings are in the
  tree.
-/
theorem fit_config_check_sig_safe
    (fit : Blob) (node : SigNode) (outside : Int → Int) (fdtRegions : Memory FdtRegion) :
    SafelyChecked fit node outside fdtRegions ↔ (ReachesNames node →
        node.nodes.getLast? = some 0 ∧ Opened node.args fit ∧
          (FindsRegions fit node outside fdtRegions →
            NoErrorCode fit ∧ StringsInTree fit node)) := by
  have hOpened := @findUsed_ok_iff node.args fit (args_pathLen node) outside fdtRegions
  constructor
  · intro hSafe hReaches
    have hUses : ∀ tags, (∀ u ∈ node.fill.2, u.Ok node) ∧
        ∀ a ∈ findUsed node.args fit tags (findStart outside fdtRegions), a.Ok node.args := by
      intro tags
      have hAll := (hSafe tags).uses
      rw [fitConfigCheckSig_names tags hReaches] at hAll
      rcases @checkRegions_cases fit node outside fdtRegions tags with
        ⟨last, hEq, hIff, -⟩ | ⟨count, regions, used, hFind, hSome, hFew⟩
      · rw [hEq, forall_mem_append] at hAll
        exact ⟨hAll.1, hIff.mp hAll.2⟩
      · rw [checkRegions_found hFind hSome hFew, forall_mem_append, forall_mem_append] at hAll
        exact ⟨hAll.1.1, (search_ok_iff ⟨_, hFind⟩).mp hAll.1.2⟩
    refine ⟨(SigNode.fill_ok_iff hReaches.some).mp (hUses 0).1,
      hOpened.mp fun tags => (hUses tags).2, ?_⟩
    rintro ⟨tags, count, regions, used, hFind, hFew⟩
    rcases found_safe_iff hFind hFew with ⟨hSome, hIff⟩
    have hAll := hSafe tags
    rw [fitConfigCheckSig_names tags hReaches, checkRegions_found hFind hSome hFew] at hAll
    exact hIff.mp ⟨fun u hu => hAll.uses u (mem_append_right _ hu), hAll.regions⟩
  · intro hWhen tags
    by_cases hReaches : ReachesNames node
    · rcases hWhen hReaches with ⟨hLast, hWalk, hFound⟩
      have hFill := (SigNode.fill_ok_iff hReaches.some).mpr hLast
      have hSearch := hOpened.mpr hWalk tags
      rw [fitConfigCheckSig_names tags hReaches]
      rcases @checkRegions_cases fit node outside fdtRegions tags with
        ⟨last, hEq, hIff, hNot⟩ | ⟨count, regions, used, hFind, hSome, hFew⟩
      · refine ⟨?_, fun rs hVerify => absurd hVerify (hNot rs)⟩
        rw [hEq, forall_mem_append]
        exact ⟨hFill, hIff.mpr hSearch⟩
      · have hSafe := (found_safe_iff hFind hFew).2.mpr
          (hFound ⟨tags, count, regions, used, hFind, hFew⟩)
        rw [checkRegions_found hFind hSome hFew]
        refine ⟨?_, hSafe.regions⟩
        rw [forall_mem_append, forall_mem_append]
        exact ⟨⟨hFill, (search_ok_iff ⟨_, hFind⟩).mpr hSearch⟩, hSafe.uses⟩
    · rcases @fitConfigCheckSig_early fit node outside fdtRegions tags hReaches with ⟨msg, hEarly⟩
      rw [hEarly]
      exact ⟨nofun, nofun⟩

/- A signature by `sha1,rsa2048` with these properties. -/
def signatureOf (nodes : List UInt8)
    (strings : Option (List UInt8)) : SigNode where
  algo := some [0x73, 0x68, 0x61, 0x31, comma, 0x72, 0x73, 0x61, 0x32, 0x30, 0x34, 0x38]
  value := some []
  hashedNodes := some nodes
  beyondNodes := []
  hashedStrings := strings
  beyondStrings := []

/-
  In a tree that is only a root, the names `/` and `a` without
  a NUL at the end are filled into an array of one; with the
  name `/` alone, strings of 2 GB are given to the verifier.
-/
theorem fit_config_check_sig_unterminated :
    (¬ SafelyChecked (blobOf [1, 0, 2, 9] (by decide))
      (signatureOf [slash, 0, 0x61] none) (fun _ => 0)
      (fun _ => ⟨0, 0⟩)) ∧ ¬ SafelyChecked (blobOf [1, 0, 2, 9] (by decide))
        (signatureOf [slash, 0] (some [0, 0, 0, 0, 0x7f, 0xff, 0xff, 0xff]))
        (fun _ => 0) (fun _ => ⟨0, 0⟩) := by
  constructor
  · intro hSafe
    have hUse := (hSafe 0).uses (.nodeInc 1) (by decide)
    exact absurd hUse (by decide)
  · intro hSafe
    have hRegion := (hSafe 3).regions [⟨56, 16⟩, ⟨72, 0x7fffffff⟩] (by decide +kernel)
      ⟨72, 0x7fffffff⟩ (by decide)
    exact absurd hRegion (by decide)

end Uboot.Image
