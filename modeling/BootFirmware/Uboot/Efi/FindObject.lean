import BootFirmware.Uboot.Efi.DevicePath

/-
  The object that a device path names.

  A comparison stops where either path ends, so that an
  object behind the device is found as well, and what remains
  of the path is said to be behind its end.

  Key definitions include:
    * `efiDpMatch` and `efiDpFindObj`
    * `Comparable` and `searched`

  The main result is `device_path_lookup`.
-/

namespace Uboot.Efi.DevicePath

open List

----
-- The Code
----

/- `efi_dp_match`: whether the answer is 0. -/
def efiDpMatch : Nat → Ptr → Ptr → Option Bool
  | 0, _, _ => none
  | turns + 1, a, b => do
    let length ← dpLength a
    if length ≠ (← dpLength b) then some false
    else if (← memcpy a length) ≠ (← memcpy b length) then some false
    else
      match ← efiDpNext a, ← efiDpNext b with
      | some a, some b => efiDpMatch turns a b
      | _, _ => some true

def shortenPathLoop : Nat → Option Ptr → Option (Option Ptr)
  | _, none => some none
  | 0, some _ => none
  | turns + 1, some dp => do
    if (← efiDpType dp DEVICE_PATH_TYPE_MESSAGING_DEVICE DEVICE_PATH_SUB_TYPE_MSG_USB_CLASS) ||
        (← efiDpType dp DEVICE_PATH_TYPE_MEDIA_DEVICE DEVICE_PATH_SUB_TYPE_HARD_DRIVE_PATH) ||
        (← efiDpType dp DEVICE_PATH_TYPE_MEDIA_DEVICE DEVICE_PATH_SUB_TYPE_FILE_PATH) then
      some (some dp)
    else shortenPathLoop turns (← efiDpNext dp)

/- `shorten_path`. -/
def shortenPath (dp : Option Ptr) : Option (Option Ptr) :=
  shortenPathLoop ((dp.getD []).length + 1) dp

/-
  The tails of one object's path in `find_obj`: what goes to
  `*rem`, as an offset, when one of them matches.
-/
def findObjLoop
    (dp : Ptr) (dpSize : Nat) (shortPath rem : Bool) : Nat → Ptr → Option (Option (Option Nat))
  | 0, _ => none
  | turns + 1, objDp => do
    let hit ←
      if ← efiDpMatch (dp.length + 1) dp objDp then do
        let size ← efiDpSize (some objDp)
        if rem then some (some (some size))
        else if size = dpSize then some (some none)
        else some none
      else some none
    match hit with
    | some r => some (some r)
    | none =>
      let next ← shortenPath (← efiDpNext objDp)
      if shortPath then
        next.elim (some none) fun next => findObjLoop dp dpSize shortPath rem turns next
      else some none

/- `find_obj`; an object may have no device path. -/
def findObj (dp : Ptr) (dpSize : Nat) (shortPath rem : Bool) :
    List (Option Ptr) → Nat → Option (Option (Nat × Option Nat))
  | [], _ => some none
  | none :: objs, i => findObj dp dpSize shortPath rem objs (i + 1)
  | some objDp :: objs, i => do
    match ← findObjLoop dp dpSize shortPath rem (objDp.length + 1) objDp with
    | some r => some (some (i, r))
    | none => findObj dp dpSize shortPath rem objs (i + 1)

/- `efi_dp_find_obj`: the number of the object, and `*rem`. -/
def efiDpFindObj (objs : List (Option Ptr)) (dp : Ptr)
    (rem : Bool) : Option (Option (Nat × Option Nat)) := do
  let dpSize ← efiDpSize (some dp)
  match ← findObj dp dpSize false false objs 0 with
  | some found => some (some found)
  | none =>
    match ← findObj dp dpSize false rem objs 0 with
    | some found => some (some found)
    | none => findObj dp dpSize true rem objs 0

----
-- Matches
----

/- One path goes on where the other ends. -/
def Comparable (a b : List Node) : Prop :=
  (a = [] ↔ b = []) ∧ (a <+: b ∨ b <+: a)

instance (a b : List Node) : Decidable (Comparable a b) :=
  inferInstanceAs (Decidable (_ ∧ _))

theorem Node.bytes_inj {m n : Node} (hBytes : m.bytes = n.bytes) :
    m = n := by
  cases m
  cases n
  simp_all [Node.bytes, Words.toBytes]

section

variable {ns a b : List Node} {r s : List UInt8}

/- What is compared first: a node, or the end node. -/
def headBytes (ns : List Node) : List UInt8 :=
  (ns.head?.map Node.bytes).getD END

theorem headBytes_inj : headBytes a = headBytes b ↔ a.head? = b.head? := by
  cases a with
  | nil =>
    cases b with
    | nil => exact ⟨fun _ => rfl, fun _ => rfl⟩
    | cons n b => exact ⟨fun h => absurd (List.cons.inj h).1.symm n.hType, nofun⟩
  | cons m a =>
    cases b with
    | nil => exact ⟨fun h => absurd (List.cons.inj h).1 m.hType, nofun⟩
    | cons n b => exact ⟨fun h => congrArg some (Node.bytes_inj h), fun h => by cases h; rfl⟩

theorem pathBytes_head : ∃ t, pathBytes ns ++ r = headBytes ns ++ t := by
  cases ns with
  | nil => exact ⟨r, rfl⟩
  | cons n ns => exact ⟨_, pathBytes_cons⟩

theorem dpLength_eq : dpLength (pathBytes ns ++ r) = some (headBytes ns).length := by
  cases ns with
  | nil => rfl
  | cons n ns =>
    have hSize := length_nodeBytes [n]
    simp only [nodeBytes, total, flatMap_singleton, map_singleton, sum_singleton] at hSize
    rw [pathBytes_cons, dpLength_bytes]
    exact congrArg some hSize.symm

theorem memcpy_head : memcpy (pathBytes ns ++ r) (headBytes ns).length = some (headBytes ns) := by
  have hHead : ∃ t, pathBytes ns ++ r = _ := pathBytes_head
  rcases hHead with ⟨t, hHead⟩
  rw [hHead, memcpy, if_pos (by simp), take_left]

theorem efiDpNext_eq :
    efiDpNext (pathBytes ns ++ r) =
      some (if ns.tail = [] then none else some (pathBytes ns.tail ++ r)) := by
  cases ns with
  | nil => rfl
  | cons n ns => exact efiDpNext_cons

theorem comparable_iff :
    Comparable a b ↔
      a.head? = b.head? ∧ (a.tail = [] ∨ b.tail = [] ∨ Comparable a.tail b.tail) := by
  unfold Comparable
  cases a with
  | nil => cases b <;> simp
  | cons m a =>
    cases b with
    | nil => simp
    | cons n b =>
      simp only [cons_prefix_cons, head?_cons, tail_cons, Option.some.injEq, reduceCtorEq, true_and]
      by_cases hNode : m = n
      · subst hNode
        by_cases hA : a = []
        · simp [hA]
        by_cases hB : b = []
        · simp [hB]
        simp [hA, hB]
      · simp [hNode, Ne.symm hNode]

theorem efiDpMatch_eq {turns : Nat} (hTurns : a.length < turns) :
    efiDpMatch turns (pathBytes a ++ r) (pathBytes b ++ s) = some (decide (Comparable a b)) := by
  induction turns generalizing a b with
  | zero => cases hTurns
  | succ turns ih =>
    unfold efiDpMatch
    simp only [dpLength_eq, Option.bind_eq_bind, Option.bind_some, memcpy_head]
    by_cases hHead : headBytes a = headBytes b
    · rw [if_neg (by rw [hHead]; simp)]
      rw [hHead, memcpy_head, Option.bind_some, if_neg (by simp), efiDpNext_eq, efiDpNext_eq]
      have hStep : Comparable a b ↔ a.tail = [] ∨ b.tail = [] ∨ Comparable a.tail b.tail := by
        rw [comparable_iff]
        exact and_iff_right (headBytes_inj.mp hHead)
      by_cases hA : a.tail = []
      · simp [hA, hStep]
      by_cases hB : b.tail = []
      · simp [hA, hB, hStep]
      have hRest := ih (a := a.tail) (b := b.tail) (by
        cases a with
        | nil => exact absurd rfl hA
        | cons m a => exact Nat.lt_of_succ_lt_succ hTurns)
      simp [hA, hB, hRest, hStep]
    · have hNot : ¬ Comparable a b := fun h => hHead (headBytes_inj.mpr (comparable_iff.mp h).1)
      rw [decide_eq_false hNot]
      by_cases hLength : (headBytes a).length = (headBytes b).length
      · rw [if_neg (by simp [hLength]), hLength, memcpy_head, Option.bind_some, if_pos hHead]
      · rw [if_pos (by simpa using hLength)]

end

----
-- The Search
----

def Node.IsShort (n : Node) : Prop :=
  n.Is DEVICE_PATH_TYPE_MESSAGING_DEVICE DEVICE_PATH_SUB_TYPE_MSG_USB_CLASS ∨
    n.Is DEVICE_PATH_TYPE_MEDIA_DEVICE DEVICE_PATH_SUB_TYPE_HARD_DRIVE_PATH ∨ n.IsFilePath

instance (n : Node) : Decidable n.IsShort :=
  inferInstanceAs (Decidable (_ ∨ _ ∨ _))

/- The tails of a path that start at a short node. -/
def shortTails : List Node → List (List Node)
  | [] => []
  | n :: ns => if n.IsShort then (n :: ns) :: shortTails ns else shortTails ns

/- What is compared with for one object, in order. -/
def candidates (shortPath : Bool)
    (ns : List Node) : List (List Node) :=
  ns :: if shortPath then shortTails ns.tail else []

def numbered (shortPath : Bool) : List (Option (List Node)) → Nat → List (Nat × List Node)
  | [], _ => []
  | none :: objs, i => numbered shortPath objs (i + 1)
  | some ns :: objs, i =>
    (candidates shortPath ns).map (Prod.mk i) ++ numbered shortPath objs (i + 1)

/- The answer of `efi_dp_size`. -/
def size (ns : List Node) : Nat :=
  if ns = [] then END.length else total ns

def hit (dp : List Node) (rem : Bool)
    (x : Nat × List Node) : Option (Nat × Option Nat) :=
  if Comparable dp x.2 then
    if rem then some (x.1, some (size x.2))
    else if size x.2 = size dp then some (x.1, none)
    else none
  else none

section

variable {ns c dp : List Node} {cs : List (List Node)} {objs : List (Option (List Node))}
  {i : Nat} {shortPath rem : Bool}

theorem efiDpSize_path : efiDpSize (some (pathBytes ns)) = some (size ns) := by
  have hSize : efiDpSize (some (pathBytes ns ++ [])) = _ := efiDpSize_eq
  rwa [append_nil] at hSize

theorem length_lt_pathBytes : ns.length < (pathBytes ns).length + 1 := by
  have hLe := length_le_total ns
  unfold pathBytes
  rw [length_append, length_nodeBytes]
  omega

theorem efiDpMatch_path :
    efiDpMatch ((pathBytes dp).length + 1) (pathBytes dp) (pathBytes c) =
      some (decide (Comparable dp c)) := by
  simpa using efiDpMatch_eq (r := []) (s := []) length_lt_pathBytes

theorem shortenPathLoop_eq {turns : Nat} (hTurns : ns.length < turns) :
    shortenPathLoop turns (if ns = [] then none else some (pathBytes ns)) =
      some ((shortTails ns).head?.map pathBytes) := by
  induction ns generalizing turns with
  | nil => cases turns <;> rfl
  | cons n ns ih =>
    cases turns with
    | zero => cases hTurns
    | succ turns =>
      have hNext : efiDpNext (pathBytes (n :: ns) ++ []) = _ := efiDpNext_cons
      have hType : ∀ t u, efiDpType (pathBytes (n :: ns) ++ []) t u = _ := efiDpType_cons
      simp only [append_nil] at hNext hType
      rw [if_neg (cons_ne_nil n ns), shortenPathLoop, hType, hType, hType, hNext]
      simp only [Option.bind_eq_bind, Option.bind_some]
      by_cases hShort : n.IsShort
      · rw [if_pos (by simpa [Node.IsShort, or_assoc] using hShort), shortTails, if_pos hShort]
        rfl
      · rw [if_neg (by simpa [Node.IsShort, or_assoc] using hShort), shortTails, if_neg hShort]
        exact ih (Nat.lt_of_succ_lt_succ hTurns)

theorem shortenPath_eq :
    shortenPath (if ns = [] then none else some (pathBytes ns)) =
      some ((shortTails ns).head?.map pathBytes) := by
  refine shortenPathLoop_eq ?_
  cases ns with
  | nil => exact Nat.one_pos
  | cons n ns => exact length_lt_pathBytes

theorem nil_notMem_shortTails (ns : List Node) :
    [] ∉ shortTails ns := by
  induction ns with
  | nil => exact not_mem_nil
  | cons n ns ih =>
    unfold shortTails
    split
    · exact fun h => ih (mem_of_ne_of_mem (cons_ne_nil n ns).symm h)
    · exact ih

/- The tails behind the first are those of the first. -/
theorem shortTails_cons (hTails : shortTails ns = c :: cs) :
    cs = shortTails c.tail ∧ c.length ≤ ns.length := by
  induction ns with
  | nil => cases hTails
  | cons n ns ih =>
    unfold shortTails at hTails
    split at hTails
    · cases hTails
      exact ⟨rfl, Nat.le_refl _⟩
    · have hRest := ih hTails
      exact ⟨hRest.1, Nat.le_succ_of_le hRest.2⟩

theorem findObjLoop_eq {turns : Nat} (hTurns : ns.length < turns) :
    (findObjLoop (pathBytes dp) (size dp) shortPath rem turns (pathBytes ns)).map
        (Option.map (Prod.mk i)) =
      some ((candidates shortPath ns).findSome? fun c => hit dp rem (i, c)) := by
  induction turns generalizing ns with
  | zero => cases hTurns
  | succ turns ih =>
    have hNext : efiDpNext (pathBytes ns ++ []) = _ := efiDpNext_eq
    simp only [append_nil] at hNext
    unfold findObjLoop candidates
    rw [efiDpMatch_path, efiDpSize_path, hNext, findSome?_cons]
    simp only [Option.bind_eq_bind, Option.bind_some, shortenPath_eq]
    -- what comes behind this candidate
    have hBehind :
        (if shortPath then
          ((shortTails ns.tail).head?.map pathBytes).elim (some none) fun next =>
            findObjLoop (pathBytes dp) (size dp) shortPath rem turns next
        else some none).map (Option.map (Prod.mk i)) =
          some ((if shortPath then shortTails ns.tail else []).findSome?
            fun c => hit dp rem (i, c)) := by
      cases shortPath with
      | false => rfl
      | true =>
        cases hTails : shortTails ns.tail with
        | nil => rfl
        | cons c cs =>
          rcases shortTails_cons hTails with ⟨rfl, hLe⟩
          refine ih ?_
          cases ns with
          | nil => cases hTails
          | cons n ns => exact Nat.lt_of_le_of_lt hLe (Nat.lt_of_succ_lt_succ hTurns)
    by_cases hMatch : Comparable dp ns
    · cases rem with
      | true => simp [hit, hMatch]
      | false =>
        by_cases hSize : size ns = size dp
        · simp [hit, hMatch, hSize]
        · simpa [hit, hMatch, hSize] using hBehind
    · simpa [hit, hMatch] using hBehind

theorem findObj_eq :
    findObj (pathBytes dp) (size dp) shortPath rem (objs.map (Option.map pathBytes)) i =
      some ((numbered shortPath objs i).findSome? (hit dp rem)) := by
  induction objs generalizing i with
  | nil => rfl
  | cons obj objs ih =>
    cases obj with
    | none => exact ih
    | some ns =>
      have hHere : (findObjLoop (pathBytes dp) (size dp) shortPath rem
          ((pathBytes ns).length + 1) (pathBytes ns)).map (Option.map (Prod.mk i)) = _ :=
        findObjLoop_eq length_lt_pathBytes
      rcases Option.map_eq_some_iff.mp hHere with ⟨found, hLoop, hFound⟩
      rw [numbered, findSome?_append, findSome?_map]
      change _ = some (Option.or (findSome? (fun c => hit dp rem (i, c)) _) _)
      rw [← hFound, map_cons, Option.map_some, findObj, hLoop]
      cases found with
      | none => exact ih
      | some r => rfl

theorem efiDpFindObj_eq :
    efiDpFindObj (objs.map (Option.map pathBytes)) (pathBytes dp) rem =
      some (((numbered false objs 0).findSome? (hit dp false)).or
        ((numbered false objs 0 ++ numbered true objs 0).findSome? (hit dp rem))) := by
  unfold efiDpFindObj
  rw [efiDpSize_path]
  simp only [Option.bind_eq_bind, Option.bind_some, findObj_eq, findSome?_append]
  cases (numbered false objs 0).findSome? (hit dp false) with
  | some found => rfl
  | none => cases (numbered false objs 0).findSome? (hit dp rem) <;> rfl

end

----
-- Lookups
----

/- The paths and tails in the order they are compared. -/
def searched (objs : List (Option (List Node))) : List (List Node) :=
  (numbered false objs 0 ++ numbered true objs 0).map Prod.snd

/- Some path goes on behind `dp`. -/
def Extends (dp c : List Node) : Prop :=
  dp ≠ [] ∧ dp <+: c ∧ c ≠ dp

/- What a lookup is to answer, without a read behind an end node. -/
structure Lookup
    (objs : List (Option (List Node))) (dp : List Node) (rem : Bool)
    (found : Option (Nat × Option Nat)) : Prop where
  run : efiDpFindObj (objs.map (Option.map pathBytes)) (pathBytes dp) rem = some found
  exact : ∀ i, objs[i]? = some (some dp) →
    (∀ j, j < i → objs[j]? ≠ some (some dp)) → found = some (i, none)
  part : some dp ∉ objs → ∀ i r, found = some (i, r) →
    ∃ ns q, objs[i]? = some (some ns) ∧ q ∈ candidates true ns ∧ q <+: dp ∧
      r = if rem then some (total q) else none

section

variable {ns c dp : List Node} {objs : List (Option (List Node))} {i : Nat} {rem : Bool}

theorem total_lt_of_extends (hBehind : Extends dp c) :
    total dp < total c := by
  rcases hBehind with ⟨-, ⟨t, rfl⟩, hNe⟩
  have hSome := length_le_total t
  cases t with
  | nil => exact absurd (append_nil dp) hNe
  | cons n t =>
    simp only [total, map_append, sum_append] at hSome ⊢
    rw [length_cons] at hSome
    omega

theorem comparable_cases (hNot : ¬ (dp = [] ∧ c = [])) :
    Comparable dp c ↔ (c ≠ [] ∧ c <+: dp) ∨ Extends dp c := by
  unfold Comparable Extends
  by_cases hDp : dp = []
  · subst hDp
    have hC : c ≠ [] := fun h => hNot ⟨rfl, h⟩
    simp [hC]
  by_cases hC : c = []
  · simp [hDp, hC]
  by_cases hEq : c = dp
  · simp [hEq, hDp]
  · simp [hDp, hC, hEq, or_comm]

theorem mem_numbered
    {shortPath : Bool} {x : Nat × List Node} (hMem : x ∈ numbered shortPath objs i) :
    ∃ k ns, x.1 = i + k ∧ objs[k]? = some (some ns) ∧ x.2 ∈ candidates shortPath ns := by
  induction objs generalizing i with
  | nil => cases hMem
  | cons obj objs ih =>
    have hLater : x ∈ numbered shortPath objs (i + 1) →
        ∃ k ns, x.1 = i + k ∧ (obj :: objs)[k]? = some (some ns) ∧
          x.2 ∈ candidates shortPath ns := by
      intro hRest
      rcases ih hRest with ⟨k, ns, hIndex, hObj, hTail⟩
      exact ⟨k + 1, ns, by omega, hObj, hTail⟩
    cases obj with
    | none => exact hLater hMem
    | some ns =>
      rcases mem_append.mp hMem with hHere | hRest
      · rcases mem_map.mp hHere with ⟨c, hTail, rfl⟩
        exact ⟨0, ns, rfl, rfl, hTail⟩
      · exact hLater hRest

/- Sizes tell apart the paths that match. -/
theorem hit_false : hit dp false (i, c) = if c = dp then some (i, none) else none := by
  have hExact : Comparable dp c ∧ size c = size dp ↔ c = dp := by
    refine ⟨fun ⟨hMatch, hSize⟩ => ?_, ?_⟩
    · by_contra hNe
      by_cases hDp : dp = []
      · exact hNe ((hMatch.1.mp hDp).trans hDp.symm)
      have hC : c ≠ [] := hMatch.1.not.mp hDp
      rw [size, size, if_neg hDp, if_neg hC] at hSize
      rcases hMatch.2 with hPrefix | hPrefix
      · have hLt := total_lt_of_extends ⟨hDp, hPrefix, hNe⟩
        omega
      · have hLt := total_lt_of_extends ⟨hC, hPrefix, Ne.symm hNe⟩
        omega
    · rintro rfl
      exact ⟨⟨Iff.rfl, Or.inl (prefix_refl c)⟩, rfl⟩
  unfold hit
  rw [if_neg Bool.false_ne_true, ← ite_and]
  exact if_congr hExact rfl rfl

theorem findSome_exact {k : Nat}
    (hHere : objs[k]? = some (some dp)) (hFirst : ∀ j, j < k → objs[j]? ≠ some (some dp)) :
    (numbered false objs i).findSome? (hit dp false) = some (i + k, none) := by
  induction objs generalizing i k with
  | nil => cases hHere
  | cons obj objs ih =>
    cases k with
    | zero =>
      cases hHere
      rw [numbered, findSome?_append]
      simp [candidates, hit_false]
    | succ k =>
      have hRest := ih (i := i + 1) hHere fun j hj => hFirst (j + 1) (by omega)
      rw [show i + 1 + k = i + (k + 1) by omega] at hRest
      cases obj with
      | none => exact hRest
      | some ns =>
        have hNe : ns ≠ dp := fun h => hFirst 0 (by omega) (by rw [h]; rfl)
        rw [numbered, findSome?_append, hRest]
        simp [candidates, hit_false, hNe]

/- The first path or tail that matches decides. -/
theorem first_comparable {good : Nat → Option Nat → Prop} {l : List (Nat × List Node)}
    (hNot : ∀ x ∈ l, ¬ (dp = [] ∧ x.2 = []))
    (hGood : ∀ x ∈ l, x.2 <+: dp → good x.1 (some (total x.2)))
    (hBad : ∀ x ∈ l, Extends dp x.2 → ¬ good x.1 (some (total x.2))) :
    (∀ i r, l.findSome? (hit dp true) = some (i, r) → good i r) ↔
      ∀ c ∈ (l.map Prod.snd).takeWhile (fun c => decide ¬ (c ≠ [] ∧ c <+: dp)), ¬ Extends dp c := by
  induction l with
  | nil => exact ⟨fun _ => nofun, fun _ => nofun⟩
  | cons x l ih =>
    have hRest := ih (fun y hy => hNot y (mem_cons_of_mem _ hy))
      (fun y hy => hGood y (mem_cons_of_mem _ hy))
      (fun y hy => hBad y (mem_cons_of_mem _ hy))
    have hCases := comparable_cases (hNot x mem_cons_self)
    have hHit : x.2 ≠ [] → Comparable dp x.2 →
        (x :: l).findSome? (hit dp true) = some (x.1, some (total x.2)) := by
      intro hNe hMatch
      simp [hit, hMatch, size, hNe]
    rw [map_cons]
    by_cases hPrefix : x.2 ≠ [] ∧ x.2 <+: dp
    · rw [takeWhile_cons, if_neg (by simpa using hPrefix),
        hHit hPrefix.1 (hCases.mpr (Or.inl hPrefix))]
      refine ⟨fun _ => nofun, ?_⟩
      rintro - i r hFound
      cases hFound
      exact hGood x mem_cons_self hPrefix.2
    rw [takeWhile_cons, if_pos (decide_eq_true hPrefix), forall_mem_cons]
    by_cases hExtends : Extends dp x.2
    · have hNe : x.2 ≠ [] := by
        intro h
        rw [h] at hExtends
        exact hExtends.1 (prefix_nil.mp hExtends.2.1)
      rw [hHit hNe (hCases.mpr (Or.inr hExtends))]
      exact ⟨fun h => absurd (h _ _ rfl) (hBad x mem_cons_self hExtends),
        fun h => absurd hExtends h.1⟩
    · have hNo : ¬ Comparable dp x.2 := fun h => (hCases.mp h).elim hPrefix hExtends
      have hSkip : hit dp true x = none := if_neg hNo
      rw [findSome?_cons, hSkip, hRest]
      exact (and_iff_right hExtends).symm

end

theorem device_path_lookup (objs : List (Option (List Node))) (dp : List Node) (rem : Bool) :
    ((∃ found, Lookup objs dp rem found) ∧ ∀ a b : List Node, ∃ r,
        efiDpMatch ((pathBytes a).length + 1) (pathBytes a) (pathBytes b) = some r) ↔
      rem = false ∨ some dp ∈ objs ∨
        ∀ c ∈ (searched objs).takeWhile (fun c => decide ¬ (c ≠ [] ∧ c <+: dp)),
          ¬ Extends dp c := by
  rw [and_iff_left fun a b => ⟨_, efiDpMatch_path⟩]
  have hRun : efiDpFindObj (objs.map (Option.map pathBytes)) (pathBytes dp) rem = _ :=
    efiDpFindObj_eq
  by_cases hExact : some dp ∈ objs
  · refine iff_of_true ⟨_, hRun, fun i hHere hFirst => ?_, fun h => absurd hExact h⟩
      (Or.inr (Or.inl hExact))
    rw [findSome_exact hHere hFirst, Nat.zero_add]
    rfl
  have hWhole : ∀ x ∈ numbered false objs 0, x.2 ≠ dp := by
    rintro x hx rfl
    rcases mem_numbered hx with ⟨k, ns, -, hObj, hTail⟩
    rw [mem_singleton.mp hTail] at hExact
    exact hExact (mem_of_getElem? hObj)
  have hNone : (numbered false objs 0).findSome? (hit dp false) = none :=
    findSome?_eq_none_iff.mpr fun x hx => hit_false.trans (if_neg (hWhole x hx))
  rw [hNone, Option.none_or] at hRun
  have hMem : ∀ x ∈ numbered false objs 0 ++ numbered true objs 0,
      ∃ ns, objs[x.1]? = some (some ns) ∧ x.2 ∈ candidates true ns := by
    intro x hx
    rcases mem_append.mp hx with hx | hx
    · rcases mem_numbered hx with ⟨k, ns, hIndex, hObj, hTail⟩
      rw [hIndex, Nat.zero_add]
      exact ⟨ns, hObj, mem_cons.mpr (Or.inl (mem_singleton.mp hTail))⟩
    · rcases mem_numbered hx with ⟨k, ns, hIndex, hObj, hTail⟩
      rw [hIndex, Nat.zero_add]
      exact ⟨ns, hObj, hTail⟩
  have hLookup : (∃ found, Lookup objs dp rem found) ↔
      ∀ i r, (numbered false objs 0 ++ numbered true objs 0).findSome? (hit dp rem) = some (i, r) →
        ∃ ns q, objs[i]? = some (some ns) ∧ q ∈ candidates true ns ∧ q <+: dp ∧
          r = if rem then some (total q) else none := by
    constructor
    · rintro ⟨found, hFound⟩ i r hResult
      rw [hResult] at hRun
      exact hFound.part hExact i r (Option.some.inj (hFound.run.symm.trans hRun))
    · intro hPart
      exact ⟨_, hRun, fun i hHere => absurd (mem_of_getElem? hHere) hExact,
        fun _ i r hFound => hPart i r hFound⟩
  rw [hLookup, or_iff_right hExact]
  cases rem with
  | false =>
    refine iff_of_true (fun i r hResult => ?_) (Or.inl rfl)
    rcases exists_of_findSome?_eq_some hResult with ⟨x, hx, hHit⟩
    rw [hit_false] at hHit
    split at hHit
    · rename_i hEq
      cases hHit
      rcases hMem x hx with ⟨ns, hObj, hTail⟩
      exact ⟨ns, x.2, hObj, hTail, hEq ▸ prefix_refl _, rfl⟩
    · cases hHit
  | true =>
    rw [or_iff_right (by decide)]
    refine first_comparable ?_ ?_ ?_
    · rintro x hx ⟨rfl, hNil⟩
      rcases hMem x hx with ⟨ns, hObj, hTail⟩
      rw [hNil] at hTail
      rcases mem_cons.mp hTail with rfl | hTail
      · exact hExact (mem_of_getElem? hObj)
      · exact nil_notMem_shortTails _ hTail
    · intro x hx hPrefix
      rcases hMem x hx with ⟨ns, hObj, hTail⟩
      exact ⟨ns, x.2, hObj, hTail, hPrefix, rfl⟩
    · rintro x - hExtends ⟨ns, q, -, -, hPrefix, hSize⟩
      have hLt := total_lt_of_extends hExtends
      have hLe : total q ≤ total dp := by
        rcases hPrefix with ⟨t, rfl⟩
        simp [total]
      have hEq := Option.some.inj hSize
      omega

/- A file on the device is found, and the rest is behind `dp`. -/
theorem device_path_lookup_extended :
    let disk : Node := ⟨1, 1, [], by decide, by decide⟩
    let file : Node := ⟨4, 4, [], by decide, by decide⟩
    efiDpFindObj [some (pathBytes [disk, file])] (pathBytes [disk]) true = some (some (0, some 8)) ∧
    ¬ ∃ found, Lookup [some [disk, file]] [disk] true found := by
  intro disk file
  have hRun : efiDpFindObj [some (pathBytes [disk, file])] (pathBytes [disk]) true =
      some (some (0, some 8)) := by decide
  refine ⟨hRun, fun ⟨found, hFound⟩ => ?_⟩
  have hResult : found = some (0, some 8) := Option.some.inj (hFound.run.symm.trans hRun)
  rcases hFound.part (by decide) 0 (some 8) hResult with ⟨ns, q, -, -, ⟨t, hPrefix⟩, hSize⟩
  have hTotal := congrArg total hPrefix
  have hLength := Option.some.inj hSize
  simp [total, Node.length, disk] at hTotal hLength
  omega

end Uboot.Efi.DevicePath
