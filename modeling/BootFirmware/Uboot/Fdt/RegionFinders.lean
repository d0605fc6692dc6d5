import BootFirmware.Uboot.Fdt.NextRegion

/-
  The two finders of regions, and when they agree.

  The one that finds a region at a time loses a name of its
  path with each end of a node that it visits twice.  What
  follows is then looked for under another path.

  Key definitions include:
    * `SelectsAlike`

  The main results are:
    * `selectsAlike_iff`
    * `seenPieces_eq_of_regions`
    * `region_finders_agree`
    * `region_finders_differ`
-/

----
-- Selecting Alike
----

namespace Uboot.Fdt

open List RegionRuns

/-
  Each tag is selected by the path that has lost names as it
  is by the path of its node.  The end of a node takes off a
  name more where it is not selected, ends a run of tags that
  are, and that run is apart from a region before it.
-/
def SelectsAlike (req : Request) : Seen → List Str → List Piece → List Tag → Prop
  | _, _, _, [] => True
  | seen, nodes, before, tag :: rest =>
    let isSelected := selected req.inc req.excProp nodes tag
    let p := pieceOf isSelected tag
    let isRetried := retried req.offDtStruct before p
    seen.selects req.inc req.excProp tag = isSelected ∧
      SelectsAlike req (seen.next req.inc isRetried tag) (openAfter nodes tag) (before ++ [p]) rest

instance decidableSelectsAlike (req : Request) :
    (seen : Seen) → (nodes : List Str) → (before : List Piece) → (rest : List Tag) →
        Decidable (SelectsAlike req seen nodes before rest)
  | _, _, _, [] => inferInstanceAs (Decidable True)
  | seen, nodes, before, tag :: rest =>
    let p := pieceOf (selected req.inc req.excProp nodes tag) tag
    have := decidableSelectsAlike req (seen.next req.inc (retried req.offDtStruct before p) tag)
      (openAfter nodes tag) (before ++ [p]) rest
    inferInstanceAs (Decidable (_ ∧ _))

section Alike

variable {req : Request} {seen : Seen} {nodes : List Str} {before : List Piece} {rest : List Tag}

theorem pieceOf_inj {isChosen isChosen' : Bool} {tag : Tag} :
    pieceOf isChosen tag = pieceOf isChosen' tag ↔ isChosen = isChosen' := by
  constructor
  · exact fun hEq => congrArg Piece.chosen hEq
  · exact fun hEq => congrArg (pieceOf · tag) hEq

theorem selectsAlike_iff :
    SelectsAlike req seen nodes before rest ↔
      seenPieces req seen before rest = piecesOf req.inc req.excProp nodes rest := by
  induction rest generalizing seen nodes before with
  | nil => exact ⟨fun _ => rfl, fun _ => trivial⟩
  | cons tag rest ih =>
    rw [SelectsAlike, seenPieces, piecesOf, cons_eq_cons, pieceOf_inj]
    refine and_congr_right fun hHead => ?_
    rw [ih, hHead]

----
-- From The Regions To The Tags
----

/- A node or its parent is on the list, as it was seen. -/
def eitherOf : List Bool → List Bool
  | [] => []
  | bit :: bits => (bit || bits.headD false) :: eitherOf bits

/- The nodes that are open and on the list. -/
def wantedBits (inc : List Str) : List Str → List Bool
  | [] => []
  | name :: nodes => wanted inc (name :: nodes) :: wantedBits inc nodes

theorem wantedBits_head (inc nodes : List Str) :
    (wantedBits inc nodes).headD false = wanted inc nodes := by
  cases nodes <;> rfl

theorem eitherOf_head (bits : List Bool) :
    (eitherOf bits).headD false = (bits.headD false || bits.tail.headD false) := by
  cases bits <;> rfl

theorem eitherOf_tail (bits : List Bool) :
    eitherOf bits.tail = (eitherOf bits).tail := by
  cases bits <;> rfl

theorem wantedBits_tail (inc nodes : List Str) :
    wantedBits inc nodes.tail = (wantedBits inc nodes).tail := by
  cases nodes <;> rfl

/- A tag that begins or ends no node is in a region alike. -/
theorem chosen_eq_of_regions
    {base : Nat} {p q : Piece} {after after' : List Piece} (hSized : Sized (before ++ p :: after))
    (hSized' : Sized (before ++ q :: after')) (hTail : p.tail = false)
    (hTail' : q.tail = false) (hSize : p.size = q.size)
    (hRegions :
      (runs base (before ++ p :: after)).regions = (runs base (before ++ q :: after')).regions) :
    p.chosen = q.chosen := by
  have hPos : 0 < p.size := hSized p (by simp)
  have hIn : Inside base before p (base + sizes before) :=
    ⟨Nat.le_refl _, Nat.lt_add_of_pos_right hPos⟩
  have hIn' : Inside base before q (base + sizes before) :=
    ⟨Nat.le_refl _, Nat.lt_add_of_pos_right (hSize ▸ hPos)⟩
  have hFirst := inRegions_regions hSized hIn
  have hSecond := inRegions_regions hSized' hIn'
  rw [hRegions] at hFirst
  have hCovered := hFirst.symm.trans hSecond
  unfold Covered at hCovered
  rw [hTail, hTail'] at hCovered
  simpa using hCovered

theorem sized_seenPieces (req : Request) (seen : Seen) (before : List Piece) (rest : List Tag) :
    Sized (seenPieces req seen before rest) := by
  induction rest generalizing seen before with
  | nil => nofun
  | cons tag rest ih =>
    intro p hp
    rcases mem_cons.mp hp with rfl | hp
    · exact tag.size_pos
    · exact ih _ _ p hp

theorem eitherOf_next {tag : Tag}
    (isRetried : Bool) (hEither : eitherOf seen.bits = eitherOf (wantedBits req.inc nodes))
    (hAlike : seen.selects req.inc req.excProp tag = selected req.inc req.excProp nodes tag) :
    eitherOf (seen.next req.inc isRetried tag).bits =
      eitherOf (wantedBits req.inc (openAfter nodes tag)) := by
  cases tag with
  | beginNode name =>
    have hNew : (seen.finds req.inc name || seen.bits.headD false) =
        (wanted req.inc (name :: nodes) || (wantedBits req.inc nodes).headD false) := by
      rw [wantedBits_head]
      exact hAlike
    exact congrArg₂ List.cons hNew hEither
  | endNode =>
    simp only [Seen.next, openAfter]
    rw [eitherOf_tail, hEither, ← eitherOf_tail, wantedBits_tail]
  | prop name value => exact hEither
  | nop => exact hEither
  | fin => exact hEither

/-
  Where the regions are the same the tags are selected alike,
  by induction on the tags.  The end of a node is selected as
  its beginning is, which is what `eitherOf` keeps.
-/
theorem seenPieces_eq_of_regions {base : Nat}
    (hBefore : Sized before) (hEither : eitherOf seen.bits = eitherOf (wantedBits req.inc nodes))
    (hRegions :
      (runs base (before ++ seenPieces req seen before rest)).regions =
      (runs base (before ++ piecesOf req.inc req.excProp nodes rest)).regions) :
    seenPieces req seen before rest = piecesOf req.inc req.excProp nodes rest := by
  induction rest generalizing seen nodes before with
  | nil => rfl
  | cons tag rest ih =>
    have hSized : Sized (before ++ seenPieces req seen before (tag :: rest)) :=
      forall_mem_append.mpr ⟨hBefore, sized_seenPieces req seen before _⟩
    have hSized' : Sized (before ++ piecesOf req.inc req.excProp nodes (tag :: rest)) :=
      forall_mem_append.mpr ⟨hBefore, sized_piecesOf _ _ nodes _⟩
    rw [seenPieces] at hSized hRegions ⊢
    rw [piecesOf] at hSized' hRegions ⊢
    have hAlike : seen.selects req.inc req.excProp tag =
        selected req.inc req.excProp nodes tag := by
      by_cases hEnd : tag = .endNode
      · subst hEnd
        have hHead := congrArg (·.headD false) hEither
        simp only [eitherOf_head, ← wantedBits_tail, wantedBits_head] at hHead
        exact hHead
      · have hTail : ∀ b, (pieceOf b tag).tail = false :=
          fun _ => decide_eq_false hEnd
        exact chosen_eq_of_regions hSized hSized' (hTail _) (hTail _) rfl hRegions
    rw [hAlike] at hRegions ⊢
    have hNext := eitherOf_next
      (retried req.offDtStruct before
        (pieceOf (selected req.inc req.excProp nodes tag) tag)) hEither hAlike
    refine congrArg₂ List.cons rfl (ih ?_ hNext ?_)
    · refine forall_mem_append.mpr ⟨hBefore, ?_⟩
      intro p hp
      rw [mem_singleton.mp hp]
      exact tag.size_pos
    · rw [← append_cons, ← append_cons]
      exact hRegions

end Alike

----
-- The Two Finders
----

/- What the other finder has checked on its way. -/
theorem fdtFindRegions_size
    {req : Request} {block : List Tag} {region found : Memory Region} {count : Nat}
    (hNested : Nested [] block) (hFound : fdtFindRegions req region block = .ok (count, found)) :
    req.sizeDtStruct = blockSize block ∧ Fits req.pathLen [] block := by
  unfold fdtFindRegions at hFound
  rcases findLoop_followed (findStart_followed req region) hNested with
    ⟨hError, -⟩ | ⟨s, hLoop, hFollowed, -⟩
  · rw [hError] at hFound
    exact absurd hFound nofun
  · refine ⟨?_, findLoop_fits hNested hLoop⟩
    rw [nil_append] at hFollowed
    rw [hLoop] at hFound
    simp only [Except.bind] at hFound
    by_cases hBad : s.nextoffset ≠ req.sizeDtStruct
    · rw [if_pos hBad] at hFound
      exact absurd hFound nofun
    · rw [← not_ne_iff.mp hBad]
      exact hFollowed.hCursor.hOffset

/-
  The finders agree exactly where the lost names make no
  difference.
-/
theorem region_finders_agree (req : Request) (block : List Tag) (hNested : Nested [] block)
    (hStrings : req.addStringTab = false) (region found : Memory Region) (count : Nat)
    (hFound : fdtFindRegions req region block = .ok (count, found))
    (hRoom : count ≤ req.maxRegions) :
    nextRegionList req.config block = some (found.slice 0 count) ↔
      SelectsAlike req firstSeen [] [] block := by
  rcases fdtFindRegions_size hNested hFound with ⟨hSize, hFits⟩
  have hNone : req.stringBytes = 0 := by
    unfold Request.stringBytes
    rw [hStrings]
    rfl
  rw [nextRegionList_eq hNested hSize hFits, fdtFindRegions_runs hNested hFound hRoom, hNone,
    addStrings_zero, selectsAlike_iff, Option.some_inj]
  constructor
  · intro hRegions
    exact seenPieces_eq_of_regions nofun rfl hRegions
  · intro hPieces
    rw [hPieces]

----
-- A Sibling
----

/- The nodes `/x`, `/r/a/b` and `/r/s`. -/
def siblingBlock : List Tag :=
  [.beginNode [], .beginNode [0x78], .endNode,
    .beginNode [0x72], .beginNode [0x61], .beginNode [0x62],
    .endNode, .endNode, .beginNode [0x73], .endNode, .endNode, .endNode, .fin]

/- The first two of them are on the list. -/
def twoRequest : Request where
  inc := [[0x2f, 0x78], [0x2f, 0x72, 0x2f, 0x61, 0x2f, 0x62]]
  excProp := []
  maxRegions := 8
  pathLen := 100
  addStringTab := false
  offDtStruct := 0x38
  sizeDtStruct := 76
  sizeDtStrings := 0

/- All three are. -/
def threeRequest : Request :=
  { twoRequest with
    inc := [0x2f, 0x72, 0x2f, 0x73] :: twoRequest.inc }

/- Without the sibling the lost name makes no difference. -/
theorem region_finders_agree_two :
    nextRegionList twoRequest.config siblingBlock = findRegionList twoRequest siblingBlock := by
  cases hFound : fdtFindRegions twoRequest (fun _ => ⟨0, 0⟩) siblingBlock with
  | error e =>
    have hSome : (findRegionList twoRequest siblingBlock).isSome = true := by decide
    unfold findRegionList at hSome
    rw [hFound] at hSome
    exact absurd hSome Bool.false_ne_true
  | ok result =>
    have hCount :
        (fdtFindRegions twoRequest (fun _ => ⟨0, 0⟩)
          siblingBlock).toOption.map (fun r => r.1) = some 3 := by decide
    rw [hFound] at hCount
    have hThree : result.1 = 3 := Option.some.inj hCount
    have hAgree := (region_finders_agree twoRequest
      siblingBlock (by decide) rfl (fun _ => ⟨0, 0⟩) result.2
      result.1 hFound (by rw [hThree]; decide)).mpr
      (by decide)
    rw [hAgree]
    unfold findRegionList
    rw [hFound]
    rfl

/-
  The end of `/r/a` is visited twice, and `/r/s` is then
  looked for as `/s`.
-/
theorem region_finders_differ :
    Nested [] siblingBlock ∧
      findRegionList threeRequest siblingBlock = some [⟨64, 12⟩, ⟨92, 32⟩, ⟨128, 4⟩] ∧
      nextRegionList threeRequest.config siblingBlock = some [⟨64, 12⟩, ⟨92, 16⟩, ⟨128, 4⟩] := by
  decide

end Uboot.Fdt
