import BootFirmware.Lib.Memory
import BootFirmware.Uboot.Fdt.Tags

/-
  The regions of a device tree that a list of nodes selects.

  Key definitions include:
    * `Request`, `FindState` and `findTag`
    * `markRegion`, `findLoop` and `fdtFindRegions`

  The main results are:
    * `fdt_find_regions_selects`
    * `fdt_find_regions_ends_once`
-/

----
-- fdt_find_regions
----

namespace Uboot.Fdt

open RegionRuns List Option

/- The errors, as libfdt names them. -/
inductive FdtError where
  | notfound
  | nospace
  | badstructure
  | badlayout
deriving DecidableEq, Repr

/-
  The arguments, and what the header of the tree says of its
  structure block and strings.
-/
structure Request where
  inc : List Str
  excProp : List Str
  maxRegions : Nat
  pathLen : Nat
  addStringTab : Bool
  offDtStruct : Nat
  sizeDtStruct : Nat
  sizeDtStrings : Nat

/-
  The local variables.  The stack has the entries up to
  `depth`, and the path the bytes before `end`.
-/
structure FindState where
  want : Nat
  stack : List Nat
  path : Str
  start : Option Nat
  region : Memory Region
  count : Nat
  nextoffset : Nat

/- What a tag says: `include`, `stop_at` and the new state. -/
structure Visit where
  included : Bool
  stopAt : Nat
  state : FindState

def findTag (req : Request) (s : FindState) (tag : Tag) :
    Except FdtError Visit :=
  let offset := s.nextoffset
  let nextoffset := offset + tag.size
  match tag with
  | .prop name _ =>
    .ok
      { included :=
          decide (2 ≤ s.want) && !strInList name req.excProp
        stopAt := offset
        state := { s with nextoffset } }
  | .nop =>
    .ok
      { included := decide (2 ≤ s.want)
        stopAt := offset
        state := { s with nextoffset } }
  | .beginNode name =>
    if s.stack.length = FDT_MAX_DEPTH then
      .error .badstructure
    else if req.pathLen ≤ s.path.length + 2 + name.length then
      .error .nospace
    else
      let path := pushPath s.path name
      let stack := s.want :: s.stack
      let stopAt := if s.want = 1 then offset else nextoffset
      if strInList path req.inc then
        .ok
          { included := true
            stopAt
            state := { s with path, stack, nextoffset, want := 2 } }
      else if s.want ≠ 0 then
        .ok
          { included := decide (s.want - 1 ≠ 0)
            stopAt
            state :=
              { s with
                path, stack, nextoffset, want := s.want - 1 } }
      else
        .ok
          { included := false
            stopAt := offset
            state := { s with path, stack, nextoffset } }
  | .endNode =>
    match s.stack with
    | [] => .error .badstructure
    | want :: stack =>
      .ok
        { included := decide (s.want ≠ 0)
          stopAt := nextoffset
          state :=
            { s with
              want, stack, nextoffset
              path := popPath s.path } }
  | .fin =>
    .ok
      { included := true
        stopAt := nextoffset
        state := { s with nextoffset } }

/- Start a region, or go on with the one before it. -/
def startRegion (req : Request) (offset : Nat) (s : FindState) :
    FindState :=
  let last := s.region (s.count - 1)
  if s.count ≠ 0 ∧ s.count ≤ req.maxRegions ∧
      offset + req.offDtStruct = last.offset + last.size then
    { s with
      start := some (last.offset - req.offDtStruct)
      count := s.count - 1 }
  else { s with start := some offset }

/- Store a region, where there is room for it. -/
def storeRegion (req : Request) (r : Region) (s : FindState) :
    FindState :=
  { s with
    region :=
      if s.count < req.maxRegions then
        Function.update s.region s.count r
      else s.region
    count := s.count + 1
    start := none }

def markRegion (req : Request) (offset : Nat) (v : Visit) :
    FindState :=
  let s :=
    if v.included && v.state.start.isNone then
      startRegion req offset v.state
    else v.state
  if v.included then s
  else
    match s.start with
    | none => s
    | some start => storeRegion req ⟨req.offDtStruct + start, v.stopAt - start⟩ s

/- A block that ends too early has a bad layout. -/
def findLoop (req : Request) :
    List Tag → FindState → Except FdtError FindState
  | [], _ => .error .badlayout
  | tag :: rest, s =>
    (findTag req s tag).bind fun v =>
      let s' := markRegion req s.nextoffset v
      if tag = .fin then .ok s'
      else findLoop req rest s'

def findStart (region : Memory Region) : FindState where
  want := 0
  stack := []
  path := []
  start := none
  region
  count := 0
  nextoffset := 0

/- The number of regions, and the array of them. -/
def fdtFindRegions (req : Request) (region : Memory Region) (block : List Tag) :
    Except FdtError (Nat × Memory Region) :=
  (findLoop req block (findStart region)).bind fun s =>
    if s.nextoffset ≠ req.sizeDtStruct then
      .error .badlayout
    else
      let start := s.start.getD 0
      let size := s.nextoffset - start +
        if req.addStringTab then req.sizeDtStrings else 0
      let s := storeRegion req ⟨req.offDtStruct + start, size⟩ s
      .ok (s.count, s.region)

----
-- The Tags, One By One
----

/- What is wanted in a node, by the list of paths. -/
def wantOf (inc nodes : List Str) : Nat :=
  if wanted inc nodes then 2
  else if wanted inc nodes.tail then 1
  else 0

/- What was wanted around each of the open nodes. -/
def savedWants (inc : List Str) : List Str → List Nat
  | [] => []
  | _ :: nodes => wantOf inc nodes :: savedWants inc nodes

/- The variables that follow the nodes. -/
structure Cursor
    (req : Request) (before : List Tag)
    (s : FindState) : Prop where
  hWant : s.want = wantOf req.inc (openNodes before)
  hStack : s.stack = savedWants req.inc (openNodes before)
  hPath : PathBuffer (openNodes before) s.path
  hNames : Names (openNodes before)
  hOffset : s.nextoffset = blockSize before

/- What `findTag` leaves, and what it says of the tag. -/
structure Visited
    (req : Request) (before : List Tag) (tag : Tag) (s : FindState)
    (v : Visit) : Prop where
  hIncluded : v.included = selected req.inc req.excProp (openNodes before) tag
  hStop : v.included = false → v.stopAt =
      if tag = .endNode then s.nextoffset + tag.size
      else s.nextoffset
  hCursor : Cursor req (before ++ [tag]) v.state
  hStart : v.state.start = s.start
  hRegion : v.state.region = s.region
  hCount : v.state.count = s.count

theorem savedWants_length (inc nodes : List Str) :
    (savedWants inc nodes).length = nodes.length := by
  induction nodes with
  | nil => rfl
  | cons name nodes ih => rw [savedWants, length_cons, ih, length_cons]

section Tags

variable {req : Request} {before : List Tag} {s : FindState}

theorem two_le_wantOf (inc nodes : List Str) :
    decide (2 ≤ wantOf inc nodes) = wanted inc nodes := by
  unfold wantOf
  split_ifs with hOwn hParent
  · exact hOwn.symm
  · rw [Bool.not_eq_true] at hOwn
    rw [hOwn]
    rfl
  · rw [Bool.not_eq_true] at hOwn
    rw [hOwn]
    rfl

theorem wantOf_ne_zero (inc nodes : List Str) :
    decide (wantOf inc nodes ≠ 0) = (wanted inc nodes || wanted inc nodes.tail) := by
  unfold wantOf
  split_ifs with hOwn hParent
  · rw [hOwn]
    rfl
  · rw [hParent, Bool.or_true]
    rfl
  · rw [Bool.not_eq_true] at hOwn hParent
    rw [hOwn, hParent]
    rfl

section

variable (hCursor : Cursor req before s)
include hCursor

/- A tag that does not open or close a node. -/
theorem Cursor.stay {tag : Tag} (hStay : openAfter (openNodes before) tag = openNodes before) :
    Cursor req (before ++ [tag]) { s with nextoffset := s.nextoffset + tag.size } := by
  have hNodes : openNodes (before ++ [tag]) = openNodes before := by rw [openNodes_append, hStay]
  constructor
  · rw [hNodes]
    exact hCursor.hWant
  · rw [hNodes]
    exact hCursor.hStack
  · rw [hNodes]
    exact hCursor.hPath
  · rw [hNodes]
    exact hCursor.hNames
  · rw [blockSize_append, ← hCursor.hOffset]

theorem Cursor.enter {name : Str} (hName : NameOk (openNodes before) name) :
    Cursor req (before ++ [.beginNode name])
      { s with
        want := wantOf req.inc (name :: openNodes before)
        stack := s.want :: s.stack
        path := pushPath s.path name
        nextoffset := s.nextoffset + (Tag.beginNode name).size } := by
  have hNodes : openNodes (before ++ [.beginNode name]) =
      name :: openNodes before := openNodes_append _ _
  constructor
  · rw [hNodes]
  · rw [hNodes, savedWants, ← hCursor.hWant, ← hCursor.hStack]
  · rw [hNodes]
    exact (hCursor.hPath.push hCursor.hNames hName).2
  · rw [hNodes]
    exact ⟨hName, hCursor.hNames⟩
  · rw [blockSize_append, ← hCursor.hOffset]

theorem findTag_beginNode {name : Str}
    (hName : NameOk (openNodes before) name) (hDepth : (openNodes before).length < FDT_MAX_DEPTH)
    (hFits : s.path.length + 2 + name.length < req.pathLen) :
    ∃ v, findTag req s (.beginNode name) = .ok v ∧ Visited req before (.beginNode name) s v := by
  have hLength := savedWants_length req.inc (openNodes before)
  rw [← hCursor.hStack] at hLength
  have hPath := (hCursor.hPath.push hCursor.hNames hName).1
  have hEnter := hCursor.enter hName
  have hNew : wanted req.inc (name :: openNodes before) =
      strInList (pathOf (name :: openNodes before)) req.inc :=
    rfl
  have hSelected :
      selected req.inc req.excProp (openNodes before) (.beginNode name) =
        (wanted req.inc (name :: openNodes before) || wanted req.inc (openNodes before)) := rfl
  have hTail :
      wanted req.inc (name :: openNodes before).tail = wanted req.inc (openNodes before) := rfl
  simp only [findTag]
  rw [if_neg (by omega), if_neg (Nat.not_le.mpr hFits), hPath]
  cases hOn : strInList (pathOf (name :: openNodes before)) req.inc with
  | true =>
    rw [if_pos rfl]
    refine ⟨_, rfl, ?_, nofun, ?_, rfl, rfl, rfl⟩
    · rw [hSelected, hNew, hOn]
      rfl
    · rw [hPath, wantOf, hNew, hOn, if_pos rfl] at hEnter
      exact hEnter
  | false =>
    rw [if_neg Bool.false_ne_true]
    have hWantNew :
        wantOf req.inc (name :: openNodes before) =
          if wanted req.inc (openNodes before) then 1
          else 0 := by
      rw [wantOf, hNew, hOn, if_neg Bool.false_ne_true, hTail]
    have hWant := hCursor.hWant
    unfold wantOf at hWant
    rw [hPath, hWantNew] at hEnter
    rw [hNew, hOn, Bool.false_or] at hSelected
    cases hOwn : wanted req.inc (openNodes before) with
    | true =>
      rw [hOwn, if_pos rfl] at hWant hEnter
      rw [hWant, if_pos (by decide)]
      refine ⟨_, rfl, ?_, nofun, ?_, rfl, rfl, rfl⟩
      · rw [hSelected, hOwn]
        rfl
      · rw [hWant] at hEnter
        exact hEnter
    | false =>
      rw [hOwn, if_neg Bool.false_ne_true] at hWant hEnter
      by_cases hZero : s.want = 0
      · rw [hZero, if_neg (by decide)]
        refine ⟨_, rfl, ?_, ?_, ?_, rfl, rfl, rfl⟩
        · rw [hSelected, hOwn]
        · exact fun _ => rfl
        · rw [hZero] at hEnter
          exact hEnter
      · have hOne : s.want = 1 := by
          split_ifs at hWant <;> omega
        rw [hOne, if_pos (by decide), if_pos rfl]
        refine ⟨_, rfl, ?_, ?_, ?_, rfl, rfl, rfl⟩
        · rw [hSelected, hOwn]
          rfl
        · exact fun _ => rfl
        · rw [hOne] at hEnter
          exact hEnter

theorem findTag_endNode (hSome : openNodes before ≠ []) :
    ∃ v, findTag req s .endNode = .ok v ∧ Visited req before .endNode s v := by
  have hNodes : openNodes (before ++ [.endNode]) = (openNodes before).tail := openNodes_append _ _
  have hStack := hCursor.hStack
  have hPath := hCursor.hPath
  have hNames := hCursor.hNames
  have hWant := hCursor.hWant
  have hSelected :
      decide (wantOf req.inc (openNodes before) ≠ 0) =
        selected req.inc req.excProp (openNodes before)
          .endNode := wantOf_ne_zero _ _
  cases hOpen : openNodes before with
  | nil => exact absurd hOpen hSome
  | cons name nodes =>
    rw [hOpen] at hStack hPath hNames
    simp only [findTag]
    rw [hStack, savedWants]
    refine ⟨_, rfl, ?_, fun _ => rfl, ?_, rfl, rfl, rfl⟩
    · rw [← hSelected, ← hWant]
    · rw [hOpen, tail_cons] at hNodes
      constructor
      · rw [hNodes]
      · rw [hNodes]
      · rw [hNodes]
        exact hPath.pop hNames.1
      · rw [hNodes]
        exact hNames.2
      · rw [blockSize_append, ← hCursor.hOffset]

theorem findTag_visited {tag : Tag} (hOk : TagOk (openNodes before) tag) :
    (findTag req s tag = .error .nospace ∧
      ∃ name, tag = .beginNode name ∧ req.pathLen ≤ s.path.length + 2 + name.length) ∨
    ∃ v, findTag req s tag = .ok v ∧ Visited req before tag s v := by
  have hWant := two_le_wantOf req.inc (openNodes before)
  rw [← hCursor.hWant] at hWant
  cases tag with
  | beginNode name =>
    by_cases hFits : s.path.length + 2 + name.length < req.pathLen
    · exact .inr (findTag_beginNode hCursor hOk.1 hOk.2 hFits)
    · have hLength := savedWants_length req.inc (openNodes before)
      have hDepth := hOk.2
      rw [← hCursor.hStack] at hLength
      refine .inl ⟨?_, name, rfl, Nat.not_lt.mp hFits⟩
      simp only [findTag]
      rw [if_neg (by omega), if_pos (Nat.not_lt.mp hFits)]
  | endNode => exact .inr (findTag_endNode hCursor hOk)
  | prop name value =>
    refine .inr ⟨_, rfl, ?_, fun _ => rfl, hCursor.stay rfl, rfl, rfl, rfl⟩
    exact congrArg (· && !strInList name req.excProp) hWant
  | nop => exact .inr ⟨_, rfl, hWant, fun _ => rfl, hCursor.stay rfl, rfl, rfl, rfl⟩
  | fin => exact .inr ⟨_, rfl, rfl, nofun, hCursor.stay rfl, rfl, rfl, rfl⟩

end

end Tags

----
-- The Regions
----

/- The regions that are stored, and the one that is open. -/
def FindState.live (s : FindState) : Nat :=
  s.count + s.start.isSome.toNat

/- The array holds the regions of these runs. -/
structure SameRuns
    (req : Request) (s : FindState)
    (r : Runs) : Prop where
  hStart : s.start.map (req.offDtStruct + ·) = r.start
  hStored : s.region.slice 0 s.count = r.closed.reverse
  hBase : ∀ x ∈ r.closed, req.offDtStruct ≤ x.offset

theorem slice_concat {m : Memory Region} {n : Nat} :
    m.slice 0 (n + 1) = m.slice 0 n ++ [m n] := by
  rw [Memory.slice_add, Nat.zero_add, Memory.slice_succ]
  rfl

theorem slice_update (m : Memory Region) (n : Nat) (x : Region) :
    Memory.slice (Function.update m n x) 0 n = m.slice 0 n := by
  apply Memory.slice_congr
  intro i hi
  exact Function.update_of_ne (by omega) _ _

section Mark

variable {req : Request} {s : FindState} {r : Runs} {offset : Nat}

section

variable (hSame : SameRuns req s r)
include hSame

theorem SameRuns.closed_length : r.closed.length = s.count := by
  have hLength := congrArg List.length hSame.hStored
  rw [Memory.length_slice, length_reverse] at hLength
  exact hLength.symm

theorem SameRuns.last {x : Region} {rest : List Region} (hClosed : r.closed = x :: rest) :
    s.count ≠ 0 ∧ s.region (s.count - 1) = x ∧ s.region.slice 0 (s.count - 1) = rest.reverse := by
  have hLength := hSame.closed_length
  have hStored := hSame.hStored
  rw [hClosed] at hLength hStored
  rw [length_cons] at hLength
  have hCount : s.count = s.count - 1 + 1 := by omega
  rw [hCount, slice_concat, reverse_cons] at hStored
  rcases append_inj' hStored rfl with ⟨hRest, hLast⟩
  exact ⟨by omega, List.cons.inj hLast |>.1, hRest⟩

theorem startRegion_runs
    (hPos : r.pos = offset + req.offDtStruct) (hRoom : s.count ≤ req.maxRegions) :
    SameRuns req (startRegion req offset s) r.begin := by
  unfold startRegion
  rcases r.begin_cases with ⟨x, rest, hClosed, hJoin, hBegin⟩ | ⟨hApart, hBegin⟩
  · rcases hSame.last hClosed with ⟨hCount, hLast, hRest⟩
    have hBase := hSame.hBase
    rw [hClosed] at hBase
    have hAbove := hBase x mem_cons_self
    have hEnd : offset + req.offDtStruct = x.offset + x.size := hPos.symm.trans hJoin.symm
    rw [hBegin, if_pos (by rw [hLast]; exact ⟨hCount, hRoom, hEnd⟩), hLast]
    refine ⟨?_, hRest, ?_⟩
    · rw [map_some, Nat.add_sub_of_le hAbove]
    · exact fun y hy => hBase y (mem_cons_of_mem x hy)
  · have hNot :
        ¬(s.count ≠ 0 ∧ s.count ≤ req.maxRegions ∧ offset + req.offDtStruct =
            (s.region (s.count - 1)).offset + (s.region (s.count - 1)).size) := by
      rintro ⟨hCount, -, hEnd⟩
      cases hClosed : r.closed with
      | nil =>
        have hLength := hSame.closed_length
        rw [hClosed] at hLength
        exact hCount hLength.symm
      | cons x rest =>
        rcases hSame.last hClosed with ⟨-, hLast, -⟩
        rw [hClosed] at hApart
        rw [hLast, ← hPos] at hEnd
        exact hApart x rfl hEnd.symm
    rw [hBegin, if_neg hNot]
    refine ⟨?_, hSame.hStored, hSame.hBase⟩
    rw [map_some, hPos, Nat.add_comm]

theorem storeRegion_runs
    {start stop : Nat} (hStart : s.start = some start) (hRoom : s.count < req.maxRegions) :
    SameRuns req (storeRegion req ⟨req.offDtStruct + start, stop - start⟩ s)
      (r.close (req.offDtStruct + stop)) := by
  have hOpen := hSame.hStart
  rw [hStart, map_some] at hOpen
  have hSize : req.offDtStruct + stop - (req.offDtStruct + start) = stop - start := by omega
  unfold storeRegion Runs.close
  rw [← hOpen, if_pos hRoom]
  simp only [hSize]
  refine ⟨rfl, ?_, ?_⟩
  · simp only
    rw [slice_concat, slice_update, hSame.hStored, Function.update_self, reverse_cons]
  · intro x hx
    rcases mem_cons.mp hx with rfl | hx
    · exact Nat.le_add_right _ _
    · exact hSame.hBase x hx

end

theorem startRegion_eq (req : Request) (offset : Nat) (s : FindState) :
    ∃ a n, startRegion req offset s = { s with start := some a, count := n } := by
  by_cases hJoin :
      s.count ≠ 0 ∧ s.count ≤ req.maxRegions ∧
        offset + req.offDtStruct = (s.region (s.count - 1)).offset + (s.region (s.count - 1)).size
  · exact ⟨_, _, if_pos hJoin⟩
  · exact ⟨offset, s.count, if_neg hJoin⟩

theorem startRegion_live (hNone : s.start = none) :
    s.live ≤ (startRegion req offset s).live ∧ s.count ≤ (startRegion req offset s).live := by
  unfold startRegion FindState.live
  rw [hNone]
  simp only
  split_ifs with hJoin
  · simp only [isSome_some, isSome_none, Bool.toNat_true, Bool.toNat_false]
    omega
  · simp only [isSome_some, isSome_none, Bool.toNat_true, Bool.toNat_false]
    omega

/- Regions are only taken back to go on with them. -/
theorem markRegion_live (req : Request) (offset : Nat) (v : Visit) :
    v.state.live ≤ (markRegion req offset v).live := by
  unfold markRegion
  cases hIncluded : v.included with
  | true =>
    cases hStart : v.state.start with
    | none => exact (startRegion_live hStart).1
    | some a => exact Nat.le_refl _
  | false =>
    cases hStart : v.state.start with
    | none =>
      simp only [Bool.false_and, Bool.false_eq_true, if_false, hStart]
      exact Nat.le_refl _
    | some a =>
      simp only [Bool.false_and, Bool.false_eq_true, if_false, hStart]
      unfold FindState.live storeRegion
      rw [hStart]
      exact Nat.le_refl _

theorem SameRuns.set_pos (hSame : SameRuns req s r) (pos : Nat) :
    SameRuns req s { r with pos } :=
  ⟨hSame.hStart, hSame.hStored, hSame.hBase⟩

/- The array follows the runs, as long as it has room. -/
theorem markRegion_runs {v : Visit} {p : Piece}
    (hSame : SameRuns req v.state r) (hPos : r.pos = offset + req.offDtStruct)
    (hChosen : p.chosen = v.included)
    (hStop : v.included = false → req.offDtStruct + v.stopAt =
        if p.tail then r.pos + p.size else r.pos)
    (hRoom : (markRegion req offset v).live ≤ req.maxRegions) :
    SameRuns req (markRegion req offset v) (r.add p) := by
  have hOpen := hSame.hStart
  unfold markRegion at hRoom ⊢
  unfold Runs.add
  rw [hChosen]
  cases hIncluded : v.included with
  | true =>
    rw [hIncluded] at hRoom
    rw [if_pos rfl]
    apply SameRuns.set_pos
    cases hStart : v.state.start with
    | none =>
      rw [hStart, map_none] at hOpen
      rw [hStart] at hRoom
      rw [← hOpen]
      refine startRegion_runs hSame hPos ?_
      exact Nat.le_trans (startRegion_live hStart).2 hRoom
    | some a =>
      rw [hStart, map_some] at hOpen
      rw [← hOpen]
      exact hSame
  | false =>
    rw [hIncluded] at hRoom hStop
    rw [if_neg Bool.false_ne_true, ← hStop rfl]
    apply SameRuns.set_pos
    simp only [Bool.false_and, Bool.false_eq_true, if_false] at hRoom ⊢
    cases hStart : v.state.start with
    | none =>
      rw [hStart, map_none] at hOpen
      unfold Runs.close
      rw [← hOpen]
      exact hSame
    | some a =>
      rw [hStart] at hRoom
      have hLess : v.state.count < req.maxRegions := by
        unfold FindState.live storeRegion at hRoom
        simp only [isSome_none, Bool.toNat_false] at hRoom
        omega
      exact storeRegion_runs hSame hStart hLess

end Mark

----
-- The Whole Block
----

/- The paths of the nodes, with what the code asks besides. -/
def PathsFit (pathLen : Nat) (block : List Tag) : Prop :=
  ∀ before name rest, block = before ++ .beginNode name :: rest →
      (pathOf (name :: openNodes before)).length + 2 < pathLen

structure Followed
    (req : Request) (before : List Tag)
    (s : FindState) : Prop where
  hCursor : Cursor req before s
  hRuns : s.live ≤ req.maxRegions →
    SameRuns req s (runs req.offDtStruct (piecesOf req.inc req.excProp [] before))

section Loop

variable {req : Request} {before : List Tag} {s : FindState}

/- The check of the path asks for no more than that. -/
theorem path_length_le {nodes : List Str} {path name : Str} (hPath : PathBuffer nodes path) :
    path.length + 2 + name.length ≤ (pathOf (name :: nodes)).length + 2 := by
  match nodes, hPath with
  | [], hPath =>
    rw [hPath, pathOf, length_nil, length_cons]
    omega
  | [_], hPath =>
    rw [pathOf, length_cons]
    rcases hPath with rfl | rfl
    · rw [length_singleton]
      omega
    · rw [length_nil]
      omega
  | parent :: root :: rest, hPath =>
    have hEq : path = pathOf (parent :: root :: rest) := hPath
    rw [hEq, pathOf, length_append, length_cons]
    omega

theorem markRegion_kept (req : Request) (offset : Nat) (v : Visit) :
    (markRegion req offset v).want = v.state.want ∧
      (markRegion req offset v).stack = v.state.stack ∧
      (markRegion req offset v).path = v.state.path ∧
      (markRegion req offset v).nextoffset = v.state.nextoffset := by
  have hBegin :
      (startRegion req offset v.state).want = v.state.want ∧
        (startRegion req offset v.state).stack = v.state.stack ∧
        (startRegion req offset v.state).path = v.state.path ∧
        (startRegion req offset v.state).nextoffset = v.state.nextoffset := by
    rcases startRegion_eq req offset v.state with ⟨a, n, hEq⟩
    rw [hEq]
    exact ⟨rfl, rfl, rfl, rfl⟩
  unfold markRegion
  cases v.included with
  | true =>
    cases v.state.start with
    | none => exact hBegin
    | some a => exact ⟨rfl, rfl, rfl, rfl⟩
  | false =>
    simp only [Bool.false_and, Bool.false_eq_true, if_false]
    cases v.state.start <;> exact ⟨rfl, rfl, rfl, rfl⟩

variable {v : Visit}

theorem markRegion_cursor {offset : Nat} (hCursor : Cursor req before v.state) :
    Cursor req before (markRegion req offset v) := by
  rcases markRegion_kept req offset v with ⟨hWant, hStack, hPath, hOffset⟩
  constructor
  · rw [hWant]
    exact hCursor.hWant
  · rw [hStack]
    exact hCursor.hStack
  · rw [hPath]
    exact hCursor.hPath
  · exact hCursor.hNames
  · rw [hOffset]
    exact hCursor.hOffset

theorem Visited.followed
    {tag : Tag} (hFollowed : Followed req before s) (hVisited : Visited req before tag s v) :
    Followed req (before ++ [tag]) (markRegion req s.nextoffset v) := by
  have hOffset := hFollowed.hCursor.hOffset
  refine ⟨markRegion_cursor hVisited.hCursor, ?_⟩
  intro hRoom
  have hLive := Nat.le_trans (markRegion_live req s.nextoffset v) hRoom
  unfold FindState.live at hLive
  rw [hVisited.hCount, hVisited.hStart] at hLive
  have hBefore := hFollowed.hRuns hLive
  have hSame : SameRuns req v.state
      (runs req.offDtStruct (piecesOf req.inc req.excProp [] before)) := by
    constructor
    · rw [hVisited.hStart]
      exact hBefore.hStart
    · rw [hVisited.hRegion, hVisited.hCount]
      exact hBefore.hStored
    · exact hBefore.hBase
  have hPos :
      (runs req.offDtStruct (piecesOf req.inc req.excProp [] before)).pos =
        s.nextoffset + req.offDtStruct := by
    rw [runs_pos, sizes_piecesOf, hOffset, Nat.add_comm]
  rw [piecesOf_snoc, runs_append]
  refine markRegion_runs hSame hPos hVisited.hIncluded.symm
    ?_ hRoom
  intro hOut
  rw [hVisited.hStop hOut, hPos]
  have hTail :
      (pieceOf (selected req.inc req.excProp
        (openNodes before) tag) tag).tail = decide (tag = .endNode) := rfl
  have hSize :
      (pieceOf (selected req.inc req.excProp (openNodes before) tag) tag).size = tag.size := rfl
  rw [hTail, hSize]
  by_cases hEnd : tag = .endNode
  · rw [if_pos hEnd, if_pos (decide_eq_true hEnd)]
    omega
  · rw [if_neg hEnd, if_neg (by simpa using hEnd)]
    omega

theorem markRegion_included {offset : Nat} (hIncluded : v.included = true) :
    (markRegion req offset v).start.isSome = true := by
  unfold markRegion
  rw [hIncluded, if_pos rfl]
  cases hStart : v.state.start with
  | none =>
    rcases startRegion_eq req offset v.state with ⟨a, n, hEq⟩
    simp only [Bool.true_and, isNone_none, if_true, hEq]
    rfl
  | some a =>
    simp only [Bool.true_and, isNone_some, Bool.false_eq_true, if_false, hStart]
    rfl

theorem findLoop_followed {rest : List Tag}
    (hFollowed : Followed req before s) (hNested : Nested (openNodes before) rest) :
    (findLoop req rest s = .error .nospace ∧ ¬PathsFit req.pathLen (before ++ rest)) ∨
    ∃ s', findLoop req rest s = .ok s' ∧ Followed req (before ++ rest) s' ∧
      s'.start.isSome = true := by
  induction rest generalizing before s with
  | nil => exact hNested.elim
  | cons tag rest ih =>
    rcases hNested with ⟨hOk, hRest⟩
    rcases findTag_visited hFollowed.hCursor hOk with
      ⟨hError, name, rfl, hLong⟩ | ⟨v, hTag, hVisited⟩
    · refine .inl ⟨?_, ?_⟩
      · rw [findLoop, hError]
        rfl
      · intro hFit
        have hShort := hFit before name rest rfl
        have hLe := @path_length_le _ _ name hFollowed.hCursor.hPath
        omega
    · have hNext := hVisited.followed hFollowed
      rw [findLoop, hTag]
      simp only [Except.bind]
      by_cases hFin : tag = .fin
      · rw [if_pos hFin] at hRest ⊢
        subst hRest
        refine .inr ⟨_, rfl, hNext, ?_⟩
        apply markRegion_included
        rw [hVisited.hIncluded, hFin]
        rfl
      · rw [if_neg hFin] at hRest ⊢
        rw [← openNodes_append] at hRest
        have hMore := ih hNext hRest
        rwa [append_assoc, singleton_append] at hMore

end Loop

/- The last region has the string table as well. -/
def addStrings (extra : Nat) : List Region → List Region
  | [] => []
  | [r] => [{ r with size := r.size + extra }]
  | r :: r' :: rest => r :: addStrings extra (r' :: rest)

theorem addStrings_append (extra : Nat) (front : List Region) (r : Region) :
    addStrings extra (front ++ [r]) = front ++ [{ r with size := r.size + extra }] := by
  induction front with
  | nil => rfl
  | cons x front ih =>
    cases front with
    | nil => rfl
    | cons y front => exact congrArg (x :: ·) ih

theorem addStrings_zero (regions : List Region) :
    addStrings 0 regions = regions := by
  rcases eq_nil_or_concat regions with rfl | ⟨front, r, rfl⟩
  · rfl
  · rw [concat_eq_append, addStrings_append]
    rfl

/- The regions are in order, and cover the right tags. -/
structure Selects
    (req : Request) (block : List Tag)
    (regions : List Region) : Prop where
  hSorted : Sorted regions
  hCovers : ∀ before tag rest, block = before ++ tag :: rest →
    ∀ b, req.offDtStruct + blockSize before ≤ b →
      b < req.offDtStruct + blockSize before + tag.size →
        (InRegions regions b ↔ CoveredTag req.inc req.excProp before tag)

theorem selects_runs (req : Request) (block : List Tag) :
    Selects req block (runs req.offDtStruct (piecesOf req.inc req.excProp [] block)).regions := by
  have hSized := sized_piecesOf req.inc req.excProp [] block
  refine ⟨sorted_regions hSized, ?_⟩
  rintro before tag rest rfl b hLow hHigh
  rw [piecesOf_append, piecesOf] at hSized ⊢
  rw [inRegions_regions hSized]
  · exact covered_pieceOf
  · unfold Inside
    rw [sizes_piecesOf]
    exact ⟨hLow, hHigh⟩

def Request.stringBytes (req : Request) : Nat :=
  if req.addStringTab then req.sizeDtStrings else 0

theorem findStart_followed (req : Request) (region : Memory Region) :
    Followed req [] (findStart region) :=
  ⟨⟨rfl, rfl, rfl, trivial, rfl⟩, fun _ => ⟨rfl, rfl, nofun⟩⟩

theorem fdtFindRegions_runs
    {req : Request} {block : List Tag} {region found : Memory Region} {count : Nat}
    (hNested : Nested [] block) (hFound : fdtFindRegions req region block = .ok (count, found))
    (hRoom : count ≤ req.maxRegions) :
    found.slice 0 count = addStrings req.stringBytes
        (runs req.offDtStruct (piecesOf req.inc req.excProp [] block)).regions := by
  unfold fdtFindRegions at hFound
  rcases findLoop_followed (findStart_followed req region) hNested with
    ⟨hError, -⟩ | ⟨s, hLoop, hFollowed, hOpen⟩
  · rw [hError] at hFound
    exact absurd hFound nofun
  · rw [nil_append] at hFollowed
    have hOffset := hFollowed.hCursor.hOffset
    rw [hLoop] at hFound
    simp only [Except.bind] at hFound
    by_cases hBad : s.nextoffset ≠ req.sizeDtStruct
    · rw [if_pos hBad] at hFound
      exact absurd hFound nofun
    rw [if_neg hBad] at hFound
    cases hFound
    rcases isSome_iff_exists.mp hOpen with ⟨a, hStart⟩
    have hLess : s.count < req.maxRegions := hRoom
    have hSame := hFollowed.hRuns (by
      unfold FindState.live
      rw [hOpen]
      exact hLess)
    have hRunsStart := hSame.hStart
    rw [hStart, map_some] at hRunsStart
    have hPos := runs_pos req.offDtStruct (piecesOf req.inc req.excProp [] block)
    rw [sizes_piecesOf] at hPos
    unfold Runs.regions Runs.close
    rw [← hRunsStart]
    simp only
    rw [reverse_cons, addStrings_append, ← hSame.hStored, hPos, hStart, hOffset]
    simp only [storeRegion, if_pos hLess, slice_concat,
      slice_update, Function.update_self, getD_some, Request.stringBytes]
    congr 3
    omega

/-
  Where the paths fit, the regions are found, and with room
  for all of them they cover the tags that are selected.
-/
theorem fdt_find_regions_selects (req : Request) (block : List Tag) (hNested : Nested [] block)
    (hSize : req.sizeDtStruct = blockSize block) (region : Memory Region) :
    (PathsFit req.pathLen block → ∃ result, fdtFindRegions req region block = .ok result) ∧
    ∀ count found, fdtFindRegions req region block = .ok (count, found) → count ≤ req.maxRegions →
        ∃ regions, Selects req block regions ∧
          found.slice 0 count = addStrings req.stringBytes regions := by
  refine ⟨?_, ?_⟩
  · intro hFit
    rcases findLoop_followed (findStart_followed req region) hNested with
      ⟨-, hLong⟩ | ⟨s, hLoop, hFollowed, -⟩
    · exact absurd hFit hLong
    · have hOffset := hFollowed.hCursor.hOffset
      unfold fdtFindRegions
      rw [hLoop]
      simp only [Except.bind]
      rw [if_neg (by rw [hSize, hOffset]; exact not_ne_iff.mpr rfl)]
      exact ⟨_, rfl⟩
  · intro count found hFound hRoom
    exact ⟨_, selects_runs req block, fdtFindRegions_runs hNested hFound hRoom⟩

----
-- The End Of A Node
----

/- The regions, as a list. -/
def findRegionList (req : Request) (block : List Tag) :
    Option (List Region) :=
  (fdtFindRegions req (fun _ => ⟨0, 0⟩) block).toOption.map fun r => r.2.slice 0 r.1

/- The node `/a/b/c`, and the path to it. -/
def deepBlock : List Tag :=
  [.beginNode [], .beginNode [0x61], .beginNode [0x62],
    .beginNode [0x63], .endNode, .endNode, .endNode, .endNode, .fin]

/- Its path is the only one on the list. -/
def deepRequest : Request where
  inc := [[0x2f, 0x61, 0x2f, 0x62, 0x2f, 0x63]]
  excProp := []
  maxRegions := 8
  pathLen := 100
  addStringTab := false
  offDtStruct := 0x38
  sizeDtStruct := 52
  sizeDtStrings := 0

theorem fdt_find_regions_selects_deep :
    ∃ regions, Selects deepRequest deepBlock regions ∧
      findRegionList deepRequest deepBlock = some regions := by
  have hFinds := fdt_find_regions_selects deepRequest
    deepBlock (by decide) (by decide) (fun _ => ⟨0, 0⟩)
  cases hFound : fdtFindRegions deepRequest (fun _ => ⟨0, 0⟩) deepBlock with
  | error e =>
    have hSome : (findRegionList deepRequest deepBlock).isSome = true := by decide
    unfold findRegionList at hSome
    rw [hFound] at hSome
    exact absurd hSome Bool.false_ne_true
  | ok result =>
    have hCount :
        (fdtFindRegions deepRequest (fun _ => ⟨0, 0⟩)
          deepBlock).toOption.map (fun r => r.1) = some 2 := by
      decide
    rw [hFound] at hCount
    have hTwo : result.1 = 2 := Option.some.inj hCount
    rcases hFinds.2 result.1 result.2 hFound (by rw [hTwo]; decide) with ⟨regions, hSelects, hSlice⟩
    refine ⟨regions, hSelects, ?_⟩
    have hSame : addStrings deepRequest.stringBytes regions = regions := addStrings_zero regions
    unfold findRegionList
    rw [hFound, ← hSame, ← hSlice]
    rfl

/-
  The end of `/a` comes directly after a tag that is covered,
  the end of `/a/b`, and is not.
-/
theorem fdt_find_regions_ends_once :
    findRegionList deepRequest deepBlock = some [⟨80, 16⟩, ⟨104, 4⟩] ∧
      deepBlock[5]? = some .endNode ∧ deepBlock[6]? = some .endNode ∧
      (∀ b < 4, InRegions [⟨80, 16⟩, ⟨104, 4⟩]
        (deepRequest.offDtStruct + blockSize (deepBlock.take 5) + b)) ∧
      ∀ b < 4, ¬InRegions [⟨80, 16⟩, ⟨104, 4⟩]
        (deepRequest.offDtStruct + blockSize (deepBlock.take 6) + b) := by
  decide

end Uboot.Fdt
