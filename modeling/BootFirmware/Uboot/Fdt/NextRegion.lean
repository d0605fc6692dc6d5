import BootFirmware.Uboot.Fdt.FindRegions
import Mathlib.Data.List.DropRight

/-
  The regions of a device tree, found one at a time.

  A call goes on from where the last one stopped.  It comes
  back with a region once the next one is found apart from
  it, and leaves the tag that ends the next one for the call
  after it, which visits that tag again.

  Key definitions include:
    * `Ptrs`, `RegionState` and `visitTag`
    * `addRegion`, `nextLoop` and `nextRegion`
    * `nextRegionList`
    * `Seen` and `seenPieces`

  The main results are:
    * `visitTag_answers`
    * `nextLoop_regions` and `nextRegionList_eq`
-/

----
-- fdt_next_region
----

namespace Uboot.Fdt

open RegionRuns List Option

/- The flags that change what is wanted. -/
structure Flags where
  directSubnodes : Bool
  allSubnodes : Bool

/-
  What `h_include` answers for the path of a node and for the
  name of a property, which is nothing for -1.
-/
structure Include where
  node : Str → Bool
  prop : Str → Option Bool

/- How far the tags have been worked through. -/
inductive Done where
  | nothing
  | struct
  | fin
  | strings
deriving DecidableEq, Repr

/-
  The pointers that are committed at the end of each tag: the
  stack has the entries up to `depth`, the path the bytes of
  the buffer before `end`, and `rest` the tags from
  `nextoffset` on.
-/
structure Ptrs where
  want : Nat
  stack : List Nat
  path : Str
  done : Done
  nextoffset : Nat
  rest : List Tag

/-
  The state of the caller.  There is room for one region, and
  `can_merge` is set as long as neither the reserve map nor
  the string table is asked for.
-/
structure RegionState where
  ptrs : Ptrs
  start : Option Nat
  region : Region
  count : Nat

structure Config where
  hInclude : Include
  flags : Flags
  pathLen : Nat
  offDtStruct : Nat
  sizeDtStruct : Nat

/-
  What a tag says, and the bytes that are left before the old
  `end` of the path.
-/
structure NextVisit where
  included : Bool
  stopAt : Nat
  ptrs : Ptrs
  left : Str

/- The slash at the new end of the path becomes a NUL. -/
def clobber (path : Str) : Str :=
  path.set (popPath path).length 0

def visitTag (c : Config) (p : Ptrs) (rest : List Tag) (tag : Tag) :
    Except FdtError NextVisit :=
  let offset := p.nextoffset
  let nextoffset := offset + tag.size
  match tag with
  | .prop name _ =>
    .ok
      { included :=
          match c.hInclude.prop name with
          | none => decide (2 ≤ p.want)
          | some val => val
        stopAt := offset
        ptrs := { p with nextoffset, rest }
        left := p.path }
  | .nop =>
    .ok
      { included := decide (2 ≤ p.want)
        stopAt := offset
        ptrs := { p with nextoffset, rest }
        left := p.path }
  | .beginNode name =>
    if p.stack.length = FDT_MAX_DEPTH then
      .error .badstructure
    else if c.pathLen ≤ p.path.length + 2 + name.length then
      .error .nospace
    else
      let path := pushPath p.path name
      let stack := p.want :: p.stack
      let alone := p.want = 1 ∨ !(c.flags.directSubnodes || c.flags.allSubnodes)
      let stopAt := if alone then offset else nextoffset
      let want := if alone then 0 else p.want
      if c.hInclude.node path then
        .ok
          { included := true
            stopAt
            ptrs :=
              { p with
                path, stack, nextoffset, rest
                want := if c.flags.allSubnodes then 3 else 2 }
            left := p.path }
      else if want ≠ 0 then
        let want := if want ≠ 3 then want - 1 else want
        .ok
          { included := decide (want ≠ 0)
            stopAt
            ptrs := { p with path, stack, nextoffset, rest, want }
            left := p.path }
      else
        .ok
          { included := false
            stopAt := offset
            ptrs := { p with path, stack, nextoffset, rest, want }
            left := p.path }
  | .endNode =>
    match p.stack with
    | [] => .error .badstructure
    | want :: stack =>
      .ok
        { included := decide (p.want ≠ 0)
          stopAt :=
            if p.want = 0 ∧ !c.flags.directSubnodes then
              offset
            else nextoffset
          ptrs :=
            { p with
              want, stack, nextoffset, rest
              path := popPath p.path }
          left := clobber p.path }
  | .fin =>
    .ok
      { included := true
        stopAt := nextoffset
        ptrs := { p with nextoffset, rest, done := .struct }
        left := p.path }

/- `fdt_add_region`, which fails when it has no room. -/
def addRegion (offset size : Nat) (s : RegionState) :
    Bool × RegionState :=
  if s.count ≠ 0 ∧ s.count ≤ 1 ∧ offset ≤ s.region.offset + s.region.size then
    (true,
      { s with
        region := ⟨s.region.offset, offset + size - s.region.offset⟩ })
  else if s.count < 1 then
    (true, { s with region := ⟨offset, size⟩, count := s.count + 1 })
  else
    (false, { s with count := s.count + 1 })

/-
  The loop of a call over the tags.  The result says that the
  call ends, with the region that it has.
-/
def nextLoop (c : Config) :
    List Tag → RegionState → Except FdtError (Bool × RegionState)
  | [], _ => .error .badstructure
  | tag :: rest, s =>
    (visitTag c s.ptrs rest tag).bind fun v =>
      let start :=
        if v.included && s.start.isNone then
          some s.ptrs.nextoffset
        else s.start
      match v.included, start with
      | false, some a =>
        match addRegion (c.offDtStruct + a) (v.stopAt - a) s with
        | (true, s') => nextLoop c rest { s' with ptrs := v.ptrs, start := none }
        | (false, s') =>
          .ok (true,
            { s' with
              ptrs := { s.ptrs with path := v.left } })
      | _, start =>
        if tag = .fin then
          .ok (false, { s with ptrs := v.ptrs, start })
        else
          nextLoop c rest { s with ptrs := v.ptrs, start }

/- The region for the END tag, and then the end. -/
def nextEnd (c : Config) (s : RegionState) :
    Except FdtError RegionState :=
  match s.ptrs.done with
  | .nothing | .struct =>
    if s.ptrs.nextoffset ≠ c.sizeDtStruct then
      .error .badstructure
    else
      let start := s.start.getD 0
      match addRegion (c.offDtStruct + start) (s.ptrs.nextoffset - start) s with
      | (true, s') => .ok { s' with ptrs := { s.ptrs with done := .strings } }
      | (false, s') => .ok s'
  | .fin | .strings => .ok { s with ptrs := { s.ptrs with done := .strings } }

/- One call, which finds a region or no more of them. -/
def nextRegion (c : Config) (s : RegionState) :
    Except FdtError RegionState :=
  let s := { s with count := 0 }
  let looped :=
    if s.ptrs.done = .nothing then
      nextLoop c s.ptrs.rest s
    else .ok (false, s)
  looped.bind fun r =>
    if r.1 then .ok r.2
    else
      (nextEnd c r.2).bind fun s =>
        if s.count = 0 then .error .notfound else .ok s

/- The state that `fdt_first_region` sets up. -/
def firstState (block : List Tag) : RegionState where
  ptrs :=
    { want := 0
      stack := []
      path := []
      done := .nothing
      nextoffset := 0
      rest := block }
  start := none
  region := ⟨0, 0⟩
  count := 0

/- Call it again until there are no more regions. -/
def collect (c : Config) :
    Nat → RegionState → Option (List Region)
  | 0, _ => none
  | fuel + 1, s =>
    match nextRegion c s with
    | .ok s' => (collect c fuel s').map (s'.region :: ·)
    | .error .notfound => some []
    | .error _ => none

def nextRegionList (c : Config) (block : List Tag) :
    Option (List Region) :=
  collect c (block.length + 2) (firstState block)

----
-- What Is Seen
----

/- The path of a node, by the names down to it. -/
def pathBelow : List Str → Str
  | [] => []
  | name :: rest => pathBelow rest ++ slash :: name

/-
  The names that are left in the path, without the root, and
  for each node that is open whether its path was on the list
  as it was seen.
-/
structure Seen where
  names : List Str
  bits : List Bool
deriving DecidableEq, Repr

def Seen.finds (inc : List Str) (s : Seen)
    (name : Str) : Bool :=
  strInList (pathBelow (name :: s.names)) inc

def Seen.selects (inc exc : List Str) (s : Seen)
    (tag : Tag) : Bool :=
  chosen exc (s.bits.headD false) (s.bits.tail.headD false)
    (match tag with
      | .beginNode name => s.finds inc name
      | _ => false)
    tag

/- An end that is retried takes two names off the path. -/
def Seen.next (inc : List Str) (s : Seen) (isRetried : Bool) :
    Tag → Seen
  | .beginNode name =>
    { names :=
        if s.bits.isEmpty then s.names else name :: s.names
      bits := s.finds inc name :: s.bits }
  | .endNode =>
    { names := s.names.drop (if isRetried then 2 else 1)
      bits := s.bits.tail }
  | .prop _ _ | .nop | .fin => s

/- The run that is open began apart from another region. -/
def opensApart (base : Nat) (before : List Piece) : Bool :=
  let r := runs base before
  !r.closed.isEmpty && r.start == some (base + sizes (before.rdropWhile Piece.chosen))

/-
  The end of a node is visited a second time where it ends a
  run and that run is apart from the region before it.
-/
def retried (base : Nat) (before : List Piece) (p : Piece) :
    Bool :=
  p.tail && !p.chosen && opensApart base before

/- The pieces that are selected by the paths that are seen. -/
def seenPieces (req : Request) : Seen → List Piece → List Tag → List Piece
  | _, _, [] => []
  | s, before, tag :: rest =>
    let p := pieceOf (s.selects req.inc req.excProp tag) tag
    let isRetried := retried req.offDtStruct before p
    p :: seenPieces req (s.next req.inc isRetried tag) (before ++ [p]) rest

def firstSeen : Seen where
  names := []
  bits := []

/- The arguments that `h_include` and the flags stand for. -/
def Request.config (req : Request) : Config where
  hInclude :=
    { node := fun path => strInList path req.inc
      prop := fun name =>
        if strInList name req.excProp then some false
        else none }
  flags := { directSubnodes := true, allSubnodes := false }
  pathLen := req.pathLen
  offDtStruct := req.offDtStruct
  sizeDtStruct := req.sizeDtStruct

----
-- The Path
----

/-
  The path has these names.  Until a child of the root has
  ended it may be the slash of the root as well.
-/
structure PathLeft
    (depth : Nat) (names : List Str)
    (path : Str) : Prop where
  hPath : path = pathBelow names ∨ (depth = 1 ∧ path = [slash])
  hFew : names.length ≤ depth - 1
  hNames : ∀ name ∈ names, name ≠ [] ∧ slash ∉ name

section Path

variable {depth : Nat} {names names' : List Str} {name path path' : Str}

theorem pathBelow_length (name : Str) (names : List Str) :
    (pathBelow (name :: names)).length = (pathBelow names).length + 1 + name.length := by
  rw [pathBelow, length_append, length_cons]
  omega

theorem pathBelow_sublist (hSub : names.Sublist names') :
    (pathBelow names).length ≤ (pathBelow names').length := by
  induction hSub with
  | slnil => exact Nat.le_refl _
  | cons name hSub ih =>
    rw [pathBelow_length]
    omega
  | cons_cons name hSub ih =>
    rw [pathBelow_length, pathBelow_length]
    omega

theorem pathBelow_length_ne_one (hNames : ∀ name ∈ names, name ≠ [] ∧ slash ∉ name) :
    (pathBelow names).length ≠ 1 := by
  cases names with
  | nil => exact Nat.zero_ne_one
  | cons name names =>
    have hSome := (hNames name mem_cons_self).1
    have hPos := length_pos_iff.mpr hSome
    rw [pathBelow_length]
    omega

section

variable (hLeft : PathLeft depth names path)
include hLeft

theorem PathLeft.root (hDepth : depth ≤ 1) :
    names = [] := by
  have hFew := hLeft.hFew
  exact eq_nil_of_length_eq_zero (by omega)

theorem PathLeft.push_eq (name : Str) :
    pushPath path name = pathBelow (name :: names) := by
  unfold pushPath
  rcases hLeft.hPath with hPath | ⟨hDepth, hPath⟩
  · have hLength := pathBelow_length_ne_one hLeft.hNames
    rw [hPath, if_pos hLength, append_assoc, pathBelow]
    rfl
  · rw [hPath, hLeft.root (Nat.le_of_eq hDepth)]
    rfl

theorem PathLeft.push (hName : depth = 0 ↔ name = []) (hSlash : slash ∉ name) :
    PathLeft (depth + 1) (if depth = 0 then names else name :: names) (pushPath path name) := by
  have hPush := hLeft.push_eq name
  by_cases hZero : depth = 0
  · have hEmpty := hLeft.root (by omega)
    rw [if_pos hZero]
    rw [hEmpty, hName.mp hZero] at hPush
    refine ⟨.inr ⟨by omega, ?_⟩, ?_, hLeft.hNames⟩
    · rw [hName.mp hZero]
      exact hPush
    · rw [hEmpty]
      exact Nat.zero_le _
  · have hFew := hLeft.hFew
    rw [if_neg hZero]
    refine ⟨.inl hPush, ?_, ?_⟩
    · rw [length_cons]
      omega
    intro x hx
    rcases mem_cons.mp hx with rfl | hx
    · exact ⟨fun hEmpty => hZero (hName.mpr hEmpty), hSlash⟩
    · exact hLeft.hNames x hx

theorem PathLeft.pop_eq : popPath path = pathBelow (names.drop 1) := by
  rcases hLeft.hPath with hPath | ⟨hDepth, hPath⟩
  · rw [hPath]
    cases names with
    | nil => rfl
    | cons name names =>
      have hSlash := (hLeft.hNames name mem_cons_self).2
      exact popPath_append _ hSlash
  · rw [hPath, hLeft.root (Nat.le_of_eq hDepth)]
    rfl

end

theorem clobber_append (path : Str) (hName : slash ∉ name) :
    clobber (path ++ slash :: name) = path ++ 0 :: name := by
  unfold clobber
  rw [popPath_append path hName, set_append_right _ _ (Nat.le_refl _), Nat.sub_self]
  rfl

/- The path that a retried end leaves has lost a name more. -/
theorem PathLeft.clobber_pop_eq (hLeft : PathLeft depth names path) :
    popPath (clobber path) = pathBelow (names.drop 2) := by
  rcases hLeft.hPath with hPath | ⟨hDepth, hPath⟩
  · rw [hPath]
    cases names with
    | nil => rfl
    | cons name names =>
      have hSlash := (hLeft.hNames name mem_cons_self).2
      rw [pathBelow, clobber_append _ hSlash]
      cases names with
      | nil =>
        have hNone : slash ∉ (0 : UInt8) :: name := by
          simp only [mem_cons, not_or]
          exact ⟨by decide, hSlash⟩
        unfold popPath
        rw [pathBelow, nil_append, dropWhile_eq_nil_iff.mpr]
        · rfl
        · intro c hc
          refine decide_eq_true ?_
          rintro rfl
          exact hNone (mem_reverse.mp hc)
      | cons parent names =>
        have hParent := (hLeft.hNames parent (mem_cons_of_mem name mem_cons_self)).2
        rw [pathBelow, append_assoc, cons_append]
        refine popPath_append _ ?_
        simp only [mem_append, mem_cons, not_or]
        exact ⟨hParent, by decide, hSlash⟩
  · rw [hPath, hLeft.root (Nat.le_of_eq hDepth)]
    rfl

theorem PathLeft.drop {n : Nat} (hLeft : PathLeft depth names path) (hSome : n ≠ 0) :
    PathLeft (depth - 1) (names.drop n) (pathBelow (names.drop n)) := by
  have hFew := hLeft.hFew
  refine ⟨.inl rfl, ?_, ?_⟩
  · rw [length_drop]
    omega
  · exact fun x hx => hLeft.hNames x (mem_of_mem_drop hx)

theorem pushPath_length_le (name : Str) (hLe : path.length ≤ path'.length) :
    (pushPath path name).length ≤ (pushPath path' name).length := by
  unfold pushPath
  split_ifs
  all_goals
    simp only [length_append, length_cons, length_nil]
    omega

end Path

----
-- One Tag
----

/- What is wanted in the innermost node. -/
def wantSeen (bits : List Bool) : Nat :=
  if bits.headD false then 2
  else if bits.tail.headD false then 1
  else 0

/- What was wanted around each of the open nodes. -/
def savedSeen : List Bool → List Nat
  | [] => []
  | _ :: bits => wantSeen bits :: savedSeen bits

/- The buffer as the other finder has it. -/
def pathAfter (path : Str) : Tag → Str
  | .beginNode name => pushPath path name
  | .endNode => popPath path
  | .prop _ _ | .nop | .fin => path

/- Each path fits that the other finder builds. -/
def Fits (pathLen : Nat) : Str → List Tag → Prop
  | _, [] => True
  | path, tag :: rest =>
    (∀ name, tag = .beginNode name → path.length + 2 + name.length < pathLen) ∧
      Fits pathLen (pathAfter path tag) rest

/- The names of open nodes, without that of the root. -/
def belowRoot (nodes : List Str) : List Str :=
  nodes.dropLast

/-
  The pointers follow what is seen.  The path has lost some
  of the names, so that it is not longer than `path`, which
  is the one that has all of them.
-/
structure Tracks
    (nodes : List Str) (path : Str) (seen : Seen)
    (p : Ptrs) : Prop where
  hWant : p.want = wantSeen seen.bits
  hStack : p.stack = savedSeen seen.bits
  hDepth : seen.bits.length = nodes.length
  hLeft : PathLeft nodes.length seen.names p.path
  hAll : PathLeft nodes.length (belowRoot nodes) path
  hSub : seen.names.Sublist (belowRoot nodes)
  hShort : p.path.length ≤ path.length
  hDone : p.done = .nothing

section Tags

variable {req : Request} {nodes : List Str} {path : Str} {seen : Seen} {p : Ptrs} {rest : List Tag}

theorem savedSeen_length (bits : List Bool) :
    (savedSeen bits).length = bits.length := by
  induction bits with
  | nil => rfl
  | cons bit bits ih => rw [savedSeen, length_cons, ih, length_cons]

theorem two_le_wantSeen (bits : List Bool) :
    decide (2 ≤ wantSeen bits) = bits.headD false := by
  unfold wantSeen
  cases bits.headD false with
  | true => rfl
  | false => cases bits.tail.headD false <;> rfl

theorem wantSeen_ne_zero (bits : List Bool) :
    decide (wantSeen bits ≠ 0) = (bits.headD false || bits.tail.headD false) := by
  unfold wantSeen
  cases bits.headD false with
  | true => rfl
  | false => cases bits.tail.headD false <;> rfl

/- The answer for a tag, and where the pointers are then. -/
structure Answers
    (req : Request) (nodes : List Str) (path : Str) (seen : Seen)
    (isRetried : Bool) (tag : Tag) (rest : List Tag) (p : Ptrs)
    (v : NextVisit) : Prop where
  hIncluded : v.included = seen.selects req.inc req.excProp tag
  hStop : v.included = false → v.stopAt =
      if tag = .endNode then p.nextoffset + tag.size
      else p.nextoffset
  hTracks : tag ≠ .fin →
    Tracks (openAfter nodes tag) (pathAfter path tag) (seen.next req.inc isRetried tag) v.ptrs
  hOffset : v.ptrs.nextoffset = p.nextoffset + tag.size
  hRest : v.ptrs.rest = rest
  hFin : tag = .fin → v.ptrs.done = .struct

/- A tag that neither opens nor closes a node. -/
theorem Tracks.stay (hTracks : Tracks nodes path seen p) (offset : Nat) (rest : List Tag) :
    Tracks nodes path seen { p with nextoffset := offset, rest } :=
  ⟨hTracks.hWant, hTracks.hStack, hTracks.hDepth,
    hTracks.hLeft, hTracks.hAll, hTracks.hSub, hTracks.hShort, hTracks.hDone⟩

theorem belowRoot_cons (name : Str) (nodes : List Str) :
    belowRoot (name :: nodes) =
      if nodes.length = 0 then belowRoot nodes
      else name :: belowRoot nodes := by
  cases nodes with
  | nil => rfl
  | cons parent nodes => rfl

variable {name : Str}

theorem Tracks.enter (hTracks : Tracks nodes path seen p) (hName : NameOk nodes name)
    (req : Request) (offset : Nat) (rest : List Tag) :
    Tracks (name :: nodes) (pushPath path name) (seen.next req.inc false (.beginNode name))
      { p with
        want := wantSeen (seen.finds req.inc name :: seen.bits)
        stack := p.want :: p.stack
        path := pushPath p.path name
        nextoffset := offset
        rest } := by
  have hRoot : nodes.length = 0 ↔ name = [] := by
    rw [length_eq_zero_iff]
    exact hName.1
  have hEmpty : (seen.bits.isEmpty = true) = (nodes.length = 0) := by
    rw [← hTracks.hDepth, List.isEmpty_iff, length_eq_zero_iff]
  have hAll := hTracks.hAll.push hRoot hName.2.1
  have hLeft := hTracks.hLeft.push hRoot hName.2.1
  rw [← belowRoot_cons] at hAll
  constructor
  · rfl
  · simp only [Seen.next, savedSeen]
    rw [← hTracks.hWant, ← hTracks.hStack]
  · exact congrArg (· + 1) hTracks.hDepth
  · simp only [Seen.next, hEmpty]
    exact hLeft
  · exact hAll
  · simp only [Seen.next, hEmpty]
    rw [belowRoot_cons]
    split_ifs
    · exact hTracks.hSub
    · exact hTracks.hSub.cons_cons name
  · exact pushPath_length_le name hTracks.hShort
  · exact hTracks.hDone

/- The end of a node, in its first visit or in its second. -/
theorem Tracks.leave {left : Str} {isRetried : Bool} (hTracks : Tracks (name :: nodes) path seen p)
    (hPop : popPath left = pathBelow (seen.names.drop (if isRetried then 2 else 1)))
    (req : Request) (offset : Nat) (rest : List Tag) :
    Tracks nodes (popPath path) (seen.next req.inc isRetried .endNode)
      { p with
        want := wantSeen seen.bits.tail
        stack := savedSeen seen.bits.tail
        path := popPath left
        nextoffset := offset
        rest } := by
  have hBelow : belowRoot nodes = (belowRoot (name :: nodes)).drop 1 := by
    rw [belowRoot_cons]
    cases nodes with
    | nil => rfl
    | cons parent nodes => rfl
  have hSub : (seen.names.drop (if isRetried then 2 else 1)).Sublist (belowRoot nodes) := by
    rw [hBelow]
    have hOne : (seen.names.drop 1).Sublist ((belowRoot (name :: nodes)).drop 1) :=
      hTracks.hSub.drop 1
    cases isRetried with
    | false => exact hOne
    | true =>
      rw [if_pos rfl, ← drop_drop (i := 1) (j := 1)]
      exact (drop_sublist 1 _).trans hOne
  have hNonzero : (if isRetried then 2 else 1) ≠ 0 := by cases isRetried <;> decide
  have hAllEq := hTracks.hAll.pop_eq
  have hAll := hTracks.hAll.drop Nat.one_ne_zero
  have hLeft := hTracks.hLeft.drop hNonzero
  rw [← hAllEq, ← hBelow] at hAll
  rw [← hPop] at hLeft
  constructor
  · rfl
  · rfl
  · have hDepth := hTracks.hDepth
    rw [length_cons] at hDepth
    simp only [Seen.next, length_tail]
    omega
  · exact hLeft
  · exact hAll
  · exact hSub
  · rw [hPop, hAllEq, ← hBelow]
    exact pathBelow_sublist hSub
  · exact hTracks.hDone

theorem visitTag_beginNode
    (rest : List Tag) (hTracks : Tracks nodes path seen p) (hOk : TagOk nodes (.beginNode name))
    (hFits : path.length + 2 + name.length < req.pathLen) :
    ∃ v, visitTag req.config p rest (.beginNode name) = .ok v ∧ v.left = p.path ∧
      Answers req nodes path seen false (.beginNode name) rest p v := by
  have hStackLength := savedSeen_length seen.bits
  have hDepth := hOk.2
  have hLength := hTracks.hDepth
  have hShort := hTracks.hShort
  rw [← hTracks.hStack] at hStackLength
  have hPush := hTracks.hLeft.push_eq name
  have hEnter := hTracks.enter hOk.1 req (p.nextoffset + (Tag.beginNode name).size) rest
  have hNode : req.config.hInclude.node (pushPath p.path name) = seen.finds req.inc name := by
    rw [hPush]
    rfl
  have hSelects :
      seen.selects req.inc req.excProp (.beginNode name) =
        (seen.finds req.inc name || seen.bits.headD false) :=
    rfl
  have hAll : req.config.flags.allSubnodes = false := rfl
  have hPathLen : req.config.pathLen = req.pathLen := rfl
  simp only [visitTag, hAll, hNode, hPathLen, Bool.false_eq_true, if_false]
  rw [if_neg (by omega), if_neg (by omega)]
  have hWant := hTracks.hWant
  cases hFinds : seen.finds req.inc name with
  | true =>
    rw [hFinds] at hSelects hEnter
    rw [if_pos rfl]
    refine ⟨_, rfl, rfl, hSelects.symm, nofun, fun _ => hEnter, rfl, rfl, nofun⟩
  | false =>
    rw [hFinds, Bool.false_or] at hSelects
    rw [hFinds] at hEnter
    rw [if_neg Bool.false_ne_true]
    unfold wantSeen at hWant hEnter
    rw [headD_cons, if_neg Bool.false_ne_true, tail_cons] at hEnter
    cases hOwn : seen.bits.headD false with
    | true =>
      rw [hOwn, if_pos rfl] at hWant hEnter
      rw [hWant] at hEnter ⊢
      refine ⟨_, rfl, rfl, ?_, nofun, fun _ => hEnter, rfl, rfl, nofun⟩
      rw [hSelects, hOwn]
      rfl
    | false =>
      rw [hOwn, if_neg Bool.false_ne_true] at hWant hEnter
      have hOut := (hSelects.trans hOwn).symm
      by_cases hOne : p.want = 1
      · rw [hOne] at hEnter ⊢
        exact ⟨_, rfl, rfl, hOut, fun _ => rfl, fun _ => hEnter, rfl, rfl, nofun⟩
      · have hZero : p.want = 0 := by
          split_ifs at hWant <;> omega
        rw [hZero] at hEnter ⊢
        exact ⟨_, rfl, rfl, hOut, fun _ => rfl, fun _ => hEnter, rfl, rfl, nofun⟩

theorem visitTag_endNode {left : Str} (req : Request) (rest : List Tag) (isRetried : Bool)
    (hTracks : Tracks nodes path seen p) (hSome : nodes ≠ [])
    (hPop : popPath left = pathBelow (seen.names.drop (if isRetried then 2 else 1))) :
    ∃ v, visitTag req.config { p with path := left } rest .endNode = .ok v ∧ v.left = clobber left ∧
      Answers req nodes path seen isRetried .endNode rest p
        v := by
  cases nodes with
  | nil => exact absurd rfl hSome
  | cons name nodes =>
    have hStack := hTracks.hStack
    have hDepth := hTracks.hDepth
    cases hBits : seen.bits with
    | nil =>
      rw [hBits] at hDepth
      exact absurd hDepth (Nat.succ_ne_zero _).symm
    | cons bit bits =>
      have hLeave := hTracks.leave hPop req (p.nextoffset + Tag.endNode.size) rest
      have hTail : seen.bits.tail = bits := congrArg List.tail hBits
      rw [hTail] at hLeave
      rw [hBits, savedSeen] at hStack
      rw [hStack]
      refine ⟨_, rfl, rfl, ?_, ?_, fun _ => hLeave, rfl, rfl, nofun⟩
      · simp only
        rw [hTracks.hWant]
        exact wantSeen_ne_zero seen.bits
      · exact fun _ => if_neg (by
          rintro ⟨-, hFlag⟩
          exact absurd hFlag Bool.false_ne_true)

/- A tag is visited, and once more if the visit fails. -/
theorem visitTag_answers {tag : Tag} (hTracks : Tracks nodes path seen p) (hOk : TagOk nodes tag)
    (hFits : Fits req.pathLen path (tag :: rest)) :
    ∃ v, visitTag req.config p rest tag = .ok v ∧ Answers req nodes path seen false tag rest p v ∧
      ∃ v', visitTag req.config { p with path := v.left } rest tag = .ok v' ∧
        Answers req nodes path seen true tag rest p v' := by
  have hWant := two_le_wantSeen seen.bits
  rw [← hTracks.hWant] at hWant
  cases tag with
  | beginNode name =>
    rcases visitTag_beginNode rest hTracks hOk (hFits.1 name rfl) with ⟨v, hVisit, hLeft, hAnswers⟩
    refine ⟨v, hVisit, hAnswers, v, ?_, ?_⟩
    · rw [hLeft]
      exact hVisit
    · exact ⟨hAnswers.hIncluded, hAnswers.hStop, hAnswers.hTracks, hAnswers.hOffset, hAnswers.hRest,
        nofun⟩
  | endNode =>
    rcases visitTag_endNode req rest false hTracks hOk hTracks.hLeft.pop_eq with
      ⟨v, hVisit, hLeft, hAnswers⟩
    rcases visitTag_endNode req rest true hTracks hOk hTracks.hLeft.clobber_pop_eq with
      ⟨v', hVisit', -, hAnswers'⟩
    refine ⟨v, hVisit, hAnswers, v', ?_, hAnswers'⟩
    rw [hLeft]
    exact hVisit'
  | prop name value =>
    have hAnswers : Answers req nodes path seen false (.prop name value) rest p
        { included :=
            match req.config.hInclude.prop name with
            | none => decide (2 ≤ p.want)
            | some val => val
          stopAt := p.nextoffset
          ptrs :=
            { p with
              nextoffset := p.nextoffset + (Tag.prop name value).size
              rest }
          left := p.path } := by
      refine ⟨?_, fun _ => rfl, fun _ => hTracks.stay _ rest, rfl, rfl, nofun⟩
      simp only [Request.config]
      rw [hWant]
      cases hExc : strInList name req.excProp with
      | true => simp only [if_true, Seen.selects, chosen, hExc, Bool.not_true, Bool.and_false]
      | false =>
        simp only [Bool.false_eq_true, if_false, Seen.selects, chosen, hExc, Bool.not_false,
          Bool.and_true]
    exact ⟨_, rfl, hAnswers, _, rfl,
      ⟨hAnswers.hIncluded, hAnswers.hStop, hAnswers.hTracks, rfl, rfl, nofun⟩⟩
  | nop =>
    exact ⟨_, rfl, ⟨hWant, fun _ => rfl, fun _ => hTracks.stay _ rest, rfl, rfl, nofun⟩, _, rfl,
      ⟨hWant, fun _ => rfl, fun _ => hTracks.stay _ rest, rfl, rfl, nofun⟩⟩
  | fin =>
    exact ⟨_, rfl, ⟨rfl, nofun, fun hFin => absurd rfl hFin, rfl, rfl, fun _ => rfl⟩, _, rfl,
      ⟨rfl, nofun, fun hFin => absurd rfl hFin, rfl, rfl, fun _ => rfl⟩⟩

end Tags

----
-- The Region That Waits
----

/- The region of this call, which the next one may join. -/
def RegionState.waiting (s : RegionState) : List Region :=
  if s.count = 0 then [] else [s.region]

def runBegin (before : List Piece) : Nat :=
  sizes (before.rdropWhile Piece.chosen)

/-
  A run that is open is joined with the region that waits, or
  is apart from it.
-/
structure OpenRun
    (base : Nat) (before : List Piece) (waiting emitted : List Region)
    (a : Nat) : Prop where
  hBegin : a = runBegin before
  hRun :
    ((runs base before).start = some (base + a) ∧ (runs base before).closed = waiting ++ emitted ∧
      ∀ q ∈ waiting, q.stop < base + a) ∨
    ∃ q, waiting = [q] ∧ 0 < q.size ∧ q.stop = base + a ∧ (runs base before).start = some q.offset ∧
      (runs base before).closed = emitted

/-
  What is closed by the runs is what was come back with, and
  the region that waits.
-/
structure Waits
    (base : Nat) (before : List Piece) (emitted : List Region)
    (s : RegionState) : Prop where
  hCount : s.count ≤ 1
  hEmitted : s.waiting = [] → emitted = []
  hNone : s.start = none →
    (runs base before).start = none ∧ (runs base before).closed = s.waiting ++ emitted
  hSome : ∀ a, s.start = some a → OpenRun base before s.waiting emitted a

section Waiting

variable {base a : Nat} {before : List Piece} {emitted waiting : List Region} {s : RegionState}
  {piece : Piece}

theorem runBegin_chosen (hChosen : piece.chosen = true) :
    runBegin (before ++ [piece]) = runBegin before := by
  unfold runBegin
  rw [rdropWhile_concat_pos _ _ _ hChosen]

theorem runBegin_last (hLast : lastChosen before = false) :
    runBegin before = sizes before := by
  unfold runBegin
  rcases eq_nil_or_concat before with rfl | ⟨front, p, rfl⟩
  · rfl
  · rw [concat_eq_append] at hLast ⊢
    unfold lastChosen at hLast
    rw [getLast?_concat] at hLast
    rw [rdropWhile_concat_neg]
    exact fun hChosen => Bool.false_ne_true (hLast.symm.trans hChosen)

theorem runBegin_le (before : List Piece) :
    runBegin before ≤ sizes before := by
  induction before using List.reverseRecOn with
  | nil => exact Nat.le_refl _
  | append_singleton front p ih =>
    by_cases hChosen : p.chosen = true
    · rw [runBegin_chosen hChosen, sizes_append]
      exact Nat.le_add_right_of_le ih
    · unfold runBegin
      rw [rdropWhile_concat_neg _ _ _ hChosen]

theorem OpenRun.region
    {stop : Nat} (hOpen : OpenRun base before waiting emitted a) (hStop : a ≤ stop) :
    ((∀ q ∈ waiting, q.stop < base + a) ∧ ((runs base before).close (base + stop)).closed =
        ⟨base + a, stop - a⟩ :: (waiting ++ emitted)) ∨
    ∃ q, waiting = [q] ∧ base + a = q.stop ∧ ((runs base before).close (base + stop)).closed =
        ⟨q.offset, base + a + (stop - a) - q.offset⟩ :: emitted := by
  unfold Runs.close
  rcases hOpen.hRun with ⟨hStart, hClosed, hApart⟩ | ⟨q, hWaiting, -, hJoin, hStart, hClosed⟩
  · refine .inl ⟨hApart, ?_⟩
    have hSize : base + stop - (base + a) = stop - a := by omega
    rw [hStart]
    simp only [hClosed, hSize]
  · refine .inr ⟨q, hWaiting, hJoin.symm, ?_⟩
    have hSize : base + a + (stop - a) = base + stop := by omega
    rw [hStart]
    simp only [hClosed, hSize]

theorem OpenRun.opensApart_iff
    (hOpen : OpenRun base before waiting emitted a) (hEmitted : waiting = [] → emitted = []) :
    opensApart base before = true ↔ waiting ≠ [] ∧ ∀ q ∈ waiting, q.stop < base + a := by
  have hBegin : base + sizes (before.rdropWhile Piece.chosen) = base + a := by
    rw [hOpen.hBegin]
    rfl
  unfold opensApart
  rw [hBegin]
  rcases hOpen.hRun with ⟨hStart, hClosed, hApart⟩ | ⟨q, hWaiting, hSize, hJoin, hStart, hClosed⟩
  · simp only [hStart, hClosed, beq_self_eq_true, Bool.and_true,
      Bool.not_eq_true', isEmpty_eq_false_iff, ne_eq, append_eq_nil_iff, not_and]
    constructor
    · exact fun hSome => ⟨fun hNone => hSome hNone (hEmitted hNone), hApart⟩
    · exact fun hSome hNone => absurd hNone hSome.1
  · unfold Region.stop at hJoin
    constructor
    · intro hTrue
      simp only [hStart, Bool.and_eq_true, beq_iff_eq, Option.some.injEq] at hTrue
      omega
    · rintro ⟨-, hApart⟩
      have hLess := hApart q (by
        rw [hWaiting]
        exact mem_cons_self)
      unfold Region.stop at hLess
      omega

section

variable (hWaits : Waits base before emitted s)
include hWaits

/- The state holds after one piece more. -/
theorem Waits.chosen_open (hChosen : piece.chosen = true) (hStart : s.start = some a) (p : Ptrs) :
    Waits base (before ++ [piece]) emitted { s with ptrs := p, start := some a } := by
  have hOpen := hWaits.hSome a hStart
  have hAdd : ∀ x, (runs base before).start = some x →
      (runs base (before ++ [piece])).start = some x ∧
        (runs base (before ++ [piece])).closed = (runs base before).closed := by
    intro x hx
    rw [runs_append]
    unfold Runs.add
    rw [if_pos hChosen, hx]
    exact ⟨hx, rfl⟩
  refine ⟨hWaits.hCount, hWaits.hEmitted, nofun, ?_⟩
  rintro a' ha
  cases ha
  refine ⟨?_, ?_⟩
  · rw [runBegin_chosen hChosen]
    exact hOpen.hBegin
  · rcases hOpen.hRun with ⟨hRun, hClosed, hApart⟩ | ⟨q, hWaiting, hSize, hJoin, hRun, hClosed⟩
    · rcases hAdd _ hRun with ⟨hRun', hClosed'⟩
      exact .inl ⟨hRun', hClosed'.trans hClosed, hApart⟩
    · rcases hAdd _ hRun with ⟨hRun', hClosed'⟩
      exact .inr ⟨q, hWaiting, hSize, hJoin, hRun', hClosed'.trans hClosed⟩

theorem Waits.chosen_begin
    (hSized : Sized before) (hChosen : piece.chosen = true) (hStart : s.start = none) (p : Ptrs) :
    Waits base (before ++ [piece]) emitted { s with ptrs := p, start := some (sizes before) } := by
  rcases hWaits.hNone hStart with ⟨hRun, hClosed⟩
  have hOrdered : (runs base before).Ordered := ordered_runs hSized
  have hPos := runs_pos base before
  have hLast : lastChosen before = false := by
    rw [← runs_start base before, hRun]
    rfl
  refine ⟨hWaits.hCount, hWaits.hEmitted, nofun, ?_⟩
  rintro a' ha
  cases ha
  refine ⟨?_, ?_⟩
  · rw [runBegin_chosen hChosen, runBegin_last hLast]
  · rw [runs_append]
    unfold Runs.add
    rw [if_pos hChosen, hRun]
    rcases (runs base before).begin_cases with ⟨r, rest, hEq, hJoin, hBegin⟩ | ⟨hApart, hBegin⟩
    · rw [hPos] at hJoin
      simp only [isNone_none, if_true, hBegin]
      rw [hEq] at hClosed
      have hFirst := hOrdered.hSize r (by
        rw [hEq]
        exact mem_cons_self)
      cases hWaiting : s.waiting with
      | nil =>
        rw [hWaiting, hWaits.hEmitted hWaiting] at hClosed
        exact absurd hClosed (cons_ne_nil r rest)
      | cons q more =>
        have hOnly : more = [] := by
          unfold RegionState.waiting at hWaiting
          split_ifs at hWaiting
          exact (List.cons.inj hWaiting).2.symm
        subst hOnly
        rw [hWaiting] at hClosed
        rcases List.cons.inj hClosed with ⟨rfl, hRest⟩
        exact .inr ⟨r, hWaiting, hFirst, hJoin, rfl, hRest⟩
    · simp only [isNone_none, if_true, hBegin, hPos]
      refine .inl ⟨trivial, hClosed, ?_⟩
      intro q hq
      have hHead : (runs base before).closed.head? = some q := by
        rw [hClosed]
        unfold RegionState.waiting at hq ⊢
        split_ifs at hq ⊢ with hZero
        · exact absurd hq not_mem_nil
        · rw [mem_singleton.mp hq]
          rfl
      have hMem : q ∈ (runs base before).closed := mem_of_mem_head? hHead
      have hLe := hOrdered.hClosed q hMem
      have hNe := hApart q hHead
      omega

theorem Waits.skip (hChosen : piece.chosen = false) (hStart : s.start = none) (p : Ptrs) :
    Waits base (before ++ [piece]) emitted { s with ptrs := p, start := none } := by
  rcases hWaits.hNone hStart with ⟨hRun, hClosed⟩
  refine ⟨hWaits.hCount, hWaits.hEmitted, fun _ => ?_, nofun⟩
  rw [runs_append]
  unfold Runs.add Runs.close
  rw [hChosen, if_neg Bool.false_ne_true, hRun]
  exact ⟨hRun, hClosed⟩

end

theorem add_not_chosen (r : Runs) (hChosen : piece.chosen = false) :
    (r.add piece).start = none ∧ (r.add piece).closed =
        (r.close (if piece.tail then r.pos + piece.size
          else r.pos)).closed := by
  unfold Runs.add
  rw [hChosen, if_neg Bool.false_ne_true]
  refine ⟨?_, rfl⟩
  unfold Runs.close
  cases hStart : r.start with
  | none => exact hStart
  | some a => rfl

/-
  A region is added to those that wait, unless another one
  waits that it is apart from.
-/
theorem Waits.addRegion {stop : Nat}
    (hWaits : Waits base before emitted s) (hStart : s.start = some a) (hStop : a ≤ stop) :
    (opensApart base before = false ∧
      ∃ r, addRegion (base + a) (stop - a) s = (true, { s with region := r, count := 1 }) ∧
        ((runs base before).close (base + stop)).closed = r :: emitted) ∨
    (opensApart base before = true ∧
      addRegion (base + a) (stop - a) s = (false, { s with count := 2 }) ∧
      ((runs base before).close (base + stop)).closed =
        ⟨base + a, stop - a⟩ :: s.region :: emitted) := by
  have hOpen := hWaits.hSome a hStart
  have hIff := hOpen.opensApart_iff hWaits.hEmitted
  have hCount := hWaits.hCount
  have hEmitted := hWaits.hEmitted
  have hRegion := hOpen.region hStop
  unfold RegionState.waiting at *
  unfold Fdt.addRegion
  by_cases hZero : s.count = 0
  · rw [if_pos hZero] at hIff hRegion hEmitted
    refine .inl ⟨?_, ⟨base + a, stop - a⟩, ?_, ?_⟩
    · exact Bool.eq_false_iff.mpr fun hTrue => (hIff.mp hTrue).1 rfl
    · rw [if_neg (by omega), if_pos (by omega), hZero]
    · rcases hRegion with ⟨-, hClosed⟩ | ⟨q, hNil, -⟩
      · exact hClosed
      · exact absurd hNil.symm (cons_ne_nil q [])
  · have hOne : s.count = 1 := by omega
    rw [if_neg hZero] at hIff hRegion
    rcases hRegion with ⟨hApart, hClosed⟩ | ⟨q, hEq, hJoin, hClosed⟩
    · have hLess := hApart s.region mem_cons_self
      unfold Region.stop at hLess
      refine .inr ⟨hIff.mpr ⟨cons_ne_nil _ _, hApart⟩, ?_, hClosed⟩
      rw [if_neg (by omega), if_neg (by omega), hOne]
    · rcases List.cons.inj hEq with ⟨rfl, -⟩
      refine .inl ⟨?_, _, ?_, hClosed⟩
      · refine Bool.eq_false_iff.mpr fun hTrue => ?_
        have hLess := (hIff.mp hTrue).2 s.region mem_cons_self
        omega
      · unfold Region.stop at hJoin
        rw [if_pos (by omega), ← hOne]

end Waiting

----
-- All The Calls
----

/- What a call gives after its loop, and the calls after it. -/
def collectLooped (c : Config) (fuel : Nat) (looped : Except FdtError (Bool × RegionState)) :
    Option (List Region) :=
  match
    looped.bind fun r =>
      if r.1 then .ok r.2
      else
        (nextEnd c r.2).bind fun s =>
          if s.count = 0 then .error .notfound else .ok s
  with
  | .ok s' => (collect c fuel s').map (s'.region :: ·)
  | .error .notfound => some []
  | .error _ => none

section Calls

variable {c : Config} {s : RegionState} {v : NextVisit} {tag : Tag} {rest : List Tag} {fuel a : Nat}

theorem collect_loop (hDone : s.ptrs.done = .nothing) :
    collect c (fuel + 1) s =
      collectLooped c fuel (nextLoop c s.ptrs.rest { s with count := 0 }) := by
  unfold collect nextRegion collectLooped
  simp only [hDone, if_true]

theorem collect_again {left : Str} {n : Nat} (hDone : s.ptrs.done = .nothing) :
    collect c (fuel + 1)
        { s with
          ptrs := { s.ptrs with path := left }
          count := n } =
      collectLooped c fuel
        (nextLoop c s.ptrs.rest
          { s with
            ptrs := { s.ptrs with path := left }
            count := 0 }) :=
  collect_loop hDone

theorem collectLooped_found (c : Config) (fuel : Nat) (s : RegionState) :
    collectLooped c fuel (.ok (true, s)) = (collect c fuel s).map (s.region :: ·) := rfl

theorem collect_end (hDone : s.ptrs.done ≠ .nothing) :
    collect c (fuel + 1) s = collectLooped c fuel (.ok (false, { s with count := 0 })) := by
  unfold collect nextRegion collectLooped
  simp only [hDone, if_false]

theorem collect_strings (hDone : s.ptrs.done = .strings) :
    collect c (fuel + 1) s = some [] := by
  have hEnd :
      nextEnd c { s with count := 0 } = .ok { s with
          ptrs := { s.ptrs with done := .strings }
          count := 0 } := by
    unfold nextEnd
    simp only [hDone]
  rw [collect_end (by rw [hDone]; decide)]
  unfold collectLooped
  simp only [Except.bind, Bool.false_eq_true, if_false, hEnd, if_true]

theorem addRegion_first (offset size : Nat) (hCount : s.count = 0) :
    addRegion offset size s = (true, { s with region := ⟨offset, size⟩, count := 1 }) := by
  unfold addRegion
  rw [if_neg (fun hSome => hSome.1 hCount), if_pos (by omega), hCount]

section

variable (hVisit : visitTag c s.ptrs rest tag = .ok v)
include hVisit

theorem nextLoop_included (hIncluded : v.included = true) :
    nextLoop c (tag :: rest) s =
      if tag = .fin then
        .ok (false,
          { s with
            ptrs := v.ptrs
            start := some (s.start.getD s.ptrs.nextoffset) })
      else
        nextLoop c rest
          { s with
            ptrs := v.ptrs
            start := some (s.start.getD s.ptrs.nextoffset) } := by
  rw [nextLoop, hVisit]
  simp only [Except.bind, hIncluded]
  cases s.start <;> rfl

theorem nextLoop_skip
    (hIncluded : v.included = false) (hStart : s.start = none) (hFin : tag ≠ .fin) :
    nextLoop c (tag :: rest) s = nextLoop c rest { s with ptrs := v.ptrs, start := none } := by
  rw [nextLoop, hVisit]
  simp only [Except.bind, hIncluded, hStart, hFin, if_false, Bool.false_and, Bool.false_eq_true]

theorem nextLoop_add (hIncluded : v.included = false) (hStart : s.start = some a) :
    nextLoop c (tag :: rest) s =
      match addRegion (c.offDtStruct + a) (v.stopAt - a) s with
      | (true, s') => nextLoop c rest { s' with ptrs := v.ptrs, start := none }
      | (false, s') =>
        .ok (true,
          { s' with
            ptrs := { s.ptrs with path := v.left } }) := by
  rw [nextLoop, hVisit]
  simp only [Except.bind, hIncluded, hStart, Bool.false_and, Bool.false_eq_true, if_false]

end

theorem nextLoop_again
    {left : Str} (hVisit : visitTag c { s.ptrs with path := left } rest tag = .ok v)
    (hIncluded : v.included = false) (hStart : s.start = some a) :
    nextLoop c (tag :: rest)
        { s with
          ptrs := { s.ptrs with path := left }
          count := 0 } =
      nextLoop c rest
        { s with
          ptrs := v.ptrs
          start := none
          region := ⟨c.offDtStruct + a, v.stopAt - a⟩
          count := 1 } := by
  rw [nextLoop, hVisit]
  simp only [Except.bind, hIncluded, hStart, Bool.false_and, Bool.false_eq_true, if_false]
  rw [addRegion_first _ _ rfl]

end Calls

/- The state within a call, after the tags of these pieces. -/
structure Finder
    (req : Request) (nodes : List Str) (path : Str) (seen : Seen)
    (before : List Piece) (emitted : List Region) (rest : List Tag)
    (s : RegionState) : Prop where
  hTracks : Tracks nodes path seen s.ptrs
  hWaits : Waits req.offDtStruct before emitted s
  hOffset : s.ptrs.nextoffset = sizes before
  hRest : s.ptrs.rest = rest
  hSized : Sized before

section Loop

variable {req : Request} {nodes : List Str} {path : Str} {seen : Seen} {before : List Piece}
  {emitted : List Region}
  {rest : List Tag}
  {tag : Tag}
  {s : RegionState}
  {fuel : Nat}

theorem runs_regions (base : Nat) (pieces : List Piece) :
    (runs base pieces).regions =
      ((runs base pieces).close (base + sizes pieces)).closed.reverse := by
  unfold Runs.regions
  rw [runs_pos]

/- The last region, which ends with the tags. -/
theorem collectLooped_end (hWaits : Waits req.offDtStruct before emitted s)
    (hStart : s.start.isSome = true) (hDone : s.ptrs.done = .struct)
    (hOffset : s.ptrs.nextoffset = sizes before) (hSize : req.sizeDtStruct = sizes before) :
    ∃ found, collectLooped req.config (fuel + 2) (.ok (false, s)) = some found ∧
        emitted.reverse ++ found = (runs req.offDtStruct before).regions := by
  rcases isSome_iff_exists.mp hStart with ⟨a, ha⟩
  have hBegin : a ≤ sizes before := by
    rw [(hWaits.hSome a ha).hBegin]
    exact runBegin_le before
  have hEnds : ∀ (s' : RegionState) (n : Nat) (r : Region),
      s'.ptrs.done = .struct → s'.ptrs.nextoffset = sizes before → s'.start = some a →
      addRegion (req.offDtStruct + a) (sizes before - a) s' =
        (true, { s' with region := r, count := 1 }) →
      collectLooped req.config (n + 1) (.ok (false, s')) = some [r] := by
    intro s' n r hDone' hOffset' hStart' hAdd
    have hBase : req.config.offDtStruct = req.offDtStruct := rfl
    have hTotal : req.config.sizeDtStruct = sizes before := hSize
    have hEnd : nextEnd req.config s' = .ok { s' with
          ptrs := { s'.ptrs with done := .strings }
          region := r
          count := 1 } := by
      unfold nextEnd
      simp only [hDone', hOffset', hTotal, hBase, hStart',
        ne_eq, not_true_eq_false, if_false, getD_some, hAdd]
    unfold collectLooped
    simp only [Except.bind, Bool.false_eq_true, if_false, hEnd, Nat.one_ne_zero]
    rw [collect_strings rfl]
    rfl
  have hClosed := runs_regions req.offDtStruct before
  rcases hWaits.addRegion ha hBegin with ⟨-, r, hAdd, hRuns⟩ | ⟨-, hAdd, hRuns⟩
  · refine ⟨[r], hEnds s (fuel + 1) r hDone hOffset ha hAdd, ?_⟩
    rw [hClosed, hRuns, reverse_cons]
  · have hBase : req.config.offDtStruct = req.offDtStruct := rfl
    have hTotal : req.config.sizeDtStruct = sizes before := hSize
    have hEnd : nextEnd req.config s = .ok { s with count := 2 } := by
      unfold nextEnd
      simp only [hDone, hOffset, hTotal, hBase, ha, ne_eq,
        not_true_eq_false, if_false, getD_some, hAdd]
    have hAgain := hEnds { s with count := 0 } fuel
      ⟨req.offDtStruct + a, sizes before - a⟩ hDone hOffset ha
      (addRegion_first _ _ rfl)
    refine ⟨[s.region, ⟨req.offDtStruct + a, sizes before - a⟩], ?_, ?_⟩
    · unfold collectLooped
      simp only [Except.bind, Bool.false_eq_true, if_false, hEnd]
      rw [if_neg (by decide)]
      simp only
      rw [collect_end (by
        rw [hDone]
        decide), hAgain]
      rfl
    · rw [hClosed, hRuns, reverse_cons, reverse_cons, append_assoc]
      rfl

/- A tag, as a piece, by the paths that are seen. -/
def Seen.piece (req : Request) (seen : Seen) (tag : Tag) :
    Piece :=
  pieceOf (seen.selects req.inc req.excProp tag) tag

variable {isRetried : Bool} {s' : RegionState}

theorem Answers.finder
    {p : Ptrs} {v : NextVisit} (hAnswers : Answers req nodes path seen isRetried tag rest p v)
    (hFin : tag ≠ .fin) (hOffset : p.nextoffset = sizes before) (hSized : Sized before)
    (hWaits : Waits req.offDtStruct (before ++ [seen.piece req tag])
      emitted s')
    (hPtrs : s'.ptrs = v.ptrs) :
    Finder req (openAfter nodes tag) (pathAfter path tag) (seen.next req.inc isRetried tag)
      (before ++ [seen.piece req tag]) emitted rest s' := by
  constructor
  · rw [hPtrs]
    exact hAnswers.hTracks hFin
  · exact hWaits
  · rw [hPtrs, hAnswers.hOffset, hOffset, sizes_append]
    rfl
  · rw [hPtrs]
    exact hAnswers.hRest
  · intro q hq
    rcases mem_append.mp hq with hq | hq
    · exact hSized q hq
    · rw [mem_singleton.mp hq]
      exact tag.size_pos

theorem Answers.stop
    {v : NextVisit} (hAnswers : Answers req nodes path seen isRetried tag rest s.ptrs v)
    (hIncluded : v.included = false) (hOffset : s.ptrs.nextoffset = sizes before) :
    sizes before ≤ v.stopAt ∧ (if (seen.piece req tag).tail then
        (runs req.offDtStruct before).pos + (seen.piece req tag).size
      else (runs req.offDtStruct before).pos) = req.offDtStruct + v.stopAt := by
  have hStop := hAnswers.hStop hIncluded
  have hTail : (seen.piece req tag).tail = decide (tag = .endNode) := rfl
  have hSize : (seen.piece req tag).size = tag.size := rfl
  rw [hTail, hSize, runs_pos, hStop, hOffset]
  by_cases hEnd : tag = .endNode
  · rw [if_pos hEnd, if_pos (decide_eq_true hEnd)]
    omega
  · rw [if_neg hEnd, if_neg (by
      rw [decide_eq_false hEnd]
      exact Bool.false_ne_true)]
    exact ⟨Nat.le_refl _, rfl⟩

theorem Waits.closed {piece : Piece} {base stop : Nat} (hChosen : piece.chosen = false)
    (hStop :
      (if piece.tail then (runs base before).pos + piece.size
      else (runs base before).pos) = stop)
    (hStart : s'.start = none) (hCount : s'.count = 1)
    (hClosed : ((runs base before).close stop).closed = s'.region :: emitted) :
    Waits base (before ++ [piece]) emitted s' := by
  have hWaiting : s'.waiting = [s'.region] := by
    unfold RegionState.waiting
    rw [hCount, if_neg Nat.one_ne_zero]
  have hAdd := add_not_chosen (runs base before) hChosen
  rw [hStop] at hAdd
  constructor
  · exact Nat.le_of_eq hCount
  · rw [hWaiting]
    exact fun hNil => absurd hNil (cons_ne_nil _ _)
  · intro _
    rw [runs_append, hWaiting]
    exact ⟨hAdd.1, hAdd.2.trans hClosed⟩
  · intro a ha
    rw [hStart] at ha
    exact absurd ha nofun

theorem retried_closed {base : Nat} {piece : Piece} (hNone : (runs base before).start = none) :
    retried base before piece = false := by
  simp [retried, opensApart, hNone]

theorem Seen.next_other {inc : List Str} (isRetried : Bool) (hEnd : tag ≠ .endNode) :
    seen.next inc isRetried tag = seen.next inc true tag := by
  cases tag with
  | endNode => exact absurd rfl hEnd
  | beginNode name => rfl
  | prop name value => rfl
  | nop => rfl
  | fin => rfl

/-
  The loop comes back with the regions of what is seen, by
  induction on the tags.  A call that ends with a region goes
  on with the tag that it left.
-/
theorem nextLoop_regions (hFinder : Finder req nodes path seen before emitted rest s)
    (hNested : Nested nodes rest) (hFits : Fits req.pathLen path rest)
    (hSize : req.sizeDtStruct = sizes (before ++ seenPieces req seen before rest))
    (hFuel : rest.length + 1 ≤ fuel) :
    ∃ found, collectLooped req.config fuel (nextLoop req.config rest s) = some found ∧
        emitted.reverse ++ found =
          (runs req.offDtStruct (before ++ seenPieces req seen before rest)).regions
    := by
  induction rest generalizing nodes path seen before emitted s fuel with
  | nil => exact hNested.elim
  | cons tag rest ih =>
    rcases hNested with ⟨hOk, hRest⟩
    rcases visitTag_answers hFinder.hTracks hOk hFits with
      ⟨v, hVisit, hAnswers, v', hVisit', hAnswers'⟩
    have hOffset := hFinder.hOffset
    have hSized := hFinder.hSized
    have hWaits := hFinder.hWaits
    have hChosen : (seen.piece req tag).chosen = v.included := hAnswers.hIncluded.symm
    have hPieces : before ++ seenPieces req seen before (tag :: rest) =
        (before ++ [seen.piece req tag]) ++ seenPieces req
            (seen.next req.inc (retried req.offDtStruct before (seen.piece req tag)) tag)
            (before ++ [seen.piece req tag]) rest := by
      rw [seenPieces, append_cons]
      rfl
    rw [hPieces] at hSize ⊢
    rw [length_cons] at hFuel
    cases hIncluded : v.included with
    | true =>
      rw [hIncluded] at hChosen
      have hOnce : retried req.offDtStruct before (seen.piece req tag) = false := by
        unfold retried
        rw [hChosen, Bool.not_true, Bool.and_false, Bool.false_and]
      rw [hOnce] at hSize ⊢
      rw [nextLoop_included hVisit hIncluded]
      have hNext : Waits req.offDtStruct (before ++ [seen.piece req tag]) emitted
          { s with
            ptrs := v.ptrs
            start := some (s.start.getD s.ptrs.nextoffset) } := by
        cases hStart : s.start with
        | some a => exact hWaits.chosen_open hChosen hStart v.ptrs
        | none =>
          rw [getD_none, hOffset]
          exact hWaits.chosen_begin hSized hChosen hStart v.ptrs
      by_cases hFin : tag = .fin
      · rw [if_pos hFin] at hRest ⊢
        subst hRest
        rw [seenPieces, append_nil] at hSize ⊢
        rcases Nat.exists_eq_add_of_le hFuel with ⟨n, rfl⟩
        rw [Nat.add_comm]
        refine collectLooped_end hNext rfl (hAnswers.hFin hFin) ?_ hSize
        rw [sizes_append, ← hOffset]
        exact hAnswers.hOffset
      · rw [if_neg hFin] at hRest ⊢
        exact ih (hAnswers.finder hFin hOffset hSized hNext rfl) hRest hFits.2 hSize (by omega)
    | false =>
      rw [hIncluded] at hChosen
      have hFin : tag ≠ .fin := by
        rintro rfl
        exact Bool.false_ne_true (hIncluded.symm.trans hAnswers.hIncluded)
      rw [if_neg hFin] at hRest
      cases hStart : s.start with
      | none =>
        rw [retried_closed (hWaits.hNone hStart).1] at hSize ⊢
        rw [nextLoop_skip hVisit hIncluded hStart hFin]
        exact ih (hAnswers.finder hFin hOffset hSized (hWaits.skip hChosen hStart v.ptrs) rfl)
          hRest hFits.2 hSize (by omega)
      | some a =>
        have hBegin : a ≤ sizes before := by
          rw [(hWaits.hSome a hStart).hBegin]
          exact runBegin_le before
        rcases hAnswers.stop hIncluded hOffset with ⟨hAfter, hStop⟩
        have hBase : req.config.offDtStruct = req.offDtStruct := rfl
        rw [nextLoop_add hVisit hIncluded hStart, hBase]
        rcases hWaits.addRegion hStart (Nat.le_trans hBegin hAfter) with ⟨hJoins, r, hAdd, hRuns⟩ |
          ⟨hApart, hAdd, hRuns⟩
        · have hOnce : retried req.offDtStruct before (seen.piece req tag) = false := by
            unfold retried
            rw [hJoins, Bool.and_false]
          rw [hOnce] at hSize ⊢
          rw [hAdd]
          exact ih
            (hAnswers.finder hFin hOffset hSized (Waits.closed hChosen hStop rfl rfl hRuns)
              rfl)
            hRest hFits.2 hSize (by omega)
        · have hSeen : seen.next req.inc (retried req.offDtStruct before (seen.piece req tag)) tag =
              seen.next req.inc true tag := by
            by_cases hEnd : tag = .endNode
            · subst hEnd
              unfold retried
              rw [hApart, hChosen]
              rfl
            · exact Seen.next_other _ hEnd
          rw [hSeen] at hSize ⊢
          rcases Nat.exists_eq_add_of_le' hFuel with ⟨k, rfl⟩
          -- the call ends, and the next one visits the
          -- tag with the path that this one has left
          have hStop' := (hAnswers'.hStop (hAnswers'.hIncluded.trans hChosen)).trans
            (hAnswers.hStop hIncluded).symm
          have hAgain := nextLoop_again hVisit' (hAnswers'.hIncluded.trans hChosen) hStart
          rw [hStop', hBase] at hAgain
          have hClosed : Waits req.offDtStruct (before ++ [seen.piece req tag])
              (s.region :: emitted)
              { s with
                ptrs := v'.ptrs
                start := none
                region := ⟨req.offDtStruct + a, v.stopAt - a⟩
                count := 1 } :=
            Waits.closed hChosen hStop rfl rfl hRuns
          rcases ih (hAnswers'.finder hFin hOffset hSized hClosed rfl) hRest hFits.2 hSize
              (Nat.le_add_left (rest.length + 1) k) with
            ⟨found, hFound, hEq⟩
          refine ⟨s.region :: found, ?_, ?_⟩
          · rw [hAdd]
            simp only
            rw [collectLooped_found, ← Nat.add_assoc, collect_again hFinder.hTracks.hDone,
              hFinder.hRest, hAgain, hFound]
            rfl
          · rw [reverse_cons, append_assoc] at hEq
            exact hEq

theorem sizes_seenPieces (req : Request) (seen : Seen) (before : List Piece) (rest : List Tag) :
    sizes (before ++ seenPieces req seen before rest) =
      rest.foldl (fun n tag => n + tag.size) (sizes before) := by
  induction rest generalizing seen before with
  | nil => rw [seenPieces, append_nil, foldl_nil]
  | cons tag rest ih =>
    rw [seenPieces, append_cons, ih, sizes_append]
    rfl

theorem nextRegionList_eq
    {block : List Tag} (hNested : Nested [] block) (hSize : req.sizeDtStruct = blockSize block)
    (hFits : Fits req.pathLen [] block) :
    nextRegionList req.config block =
      some (runs req.offDtStruct (seenPieces req firstSeen [] block)).regions := by
  have hFinder : Finder req [] [] firstSeen [] [] block (firstState block) :=
    ⟨⟨rfl, rfl, rfl, ⟨.inl rfl, Nat.le_refl _, nofun⟩, ⟨.inl rfl, Nat.le_refl _, nofun⟩, .slnil,
        Nat.le_refl _, rfl⟩,
      ⟨Nat.zero_le _, fun _ => rfl, fun _ => ⟨rfl, rfl⟩, nofun⟩,
      rfl, rfl, nofun⟩
  rcases nextLoop_regions hFinder hNested hFits
      (hSize.trans (sizes_seenPieces req firstSeen [] block).symm)
      (Nat.le_refl _) with
    ⟨found, hFound, hEq⟩
  unfold nextRegionList
  rw [collect_loop rfl]
  exact hFound.trans (congrArg some hEq)

end Loop

----
-- Paths That Fit
----

section Fit

variable {req : Request} {s : FindState}

theorem findTag_path {tag : Tag} {v : Visit} (hTag : findTag req s tag = .ok v) :
    (∀ name, tag = .beginNode name → s.path.length + 2 + name.length < req.pathLen) ∧
      v.state.path = pathAfter s.path tag := by
  cases tag with
  | beginNode name =>
    simp only [findTag] at hTag
    split_ifs at hTag with hDeep hLong
    all_goals
      cases hTag
      refine ⟨?_, rfl⟩
      rintro name' hName
      cases hName
      exact Nat.not_le.mp hLong
  | endNode =>
    constructor
    · intro name hName
      cases hName
    simp only [findTag] at hTag
    cases hStack : s.stack with
    | nil =>
      rw [hStack] at hTag
      cases hTag
    | cons want stack =>
      rw [hStack] at hTag
      cases hTag
      rfl
  | prop name value =>
    cases hTag
    constructor
    · intro name hName
      cases hName
    · rfl
  | nop =>
    cases hTag
    constructor
    · intro name hName
      cases hName
    · rfl
  | fin =>
    cases hTag
    constructor
    · intro name hName
      cases hName
    · rfl

/- Where the other finder gets to the end, its paths fit. -/
theorem findLoop_fits {rest : List Tag} {nodes : List Str} {s' : FindState}
    (hNested : Nested nodes rest) (hLoop : findLoop req rest s = .ok s') :
    Fits req.pathLen s.path rest := by
  induction rest generalizing nodes s with
  | nil => exact hNested.elim
  | cons tag rest ih =>
    rcases hNested with ⟨-, hRest⟩
    rw [findLoop] at hLoop
    cases hTag : findTag req s tag with
    | error e =>
      rw [hTag] at hLoop
      cases hLoop
    | ok v =>
      rw [hTag] at hLoop
      simp only [Except.bind] at hLoop
      rcases findTag_path hTag with ⟨hName, hPath⟩
      refine ⟨hName, ?_⟩
      rw [← hPath, ← (markRegion_kept req s.nextoffset v).2.2.1]
      by_cases hFin : tag = .fin
      · rw [if_pos hFin] at hRest
        rw [hRest]
        trivial
      · rw [if_neg hFin] at hRest hLoop
        exact ih hRest hLoop

end Fit

end Uboot.Fdt
