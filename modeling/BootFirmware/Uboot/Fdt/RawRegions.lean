import BootFirmware.Uboot.Fdt.Blob

/-
  `fdt_find_regions` on any tree, with the places of its
  arrays that it uses.

  The stack is an array among other variables, so that it is
  a function of all numbers: what stands at an index outside
  the array is unknown.

  Key definitions include:
    * `FindArgs` and `Locals`
    * `Access`
    * `findTag`, `markRegion` and `findLoop`
    * `fdtFindRegions`
    * `Comes` and `Orderly`

  The main results are:
    * `findLoop_safe` and `findLoop_visits`
    * `fdt_find_regions_safe`
    * `fdt_find_regions_reads_below_stack`
-/

----
-- The Function
----

namespace Uboot.Fdt.Raw

open List Option

/- `struct fdt_region`. -/
structure FdtRegion where
  offset : Int
  size : Int
deriving DecidableEq, Repr

/- The arguments besides the tree and the arrays. -/
structure FindArgs where
  inc : List Str
  excProp : List Str
  maxRegions : Int
  pathLen : Int
  addStringTab : Bool

/- The path is what stands in its buffer before `end`. -/
structure Locals where
  stack : Int → Int
  path : Str
  nextoffset : Int
  count : Nat
  start : Int
  depth : Int
  want : Int
  region : Memory FdtRegion

/- A use of `stack[]`, and a write to `path` or `region[]`. -/
inductive Access where
  | stack (i : Int)
  | path (i : Nat)
  | region (i : Nat)
deriving DecidableEq, Repr

/- The place is one of the array. -/
def Access.Ok (args : FindArgs) : Access → Prop
  | .stack i => 0 ≤ i ∧ i < FDT_MAX_DEPTH
  | .path i => i < args.pathLen
  | .region i => i < args.maxRegions

instance (args : FindArgs) (a : Access) : Decidable (a.Ok args) :=
  match a with
  | .stack _ => inferInstanceAs (Decidable (_ ∧ _))
  | .path _ => inferInstanceAs (Decidable (_ < _))
  | .region _ => inferInstanceAs (Decidable (_ < _))

/- `strcmp` finds the name of a property on the list. -/
def nameInList (b : Blob) (nameoff : Nat)
    (list : List Str) : Bool :=
  list.any fun item =>
    (List.range (item.length + 1)).all fun i =>
      b.memory (b.offDtStrings + toInt nameoff + i) = (item ++ [0]).getD i 0

/- `include` and `stop_at`, and what has been used. -/
structure Visit where
  included : Bool
  stopAt : Int
  accesses : List Access
  state : Locals

/- The part of the loop that looks at the tag. -/
def findTag (args : FindArgs) (b : Blob) (s : Locals) (tag : RawTag) (nextoffset : Int) :
    Except FdtError Visit :=
  let offset := s.nextoffset
  match tag with
  | .prop nameoff =>
    .ok
      { included :=
          decide (2 ≤ s.want) && !nameInList b nameoff args.excProp
        stopAt := offset
        accesses := []
        state := { s with nextoffset } }
  | .nop =>
    .ok
      { included := decide (2 ≤ s.want)
        stopAt := offset
        accesses := []
        state := { s with nextoffset } }
  | .beginNode name =>
    let depth := s.depth + 1
    if depth = FDT_MAX_DEPTH then
      .error .badstructure
    else if args.pathLen ≤ ((s.path.length + 2 + name.length : Nat) : Int) then
      .error .nospace
    else
      let path := pushPath s.path name
      let stack := Function.update s.stack depth s.want
      let accesses :=
        (List.range' s.path.length (path.length + 1 - s.path.length)).map .path ++ [.stack depth]
      let stopAt := if s.want = 1 then offset else nextoffset
      if strInList path args.inc then
        .ok
          { included := true
            stopAt
            accesses
            state :=
              { s with
                path, stack, depth, nextoffset, want := 2 } }
      else if s.want ≠ 0 then
        .ok
          { included := decide (s.want - 1 ≠ 0)
            stopAt
            accesses
            state :=
              { s with
                path, stack, depth, nextoffset
                want := s.want - 1 } }
      else
        .ok
          { included := false
            stopAt := offset
            accesses
            state := { s with path, stack, depth, nextoffset } }
  | .endNode =>
    let path := popPath s.path
    .ok
      { included := decide (s.want ≠ 0)
        stopAt := nextoffset
        accesses := [.stack s.depth, .path path.length]
        state :=
          { s with
            path, nextoffset
            want := s.stack s.depth
            depth := s.depth - 1 } }
  | .fin =>
    .ok
      { included := true
        stopAt := nextoffset
        accesses := []
        state := { s with nextoffset } }

/- `fdt_off_dt_struct` as an `int`. -/
def Blob.base (b : Blob) : Int :=
  toInt b.offDtStruct

/- Start a region, or go on with the one before it. -/
def startRegion (args : FindArgs) (b : Blob) (offset : Int)
    (s : Locals) : Locals :=
  let last := s.region (s.count - 1)
  if s.count ≠ 0 ∧ s.count ≤ args.maxRegions ∧ offset = last.offset + last.size - b.base then
    { s with
      start := last.offset - b.base
      count := s.count - 1 }
  else { s with start := offset }

/- Store a region, where there is room for it. -/
def storeRegion (args : FindArgs) (r : FdtRegion)
    (s : Locals) : List Access × Locals :=
  if s.count < args.maxRegions then
    ([.region s.count],
      { s with
        region := Function.update s.region s.count r
        count := s.count + 1
        start := -1 })
  else ([], { s with count := s.count + 1, start := -1 })

/- The part of the loop that starts and stores regions. -/
def markRegion (args : FindArgs) (b : Blob) (offset : Int)
    (v : Visit) : List Access × Locals :=
  let s :=
    if v.included ∧ v.state.start = -1 then
      startRegion args b offset v.state
    else v.state
  if ¬ v.included ∧ s.start ≠ -1 then
    storeRegion args ⟨b.base + s.start, v.stopAt - s.start⟩ s
  else ([], s)

/- What a call, or its loop, ends with, and what it used. -/
abbrev Traced (α : Type) :=
  Except FdtError α × List Access

/- The loop, with a bound on the tags that are read. -/
def findLoop (args : FindArgs) (b : Blob) :
    Nat → Locals → Option (Traced Locals)
  | 0, _ => none
  | tags + 1, s =>
    let (tag, nextoffset) := fdtNextTag b s.nextoffset.toNat
    match findTag args b s tag nextoffset with
    | .error e => some (.error e, [])
    | .ok v =>
      let (accesses, s') := markRegion args b s.nextoffset v
      let used := v.accesses ++ accesses
      if tag = .fin then some (.ok s', used)
      else
        (findLoop args b tags s').map fun r => (r.1, used ++ r.2)

/- What so many turns of it use, also where it goes on. -/
def findUsed (args : FindArgs) (b : Blob) :
    Nat → Locals → List Access
  | 0, _ => []
  | tags + 1, s =>
    let (tag, nextoffset) := fdtNextTag b s.nextoffset.toNat
    match findTag args b s tag nextoffset with
    | .error _ => []
    | .ok v =>
      let (accesses, s') := markRegion args b s.nextoffset v
      v.accesses ++ accesses ++ if tag = .fin then [] else findUsed args b tags s'

/- The variables before the loop. -/
def findStart (outside : Int → Int)
    (region : Memory FdtRegion) : Locals where
  stack := fun i =>
    if 0 ≤ i ∧ i < FDT_MAX_DEPTH then 0 else outside i
  path := []
  nextoffset := 0
  count := 0
  start := -1
  depth := -1
  want := 0
  region

/- What follows the loop. -/
def findEnd (args : FindArgs) (b : Blob)
    (s : Locals) : Traced (Nat × Memory FdtRegion) :=
  -- the `int` is compared as an unsigned number
  if (s.nextoffset % 2 ^ 32).toNat ≠ b.sizeDtStruct then
    (.error .badlayout, [])
  else
    let size := s.nextoffset - s.start +
      if args.addStringTab then toInt b.sizeDtStrings else 0
    let (accesses, s) := storeRegion args ⟨b.base + s.start, size⟩ s
    (.ok (s.count, s.region), accesses)

/- `fdt_find_regions`; no result where the bound is too low. -/
def fdtFindRegions
    (args : FindArgs) (b : Blob) (outside : Int → Int) (region : Memory FdtRegion) (tags : Nat) :
    Option (Traced (Nat × Memory FdtRegion)) :=
  (findLoop args b tags (findStart outside region)).map
    fun (r, used) =>
      match r with
      | .error e => (.error e, .path 0 :: used)
      | .ok s =>
        let (result, last) := findEnd args b s
        (result, .path 0 :: used ++ last)

----
-- The Tags That Are Read
----

/-
  The walk comes to an offset with so many nodes open and
  this path.  It goes on only where the new node is not too
  deep and its path fits.
-/
inductive Comes
    (args : FindArgs)
    (b : Blob) : Nat → Nat → Str → Prop where
  | start : Comes args b 0 0 []
  | beginNode {offset open' : Nat} {path name : Str} {next : Int}
      (hComes : Comes args b offset open' path)
      (hTag : fdtNextTag b offset = (.beginNode name, next))
      (hDepth : open' < FDT_MAX_DEPTH)
      (hPath : ((path.length + 2 + name.length : Nat) : Int) < args.pathLen) :
      Comes args b next.toNat (open' + 1) (pushPath path name)
  | endNode {offset open' : Nat} {path : Str} {next : Int}
      (hComes : Comes args b offset (open' + 1) path)
      (hTag : fdtNextTag b offset = (.endNode, next)) :
      Comes args b next.toNat open' (popPath path)
  | prop {offset open' nameoff : Nat} {path : Str} {next : Int}
      (hComes : Comes args b offset open' path)
      (hTag : fdtNextTag b offset = (.prop nameoff, next)) :
      Comes args b next.toNat open' path
  | nop {offset open' : Nat} {path : Str} {next : Int} (hComes : Comes args b offset open' path)
      (hTag : fdtNextTag b offset = (.nop, next)) :
      Comes args b next.toNat open' path

/- No node ends that has not begun. -/
def Opened (args : FindArgs) (b : Blob) : Prop :=
  ∀ offset open' path next,
    Comes args b offset open' path → fdtNextTag b offset = (.endNode, next) → open' ≠ 0

/-
  No node ends that has not begun, and no property is
  followed by itself.
-/
structure Orderly (args : FindArgs) (b : Blob) : Prop where
  opened :
    ∀ {offset open' path next},
      Comes args b offset open' path → fdtNextTag b offset = (.endNode, next) → open' ≠ 0
  advances :
    ∀ {offset open' path nameoff next}, Comes args b offset open' path →
        fdtNextTag b offset = (.prop nameoff, next) → next ≠ offset

----
-- Steps
----

/- The variables that say where the walk is. -/
structure SameWalk (s s' : Locals) : Prop where
  path : s'.path = s.path
  nextoffset : s'.nextoffset = s.nextoffset
  depth : s'.depth = s.depth

section

variable {args : FindArgs} {b : Blob}

theorem startRegion_same (offset : Int) (s : Locals) :
    SameWalk s (startRegion args b offset s) := by
  unfold startRegion
  dsimp only
  split_ifs
  · exact ⟨rfl, rfl, rfl⟩
  · exact ⟨rfl, rfl, rfl⟩

theorem storeRegion_same (r : FdtRegion) (s : Locals) :
    SameWalk s (storeRegion args r s).2 ∧ ∀ a ∈ (storeRegion args r s).1, a.Ok args := by
  unfold storeRegion
  split_ifs with hRoom
  · refine ⟨⟨rfl, rfl, rfl⟩, fun a ha => ?_⟩
    rw [mem_singleton.mp ha]
    exact hRoom
  · exact ⟨⟨rfl, rfl, rfl⟩, nofun⟩

theorem SameWalk.trans {s s' s'' : Locals} (hFirst : SameWalk s s') (hSecond : SameWalk s' s'') :
    SameWalk s s'' :=
  ⟨hSecond.path.trans hFirst.path, hSecond.nextoffset.trans hFirst.nextoffset,
    hSecond.depth.trans hFirst.depth⟩

theorem markRegion_same (offset : Int) (v : Visit) :
    SameWalk v.state (markRegion args b offset v).2 ∧
      ∀ a ∈ (markRegion args b offset v).1, a.Ok args := by
  have hStart :
      SameWalk v.state
        (if v.included ∧ v.state.start = -1 then
          startRegion args b offset v.state
        else v.state) := by
    split_ifs
    · exact startRegion_same offset v.state
    · exact ⟨rfl, rfl, rfl⟩
  unfold markRegion
  dsimp only
  generalize hState :
    (if v.included ∧ v.state.start = -1 then
      startRegion args b offset v.state
    else v.state) = s at hStart ⊢
  split_ifs
  · have hStore := @storeRegion_same args ⟨b.base + s.start, v.stopAt - s.start⟩ s
    exact ⟨hStart.trans hStore.1, hStore.2⟩
  · exact ⟨hStart, nofun⟩

/- The walk is at an offset, in so many nodes. -/
structure IsAt
    (offset open' : Nat) (path : Str)
    (s : Locals) : Prop where
  nextoffset : s.nextoffset = offset
  depth : s.depth = (open' : Int) - 1
  path : s.path = path

/- Where a tag that is not the last leads to. -/
inductive Moves
    (args : FindArgs) (open' : Nat)
    (path : Str) : RawTag → Nat → Str → Prop where
  | beginNode {name : Str} (hDepth : open' ≠ FDT_MAX_DEPTH)
      (hPath : ((path.length + 2 + name.length : Nat) : Int) < args.pathLen) :
      Moves args open' path (.beginNode name) (open' + 1) (pushPath path name)
  | endNode {below : Nat} (hOpen : open' = below + 1) :
      Moves args open' path .endNode below (popPath path)
  | prop {nameoff : Nat} : Moves args open' path (.prop nameoff) open' path
  | nop : Moves args open' path .nop open' path

variable {offset open' open'' : Nat} {path path' : Str} {tag : RawTag} {next : Int}

variable {s : Locals}

theorem Moves.visited (hMoves : Moves args open' path tag open'' path')
    (hAt : IsAt offset open' path s) (hNext : next = next.toNat) :
    ∃ v, findTag args b s tag next = .ok v ∧ IsAt next.toNat open'' path' v.state := by
  cases hMoves with
  | beginNode hDepth hPath =>
    have hNew : s.depth + 1 ≠ FDT_MAX_DEPTH := by
      rw [hAt.depth]
      omega
    unfold findTag
    dsimp only
    rw [if_neg hNew, if_neg (by rw [hAt.path]; omega)]
    have hDeeper : s.depth + 1 = ((open' + 1 : Nat) : Int) - 1 := by
      rw [hAt.depth]
      omega
    split_ifs
    all_goals
      exact ⟨_, rfl, hNext, hDeeper, by rw [hAt.path]⟩
  | endNode hOpen =>
    refine ⟨_, rfl, hNext, ?_, by rw [hAt.path]⟩
    change s.depth - 1 = _
    rw [hAt.depth, hOpen]
    omega
  | prop => exact ⟨_, rfl, hNext, hAt.depth, hAt.path⟩
  | nop => exact ⟨_, rfl, hNext, hAt.depth, hAt.path⟩

theorem IsAt.same {offset open' : Nat} {path : Str} {s s' : Locals}
    (hAt : IsAt offset open' path s) (hSame : SameWalk s s') :
    IsAt offset open' path s' :=
  ⟨hSame.nextoffset.trans hAt.nextoffset, hSame.depth.trans hAt.depth, hSame.path.trans hAt.path⟩

theorem findLoop_step
    (hMoves : Moves args open' path tag open'' path') (hAt : IsAt offset open' path s)
    (hTag : fdtNextTag b offset = (tag, next)) (hNext : next = next.toNat) :
    ∃ v s' used, findTag args b s tag next = .ok v ∧ IsAt next.toNat open'' path' s' ∧
        (∀ a ∈ used, a ∈ v.accesses ∨ a.Ok args) ∧ (∀ a ∈ v.accesses, a ∈ used) ∧ (∀ tags,
          findLoop args b (tags + 1) s =
            (findLoop args b tags s').map fun r => (r.1, used ++ r.2)) ∧
        ∀ tags, findUsed args b (tags + 1) s = used ++ findUsed args b tags s' := by
  rcases @Moves.visited args b offset open' open'' path path'
    tag next s hMoves hAt hNext with ⟨v, hVisit, hState⟩
  have hMark := @markRegion_same args b s.nextoffset v
  have hMore : tag ≠ .fin := by
    rintro rfl
    cases hMoves
  have hOffset : s.nextoffset.toNat = offset := by rw [hAt.nextoffset, Int.toNat_natCast]
  refine ⟨v, (markRegion args b s.nextoffset v).2,
    v.accesses ++ (markRegion args b s.nextoffset v).1, hVisit,
    hState.same hMark.1, ?_, ?_, fun tags => ?_, fun tags => ?_⟩
  · intro a ha
    rcases mem_append.mp ha with hOwn | hRegion
    · exact Or.inl hOwn
    · exact Or.inr (hMark.2 a hRegion)
  · exact fun a ha => mem_append_left _ ha
  · rw [findLoop, hOffset, hTag]
    dsimp only
    rw [hVisit]
    dsimp only
    rw [if_neg hMore]
  · rw [findUsed, hOffset, hTag]
    dsimp only
    rw [hVisit]
    dsimp only
    rw [if_neg hMore]

----
-- Walks That Are Safe
----

theorem popPath_length_le (path : Str) :
    (popPath path).length ≤ path.length := by
  have hDrop := (dropWhile_suffix (fun c => decide (c ≠ slash)) (l := path.reverse)).length_le
  unfold popPath
  rw [length_reverse, length_drop]
  rw [length_reverse] at hDrop
  omega

theorem pushPath_length (path name : Str) :
    path.length ≤ (pushPath path name).length ∧
      (pushPath path name).length ≤ path.length + 1 + name.length := by
  unfold pushPath
  split_ifs
  · rw [length_append, length_append, length_singleton]
    omega
  · rw [length_append]
    omega

/- What bounds the places that the walk uses. -/
structure Within
    (args : FindArgs) (open' : Nat)
    (path : Str) : Prop where
  depth : open' ≤ FDT_MAX_DEPTH
  path : (path.length : Int) < args.pathLen

/- A tag that moves the walk uses places of the arrays. -/
theorem Moves.safe {v : Visit} (hMoves : Moves args open' path tag open'' path')
    (hWithin : Within args open' path) (hAt : IsAt offset open' path s)
    (hVisit : findTag args b s tag next = .ok v) :
    (∀ a ∈ v.accesses, a.Ok args) ∧ Within args open'' path' := by
  have hMax := hWithin.depth
  have hFits := hWithin.path
  cases hMoves with
  | beginNode hDepth hPath =>
    rename_i name
    have hPush := pushPath_length path name
    have hUsed : v.accesses =
        (List.range' path.length ((pushPath path name).length + 1 - path.length)).map .path ++
          [.stack open'] := by
      have hIndex : s.depth + 1 = open' := by
        rw [hAt.depth]
        omega
      unfold findTag at hVisit
      dsimp only at hVisit
      rw [hAt.path, hIndex] at hVisit
      split_ifs at hVisit
      all_goals
        cases hVisit
        rfl
    refine ⟨fun a ha => ?_, ⟨?_, ?_⟩⟩
    · rw [hUsed] at ha
      rcases mem_append.mp ha with hName | hStack
      · rcases mem_map.mp hName with ⟨i, hi, rfl⟩
        rw [mem_range'_1] at hi
        change (i : Int) < args.pathLen
        omega
      · rw [mem_singleton.mp hStack]
        change (0 : Int) ≤ open' ∧ (open' : Int) < FDT_MAX_DEPTH
        omega
    · omega
    · omega
  | endNode hOpen =>
    have hPop := popPath_length_le path
    refine ⟨fun a ha => ?_, ⟨by omega, by omega⟩⟩
    cases hVisit
    rcases mem_cons.mp ha with rfl | hRest
    · change 0 ≤ s.depth ∧ s.depth < FDT_MAX_DEPTH
      rw [hAt.depth]
      omega
    · rw [mem_singleton.mp hRest]
      change ((popPath s.path).length : Int) < args.pathLen
      rw [hAt.path]
      omega
  | prop =>
    cases hVisit
    exact ⟨nofun, hWithin⟩
  | nop =>
    cases hVisit
    exact ⟨nofun, hWithin⟩

theorem Comes.move (hComes : Comes args b offset open' path) (hWithin : open' ≤ FDT_MAX_DEPTH)
    (hMoves : Moves args open' path tag open'' path') (hTag : fdtNextTag b offset = (tag, next)) :
    Comes args b next.toNat open'' path' := by
  cases hMoves with
  | beginNode hDepth hPath => exact .beginNode hComes hTag (by omega) hPath
  | endNode hOpen =>
    subst hOpen
    exact .endNode hComes hTag
  | prop => exact .prop hComes hTag
  | nop => exact .nop hComes hTag

/-
  Where no node ends that has not begun, a tag is the last,
  fails, or moves on.
-/
theorem Opened.cases {offset open' : Nat} {path : Str}
    (hOpened : Opened args b) (hComes : Comes args b offset open' path)
    (hAt : IsAt offset open' path s) (hTag : fdtNextTag b offset = (tag, next)) :
    tag = .fin ∨ (∃ e, findTag args b s tag next = .error e) ∨
      ∃ open'' path', Moves args open' path tag open'' path' := by
  cases tag with
  | beginNode name =>
    by_cases hDepth : open' = FDT_MAX_DEPTH
    · refine Or.inr (Or.inl ⟨.badstructure, ?_⟩)
      unfold findTag
      dsimp only
      rw [if_pos (by rw [hAt.depth, hDepth]; omega)]
    · by_cases hPath : ((path.length + 2 + name.length : Nat) : Int) < args.pathLen
      · exact Or.inr (Or.inr ⟨_, _, .beginNode hDepth hPath⟩)
      · refine Or.inr (Or.inl ⟨.nospace, ?_⟩)
        unfold findTag
        dsimp only
        rw [if_neg (by rw [hAt.depth]; omega), if_pos (by rw [hAt.path]; omega)]
  | endNode =>
    rcases Nat.exists_eq_succ_of_ne_zero (hOpened _ _ _ _ hComes hTag) with ⟨below, hOpen⟩
    exact Or.inr (Or.inr ⟨_, _, .endNode hOpen⟩)
  | prop nameoff => exact Or.inr (Or.inr ⟨_, _, .prop⟩)
  | nop => exact Or.inr (Or.inr ⟨_, _, .nop⟩)
  | fin => exact Or.inl rfl

/-
  The loop in an orderly tree, by induction on the bytes that
  are left: it ends and is safe.
-/
theorem findLoop_safe (hOrderly : Orderly args b) (left : Nat) :
    ∀ {offset open' : Nat} {path : Str} {s : Locals}, b.totalsize + 4 ≤ offset + left →
      offset < 2 ^ 31 → Comes args b offset open' path → Within args open' path →
      IsAt offset open' path s →
        ∃ r used, findLoop args b (left + 1) s = some (r, used) ∧ ∀ a ∈ used, a.Ok args := by
  induction left with
  | zero =>
    intro offset open' path s hLeft hOffset _ _ hAt
    have hEnd : ∃ next, fdtNextTag b offset = (.fin, next) := by
      rcases hTag : fdtNextTag b offset with ⟨tag, next⟩
      by_cases hFin : tag = .fin
      · exact ⟨next, by rw [hFin]⟩
      · have hNext := fdtNextTag_next hOffset hTag hFin
        have hLe := hNext.le
        have hUpper := hNext.upper
        omega
    rcases hEnd with ⟨next, hTag⟩
    have hNat : s.nextoffset.toNat = offset := by rw [hAt.nextoffset, Int.toNat_natCast]
    rw [findLoop, hNat, hTag]
    dsimp only [findTag]
    rw [if_pos rfl]
    refine ⟨_, _, rfl, fun a ha => ?_⟩
    rw [nil_append] at ha
    exact markRegion_same _ _ |>.2 a ha
  | succ left ih =>
    intro offset open' path s hLeft hOffset hComes hWithin hAt
    rcases hTag : fdtNextTag b offset with ⟨tag, next⟩
    have hNat : s.nextoffset.toNat = offset := by rw [hAt.nextoffset, Int.toNat_natCast]
    rcases Opened.cases (fun _ _ _ _ => hOrderly.opened) hComes hAt hTag with
      rfl | ⟨e, hError⟩ | ⟨open'', path', hMoves⟩
    · rw [findLoop, hNat, hTag]
      dsimp only [findTag]
      rw [if_pos rfl]
      refine ⟨_, _, rfl, fun a ha => ?_⟩
      rw [nil_append] at ha
      exact markRegion_same _ _ |>.2 a ha
    · rw [findLoop, hNat, hTag]
      dsimp only
      rw [hError]
      exact ⟨_, _, rfl, nofun⟩
    · have hMore : tag ≠ .fin := by
        rintro rfl
        cases hMoves
      have hNext := fdtNextTag_next hOffset hTag hMore
      have hLater : offset < next.toNat := by
        have hLe := hNext.le
        by_contra hNot
        have hStay : next.toNat = offset := by omega
        rcases hNext.stays hStay with ⟨nameoff, rfl⟩
        refine hOrderly.advances hComes hTag ?_
        rw [hNext.toNat, hStay]
      rcases findLoop_step hMoves hAt hTag hNext.toNat with
        ⟨v, s', used, hVisit, hAt', hUsed, -, hLoop, -⟩
      have hSafe := hMoves.safe hWithin hAt hVisit
      have hUpper := hNext.upper
      have hSize := b.totalsize_lt
      rcases ih (by omega) (by omega) (hComes.move hWithin.depth hMoves hTag) hSafe.2 hAt'
        with ⟨r, rest, hRest, hRestOk⟩
      rw [hLoop, hRest]
      refine ⟨r, used ++ rest, rfl, fun a ha => ?_⟩
      rcases mem_append.mp ha with hHere | hThere
      · rcases hUsed a hHere with hOwn | hOk
        · exact hSafe.1 a hOwn
        · exact hOk
      · exact hRestOk a hThere

----
-- Walks That Are Not
----

theorem Comes.offset_le
    {offset open' : Nat} {path : Str} (hComes : Comes args b offset open' path) :
    offset ≤ b.totalsize + 3 := by
  have hSize := b.totalsize_lt
  induction hComes with
  | start => omega
  | beginNode _ hTag _ _ ih => exact (fdtNextTag_next (by omega) hTag nofun).upper
  | endNode _ hTag ih => exact (fdtNextTag_next (by omega) hTag nofun).upper
  | prop _ hTag ih => exact (fdtNextTag_next (by omega) hTag nofun).upper
  | nop _ hTag ih => exact (fdtNextTag_next (by omega) hTag nofun).upper

/-
  Every run from the one state that ends passes the other,
  and uses what the run from there uses.
-/
def Passes (args : FindArgs) (b : Blob)
    (s s' : Locals) : Prop :=
  ∀ tags r used, findLoop args b tags s = some (r, used) →
      ∃ tags' used', findLoop args b tags' s' = some (r, used') ∧ ∀ a ∈ used', a ∈ used

theorem Passes.step
    {s₀ s : Locals} (hPasses : Passes args b s₀ s) (hComes : Comes args b offset open' path)
    (hAt : IsAt offset open' path s) (hTag : fdtNextTag b offset = (tag, next))
    (hMoves : Moves args open' path tag open'' path') :
    ∃ s', IsAt next.toNat open'' path' s' ∧ Passes args b s₀ s' := by
  have hOffset := hComes.offset_le
  have hSize := b.totalsize_lt
  have hMore : tag ≠ .fin := by
    rintro rfl
    cases hMoves
  have hNext := fdtNextTag_next (by omega) hTag hMore
  rcases findLoop_step hMoves hAt hTag hNext.toNat with ⟨v, s', used, -, hAt', -, -, hLoop, -⟩
  refine ⟨s', hAt', fun tags r all hRun => ?_⟩
  rcases hPasses tags r all hRun with ⟨tags', used', hRun', hSub⟩
  cases tags' with
  | zero => cases hRun'
  | succ tags' =>
    rw [hLoop, map_eq_some_iff] at hRun'
    rcases hRun' with ⟨⟨r', rest⟩, hRest, hEq⟩
    cases hEq
    exact ⟨tags', rest, hRest, fun a ha => hSub a (mem_append_right _ ha)⟩

theorem findLoop_visits {offset open' : Nat} {path : Str}
    (outside : Int → Int) (region : Memory FdtRegion) (hComes : Comes args b offset open' path) :
    ∃ s, IsAt offset open' path s ∧ Passes args b (findStart outside region) s := by
  induction hComes with
  | start =>
    refine ⟨findStart outside region, ⟨rfl, rfl, rfl⟩, fun tags r used hRun => ?_⟩
    exact ⟨tags, used, hRun, fun a ha => ha⟩
  | beginNode hComes hTag hDepth hPath ih =>
    rcases ih with ⟨s, hAt, hPasses⟩
    exact hPasses.step hComes hAt hTag (.beginNode (by omega) hPath)
  | endNode hComes hTag ih =>
    rcases ih with ⟨s, hAt, hPasses⟩
    exact hPasses.step hComes hAt hTag (.endNode rfl)
  | prop hComes hTag ih =>
    rcases ih with ⟨s, hAt, hPasses⟩
    exact hPasses.step hComes hAt hTag .prop
  | nop hComes hTag ih =>
    rcases ih with ⟨s, hAt, hPasses⟩
    exact hPasses.step hComes hAt hTag .nop

theorem findUsed_visits {offset open' : Nat} {path : Str}
    (outside : Int → Int) (region : Memory FdtRegion) (hComes : Comes args b offset open' path) :
    ∃ s n, IsAt offset open' path s ∧ ∀ tags, ∀ a ∈ findUsed args b tags s,
        a ∈ findUsed args b (tags + n) (findStart outside region) := by
  have hStep : ∀ {offset open' open'' : Nat} {path path' : Str} {tag : RawTag} {next : Int},
      Comes args b offset open' path → fdtNextTag b offset = (tag, next) →
      Moves args open' path tag open'' path' → (∃ s n, IsAt offset open' path s ∧
        ∀ tags, ∀ a ∈ findUsed args b tags s,
          a ∈ findUsed args b (tags + n) (findStart outside region)) →
      ∃ s n, IsAt next.toNat open'' path' s ∧ ∀ tags, ∀ a ∈ findUsed args b tags s,
          a ∈ findUsed args b (tags + n) (findStart outside region) := by
    rintro offset open' open'' path path' tag next hComes hTag hMoves ⟨s, n, hAt, hUses⟩
    have hOffset := hComes.offset_le
    have hSize := b.totalsize_lt
    have hMore : tag ≠ .fin := by
      rintro rfl
      cases hMoves
    have hNext := fdtNextTag_next (by omega) hTag hMore
    rcases findLoop_step hMoves hAt hTag hNext.toNat with ⟨v, s', used, -, hAt', -, -, -, hUsed⟩
    refine ⟨s', n + 1, hAt', fun tags a ha => ?_⟩
    have hThere := hUses (tags + 1) a (by rw [hUsed]; exact mem_append_right _ ha)
    rwa [show tags + 1 + n = tags + (n + 1) by omega] at hThere
  induction hComes with
  | start => exact ⟨findStart outside region, 0, ⟨rfl, rfl, rfl⟩, fun _ _ ha => ha⟩
  | beginNode hComes hTag hDepth hPath ih =>
    exact hStep hComes hTag (.beginNode (by omega) hPath) ih
  | endNode hComes hTag ih => exact hStep hComes hTag (.endNode rfl) ih
  | prop hComes hTag ih => exact hStep hComes hTag .prop ih
  | nop hComes hTag ih => exact hStep hComes hTag .nop ih

/- A property that is followed by itself is read for ever. -/
theorem findLoop_stays {offset open' nameoff : Nat} {path : Str}
    (hTag : fdtNextTag b offset = (RawTag.prop nameoff, (offset : Int))) (tags : Nat) :
    ∀ {s : Locals}, IsAt offset open' path s → findLoop args b tags s = none
    := by
  induction tags with
  | zero => exact fun _ => rfl
  | succ tags ih =>
    intro s hAt
    rcases @findLoop_step args b offset open' open' path path
      (RawTag.prop nameoff) offset s Moves.prop hAt hTag
      (by rw [Int.toNat_natCast]) with ⟨-, s', used, -, hAt', -, -, hLoop, -⟩
    rw [Int.toNat_natCast] at hAt'
    rw [hLoop, ih hAt', map_none]

variable {used : List Access}

theorem findLoop_below {offset tags : Nat} {path : Str} {r : Except FdtError Locals}
    (hTag : fdtNextTag b offset = (.endNode, next)) (hAt : IsAt offset 0 path s)
    (hRun : findLoop args b tags s = some (r, used)) :
    .stack (-1) ∈ used := by
  have hOffset : s.nextoffset.toNat = offset := by rw [hAt.nextoffset, Int.toNat_natCast]
  have hDepth : s.depth = -1 := hAt.depth
  cases tags with
  | zero => cases hRun
  | succ tags =>
    rw [findLoop, hOffset, hTag] at hRun
    dsimp only [findTag] at hRun
    rw [if_neg nofun, map_eq_some_iff] at hRun
    rcases hRun with ⟨⟨r', rest⟩, -, hEq⟩
    cases hEq
    rw [hDepth]
    exact mem_append_left _ (mem_append_left _ (mem_cons_self ..))

/- What the turns use, where no node ends that has not begun. -/
theorem findUsed_safe (hOpened : Opened args b) (tags : Nat) :
    ∀ {offset open' : Nat} {path : Str} {s : Locals},
      Comes args b offset open' path → Within args open' path → IsAt offset open' path s →
        ∀ a ∈ findUsed args b tags s, a.Ok args := by
  induction tags with
  | zero => exact fun _ _ _ => nofun
  | succ tags ih =>
    intro offset open' path s hComes hWithin hAt
    rcases hTag : fdtNextTag b offset with ⟨tag, next⟩
    have hNat : s.nextoffset.toNat = offset := by rw [hAt.nextoffset, Int.toNat_natCast]
    rcases hOpened.cases hComes hAt hTag with rfl | ⟨e, hError⟩ | ⟨open'', path', hMoves⟩
    · rw [findUsed, hNat, hTag]
      dsimp only [findTag]
      rw [if_pos rfl, append_nil, nil_append]
      exact (markRegion_same _ _).2
    · rw [findUsed, hNat, hTag]
      dsimp only
      rw [hError]
      exact nofun
    · have hMore : tag ≠ .fin := by
        rintro rfl
        cases hMoves
      have hOffset := hComes.offset_le
      have hSize := b.totalsize_lt
      have hNext := fdtNextTag_next (by omega) hTag hMore
      rcases findLoop_step hMoves hAt hTag hNext.toNat with
        ⟨v, s', used, hVisit, hAt', hOwn, -, -, hUsed⟩
      have hSafe := hMoves.safe hWithin hAt hVisit
      rw [hUsed]
      intro a ha
      rcases mem_append.mp ha with hHere | hThere
      · exact (hOwn a hHere).elim (hSafe.1 a) id
      · exact ih (hComes.move hWithin.depth hMoves hTag) hSafe.2 hAt' a hThere

/- So only such a node has the loop leave its arrays. -/
theorem findUsed_ok_iff
    (hPath : 1 ≤ args.pathLen) (outside : Int → Int) (region : Memory FdtRegion) :
    (∀ tags, ∀ a ∈ findUsed args b tags (findStart outside region), a.Ok args) ↔ Opened args b := by
  constructor
  · rintro hOk offset open' path next hComes hTag rfl
    rcases findUsed_visits outside region hComes with ⟨s, n, hAt, hUses⟩
    have hOffset : s.nextoffset.toNat = offset := by rw [hAt.nextoffset, Int.toNat_natCast]
    have hDepth : s.depth = -1 := hAt.depth
    have hBelow : Access.stack (-1) ∈ findUsed args b 1 s := by
      rw [findUsed, hOffset, hTag]
      dsimp only [findTag]
      rw [hDepth]
      exact mem_append_left _ (mem_append_left _ (mem_cons_self ..))
    have hStack := hOk _ _ (hUses 1 _ hBelow)
    exact absurd hStack.1 (by decide)
  · intro hOpened tags
    refine findUsed_safe hOpened tags .start ⟨by omega, ?_⟩ ⟨rfl, rfl, rfl⟩
    rw [length_nil]
    omega

theorem findLoop_used {tags : Nat} {s : Locals} {r : Except FdtError Locals}
    (hRun : findLoop args b tags s = some (r, used)) :
    used = findUsed args b tags s := by
  induction tags generalizing s used with
  | zero => cases hRun
  | succ tags ih =>
    rw [findLoop] at hRun
    rw [findUsed]
    dsimp only at hRun ⊢
    split at hRun
    · cases hRun
      rfl
    · split at hRun
      · cases hRun
        rw [if_pos (by assumption), append_nil]
      · rw [if_neg (by assumption)]
        rcases map_eq_some_iff.mp hRun with ⟨⟨r', rest⟩, hRest, hEq⟩
        cases hEq
        rw [ih hRest]

----
-- The Function is Safe for Orderly Trees
----

/- What follows the loop writes only where there is room. -/
theorem findEnd_safe (s : Locals) :
    ∀ a ∈ (findEnd args b s).2, a.Ok args := by
  unfold findEnd
  split
  · exact nofun
  · exact (storeRegion_same _ s).2

/- A call that returns ends its loop, and uses what it uses. -/
theorem fdtFindRegions_loop {outside : Int → Int} {region : Memory FdtRegion} {tags : Nat}
    {r : Except FdtError (Nat × Memory FdtRegion)}
    (hRun : fdtFindRegions args b outside region tags = some (r, used)) :
    .path 0 ∈ used ∧ ∃ r' used', findLoop args b tags (findStart outside region) =
          some (r', used') ∧ ∀ a ∈ used', a ∈ used := by
  unfold fdtFindRegions at hRun
  rw [map_eq_some_iff] at hRun
  rcases hRun with ⟨⟨r', used'⟩, hLoop, hEq⟩
  cases r' with
  | error e =>
    cases hEq
    exact ⟨mem_cons_self .., _, _, hLoop, fun a ha => mem_cons_of_mem _ ha⟩
  | ok s =>
    cases hEq
    refine ⟨mem_cons_self .., _, _, hLoop, fun a ha => ?_⟩
    exact mem_append_left _ (mem_cons_of_mem _ ha)

end

theorem fdtFindRegions_used_iff
    {args : FindArgs} {b : Blob} {outside : Int → Int} {region : Memory FdtRegion} {tags : Nat}
    {r : Except FdtError (Nat × Memory FdtRegion)} {used : List Access} (hPath : 1 ≤ args.pathLen)
    (hRun : fdtFindRegions args b outside region tags = some (r, used)) :
    (∀ a ∈ used, a.Ok args) ↔ ∀ a ∈ findUsed args b tags (findStart outside region), a.Ok args := by
  have hFirst : Access.Ok args (.path 0) := by
    change ((0 : Nat) : Int) < args.pathLen
    omega
  unfold fdtFindRegions at hRun
  rw [map_eq_some_iff] at hRun
  rcases hRun with ⟨⟨r', used'⟩, hLoop, hEq⟩
  rw [← findLoop_used hLoop]
  cases r' with
  | error e =>
    cases hEq
    rw [forall_mem_cons, and_iff_right hFirst]
  | ok s =>
    cases hEq
    rw [cons_append, forall_mem_cons, forall_mem_append, and_iff_right hFirst]
    exact and_iff_left (findEnd_safe s)

/-
  A call returns and uses only places of its arrays exactly
  where the path has room for its NUL, no node ends that has
  not begun, and no property is followed by itself.
-/
theorem fdt_find_regions_safe
    (args : FindArgs) (b : Blob) (outside : Int → Int) (region : Memory FdtRegion) :
    (∃ tags r used, fdtFindRegions args b outside region tags = some (r, used) ∧
      ∀ a ∈ used, a.Ok args) ↔ 1 ≤ args.pathLen ∧ Orderly args b := by
  constructor
  · rintro ⟨tags, r, used, hRun, hOk⟩
    rcases fdtFindRegions_loop hRun with ⟨hPath, r', used', hLoop, hSub⟩
    have hRoom : ((0 : Nat) : Int) < args.pathLen := hOk _ hPath
    refine ⟨by omega, ?_, ?_⟩
    · rintro offset open' path next hComes hTag rfl
      rcases findLoop_visits outside region hComes with ⟨s, hAt, hPasses⟩
      rcases hPasses tags r' used' hLoop with ⟨tags', below, hRest, hBelow⟩
      have hStack := hOk _ (hSub _ (hBelow _ (findLoop_below hTag hAt hRest)))
      have hNonneg : (0 : Int) ≤ -1 := hStack.1
      omega
    · rintro offset open' path nameoff next hComes hTag rfl
      rcases findLoop_visits outside region hComes with ⟨s, hAt, hPasses⟩
      rcases hPasses tags r' used' hLoop with ⟨tags', _, hRest, -⟩
      rw [findLoop_stays hTag tags' hAt] at hRest
      cases hRest
  · rintro ⟨hPath, hOrderly⟩
    have hSize := b.totalsize_lt
    rcases @findLoop_safe args b hOrderly (b.totalsize + 4) 0 0
      [] (findStart outside region) (by omega) (by omega) .start
      ⟨by omega, by rw [length_nil]; omega⟩
      ⟨rfl, rfl, rfl⟩ with ⟨r, used, hLoop, hOk⟩
    have hFirst : Access.Ok args (.path 0) := by
      change ((0 : Nat) : Int) < args.pathLen
      omega
    cases r with
    | error e =>
      refine ⟨b.totalsize + 4 + 1, .error e, .path 0 :: used, ?_, fun a ha => ?_⟩
      · rw [fdtFindRegions, hLoop]
        rfl
      · rcases mem_cons.mp ha with rfl | hRest
        · exact hFirst
        · exact hOk a hRest
    | ok s =>
      refine ⟨b.totalsize + 4 + 1, (findEnd args b s).1,
        .path 0 :: used ++ (findEnd args b s).2, ?_, fun a ha => ?_⟩
      · rw [fdtFindRegions, hLoop]
        rfl
      · rcases mem_append.mp ha with hHead | hLast
        · rcases mem_cons.mp hHead with rfl | hRest
          · exact hFirst
          · exact hOk a hRest
        · exact findEnd_safe s a hLast

/- A tree of these words, after a header of 56 bytes. -/
def blobOf (words : List Nat) (hWords : words.length ≤ 8) : Blob where
  memory := fun p =>
    if p < 56 then 0
    else
      let i := (p - 56).toNat
      UInt8.ofNat (words.getD (i / 4) 0 / 256 ^ (3 - i % 4))
  totalsize := 56 + 4 * words.length
  version := 17
  offDtStruct := 56
  sizeDtStruct := 4 * words.length
  offDtStrings := 56 + 4 * words.length
  sizeDtStrings := 0
  totalsize_lt := by omega

/- How the function is called for a configuration. -/
def configArgs : FindArgs where
  inc := [[slash]]
  excProp := [[0x64, 0x61, 0x74, 0x61]]
  maxRegions := 26
  pathLen := 200
  addStringTab := false

/-
  A tree that starts with the end of a node has the function
  read below its stack; of a property whose length takes the
  offset back to where it was there is no end.
-/
theorem fdt_find_regions_reads_below_stack :
    (¬ ∃ tags r used, fdtFindRegions configArgs (blobOf [2, 9] (by decide))
        (fun _ => 0) (fun _ => ⟨0, 0⟩) tags = some (r, used) ∧
      ∀ a ∈ used, a.Ok configArgs) ∧ ∀ tags,
        fdtFindRegions configArgs (blobOf [3, 0xFFFFFFF4, 0, 9] (by decide))
          (fun _ => 0) (fun _ => ⟨0, 0⟩) tags = none := by
  constructor
  · rintro ⟨tags, r, used, hRun, hOk⟩
    rcases fdtFindRegions_loop hRun with ⟨-, r', used', hLoop, hSub⟩
    have hTag : fdtNextTag (blobOf [2, 9] (by decide)) 0 = (.endNode, 4) := by decide
    have hBelow := findLoop_below hTag ⟨rfl, rfl, rfl⟩ hLoop
    exact absurd (hOk _ (hSub _ hBelow)) (by decide)
  · intro tags
    have hTag :
        fdtNextTag (blobOf [3, 0xFFFFFFF4, 0, 9] (by decide)) 0 =
          (RawTag.prop 0, ((0 : Nat) : Int)) := by decide
    rw [fdtFindRegions, @findLoop_stays configArgs _ 0 0 0 [] hTag tags _ ⟨rfl, rfl, rfl⟩]
    rfl

end Uboot.Fdt.Raw
