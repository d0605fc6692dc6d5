import BootFirmware.Lib.RegionRuns

/-
  The tags of the structure block of a device tree, the paths
  of its nodes, and which tags a list of paths selects.

  Key definitions include:
    * `Tag` and `Nested`
    * `pathOf`, `pushPath` and `popPath`
    * `Selected` and `CoveredTag`

  The main results are:
    * `PathBuffer.push` and `PathBuffer.pop`
-/

----
-- Tags
----

namespace Uboot.Fdt

open RegionRuns List

/- A string, without the NUL that ends it. -/
abbrev Str := List UInt8

inductive Tag where
  | beginNode (name : Str)
  | endNode
  | prop (name : Str) (value : List UInt8)
  | nop
  | fin
deriving DecidableEq, Repr

/- `FDT_TAGALIGN` -/
def tagAlign (n : Nat) : Nat :=
  (n + 3) / 4 * 4

/- The bytes of a tag, up to the next one. -/
def Tag.size : Tag → Nat
  | .beginNode name => 4 + tagAlign (name.length + 1)
  | .prop _ value => 12 + tagAlign value.length
  | .endNode | .nop | .fin => 4

def blockSize (block : List Tag) : Nat :=
  block.foldl (fun n tag => n + tag.size) 0

def FDT_MAX_DEPTH : Nat := 32

def slash : UInt8 := 0x2f

/-
  Only the root has no name, and a name has neither a slash
  nor a NUL.  The nodes that are open come first.
-/
def NameOk (nodes : List Str) (name : Str) : Prop :=
  (nodes = [] ↔ name = []) ∧ slash ∉ name ∧ 0 ∉ name

instance (nodes : List Str) (name : Str) : Decidable (NameOk nodes name) :=
  inferInstanceAs (Decidable (_ ∧ _ ∧ _))

/- The names of the open nodes after a tag, innermost first. -/
def openAfter (nodes : List Str) : Tag → List Str
  | .beginNode name => name :: nodes
  | .endNode => nodes.tail
  | .prop _ _ | .nop | .fin => nodes

def openNodes (before : List Tag) : List Str :=
  before.foldl openAfter []

/- A tag may stand where these nodes are open. -/
def TagOk (nodes : List Str) : Tag → Prop
  | .beginNode name => NameOk nodes name ∧ nodes.length < FDT_MAX_DEPTH
  | .endNode | .prop _ _ => nodes ≠ []
  | .nop => True
  | .fin => nodes = []

instance (nodes : List Str) (tag : Tag) : Decidable (TagOk nodes tag) :=
  match tag with
  | .beginNode _ => inferInstanceAs (Decidable (_ ∧ _))
  | .endNode | .prop _ _ => inferInstanceAs (Decidable (nodes ≠ []))
  | .nop => inferInstanceAs (Decidable True)
  | .fin => inferInstanceAs (Decidable (nodes = []))

/- A block that is nested right, and ends with `FDT_END`. -/
def Nested (nodes : List Str) : List Tag → Prop
  | [] => False
  | tag :: rest =>
    TagOk nodes tag ∧ (if tag = .fin then rest = []
      else Nested (openAfter nodes tag) rest)

instance decidableNested :
    (nodes : List Str) → (block : List Tag) → Decidable (Nested nodes block)
  | _, [] => inferInstanceAs (Decidable False)
  | nodes, tag :: rest =>
    have := decidableNested (openAfter nodes tag) rest
    inferInstanceAs (Decidable (_ ∧ ite _ _ _))

theorem Tag.size_pos (tag : Tag) :
    0 < tag.size := by
  cases tag <;> simp only [size] <;> omega

----
-- Paths
----

/- The path of the innermost of the open nodes. -/
def pathOf : List Str → Str
  | [] => []
  | [name] => slash :: name
  | [name, _] => slash :: name
  | name :: parent :: root :: rest => pathOf (parent :: root :: rest) ++ slash :: name

/- Append a name to the path, as long as its end says. -/
def pushPath (path name : Str) : Str :=
  (if path.length ≠ 1 then path ++ [slash] else path) ++ name

/- Go back to the last slash of the path, and cut it there. -/
def popPath (path : Str) : Str :=
  ((path.reverse.dropWhile fun c => c ≠ slash).drop 1).reverse

/-
  The buffer has the path of the innermost node.  Once a
  child of the root has ended, the slash of the root is gone
  from it as well.
-/
def PathBuffer : List Str → Str → Prop
  | [], path => path = []
  | [_], path => path = [slash] ∨ path = []
  | name :: parent :: rest, path => path = pathOf (name :: parent :: rest)

/- The names of nested nodes. -/
def Names : List Str → Prop
  | [] => True
  | name :: rest => NameOk rest name ∧ Names rest

theorem popPath_append {name : Str} (path : Str) (hName : slash ∉ name) :
    popPath (path ++ slash :: name) = path := by
  have hDrop :
      (path ++ slash :: name).reverse.dropWhile (fun c => decide (c ≠ slash)) =
        slash :: path.reverse := by
    rw [reverse_append, reverse_cons, append_assoc, dropWhile_append_of_pos]
    · exact dropWhile_cons_of_neg (by simp)
    · intro c hc
      refine decide_eq_true ?_
      rintro rfl
      exact hName (mem_reverse.mp hc)
  unfold popPath
  rw [hDrop, drop_one, tail_cons, reverse_reverse]

theorem pathOf_two_length
    {name parent : Str} {rest : List Str} (hNames : Names (name :: parent :: rest)) :
    2 ≤ (pathOf (name :: parent :: rest)).length := by
  have hSome : name ≠ [] := by
    intro hNone
    exact absurd (hNames.1.1.mpr hNone) (cons_ne_nil parent rest)
  have hPos := length_pos_iff.mpr hSome
  cases rest with
  | nil =>
    rw [pathOf, length_cons]
    omega
  | cons root rest =>
    rw [pathOf, length_append, length_cons]
    omega

variable {nodes : List Str}

theorem PathBuffer.push {path name : Str}
    (hBuffer : PathBuffer nodes path) (hNames : Names nodes) (hName : NameOk nodes name) :
    pushPath path name = pathOf (name :: nodes) ∧
      PathBuffer (name :: nodes) (pushPath path name) := by
  match nodes, hBuffer with
  | [], hPath =>
    have hRoot : name = [] := hName.1.mp rfl
    subst hRoot
    rw [hPath]
    exact ⟨rfl, .inl rfl⟩
  | [root], hPath =>
    have hPush : pushPath path name = slash :: name := by rcases hPath with rfl | rfl <;> rfl
    exact ⟨hPush, hPush⟩
  | parent :: root :: rest, hPath =>
    have hLength := pathOf_two_length hNames
    have hEq : path = pathOf (parent :: root :: rest) := hPath
    have hPush : pushPath path name = pathOf (name :: parent :: root :: rest) := by
      unfold pushPath
      rw [if_pos (by rw [hEq]; omega), hEq, pathOf, append_assoc]
      rfl
    exact ⟨hPush, hPush⟩

theorem PathBuffer.pop
    {path name : Str} (hBuffer : PathBuffer (name :: nodes) path) (hName : NameOk nodes name) :
    PathBuffer nodes (popPath path) := by
  match nodes, hBuffer with
  | [], hPath => rcases hPath with rfl | rfl <;> rfl
  | [root], hPath =>
    have hEq : path = [] ++ slash :: name := hPath
    rw [hEq, popPath_append [] hName.2.1]
    exact .inr rfl
  | parent :: root :: rest, hPath =>
    have hEq : path = pathOf (parent :: root :: rest) ++ slash :: name := hPath
    rw [hEq, popPath_append _ hName.2.1]
    rfl

----
-- What Is Selected
----

def strInList (str : Str) (list : List Str) : Bool :=
  list.any fun item => item == str

/- The innermost of the open nodes is on the list. -/
def wanted (inc : List Str) (nodes : List Str) : Bool :=
  !nodes.isEmpty && strInList (pathOf nodes) inc

/-
  A tag is chosen by the list: `own` says so of the node that
  it is in, `parent` of the parent of that node and `new` of
  the node that begins with it.
-/
def chosen (exc : List Str) (own parent new : Bool) : Tag → Bool
  | .beginNode _ => new || own
  | .endNode => own || parent
  | .prop name _ => own && !strInList name exc
  | .nop => own
  | .fin => true

def startsWanted (inc : List Str) (nodes : List Str) : Tag → Bool
  | .beginNode name => wanted inc (name :: nodes)
  | _ => false

/- A tag is selected, where these nodes are open. -/
def selected (inc exc nodes : List Str) (tag : Tag) : Bool :=
  chosen exc (wanted inc nodes) (wanted inc nodes.tail) (startsWanted inc nodes tag) tag

/- The tag after others is selected. -/
def Selected (inc exc : List Str) (before : List Tag)
    (tag : Tag) : Prop :=
  selected inc exc (openNodes before) tag = true

/-
  A tag is covered if it is selected.  The end of a node that
  is not is covered as well directly after a selected tag.
-/
def CoveredTag (inc exc : List Str) (before : List Tag)
    (tag : Tag) : Prop :=
  Selected inc exc before tag ∨
    (tag = .endNode ∧ ∃ front last, before = front ++ [last] ∧ Selected inc exc front last)

def pieceOf (isChosen : Bool) (tag : Tag) : Piece where
  size := tag.size
  chosen := isChosen
  tail := decide (tag = .endNode)

/- The tags of a block as pieces, from these open nodes on. -/
def piecesOf (inc exc : List Str) : List Str → List Tag → List Piece
  | _, [] => []
  | nodes, tag :: rest =>
    pieceOf (selected inc exc nodes tag) tag :: piecesOf inc exc (openAfter nodes tag) rest

section Pieces

variable {inc exc nodes : List Str} {before rest : List Tag} {tag : Tag}

theorem openNodes_append (before : List Tag) (tag : Tag) :
    openNodes (before ++ [tag]) = openAfter (openNodes before) tag := by
  unfold openNodes
  rw [foldl_append]
  rfl

theorem piecesOf_append (inc exc nodes : List Str) (front rest : List Tag) :
    piecesOf inc exc nodes (front ++ rest) =
      piecesOf inc exc nodes front ++ piecesOf inc exc (front.foldl openAfter nodes) rest := by
  induction front generalizing nodes with
  | nil => rfl
  | cons tag front ih =>
    rw [cons_append, piecesOf, piecesOf, ih]
    rfl

theorem piecesOf_snoc (inc exc : List Str) (before : List Tag) (tag : Tag) :
    piecesOf inc exc [] (before ++ [tag]) =
      piecesOf inc exc [] before ++ [pieceOf (selected inc exc (openNodes before) tag) tag] :=
  piecesOf_append inc exc [] before [tag]

theorem sized_piecesOf (inc exc nodes : List Str) (block : List Tag) :
    Sized (piecesOf inc exc nodes block) := by
  induction block generalizing nodes with
  | nil => nofun
  | cons tag rest ih =>
    intro p hp
    rcases mem_cons.mp hp with rfl | hp
    · exact tag.size_pos
    · exact ih _ p hp

theorem blockSize_append (before : List Tag) (tag : Tag) :
    blockSize (before ++ [tag]) = blockSize before + tag.size := by
  unfold blockSize
  rw [foldl_append]
  rfl

theorem sizes_piecesOf (inc exc : List Str) (block : List Tag) :
    sizes (piecesOf inc exc [] block) = blockSize block := by
  induction block using List.reverseRecOn with
  | nil => rfl
  | append_singleton front tag ih =>
    rw [piecesOf_snoc, sizes_append, ih, blockSize_append]
    rfl

theorem lastChosen_piecesOf :
    lastChosen (piecesOf inc exc [] before) = true ↔
      ∃ front last, before = front ++ [last] ∧ Selected inc exc front last := by
  rcases eq_nil_or_concat before with rfl | ⟨front, last, rfl⟩
  · constructor
    · exact nofun
    · rintro ⟨front, last, hEq, -⟩
      exact absurd hEq (by simp)
  · rw [concat_eq_append, piecesOf_snoc]
    unfold lastChosen
    rw [getLast?_concat]
    constructor
    · exact fun hTrue => ⟨front, last, rfl, hTrue⟩
    · rintro ⟨front', last', hEq, hSelected⟩
      rcases append_inj' hEq rfl with ⟨rfl, hLast⟩
      cases hLast
      exact hSelected

theorem covered_pieceOf :
    Covered (piecesOf inc exc [] before) (pieceOf (selected inc exc (openNodes before) tag) tag) ↔
      CoveredTag inc exc before tag := by
  unfold Covered CoveredTag
  rw [lastChosen_piecesOf]
  refine or_congr_right (and_congr_left fun _ => ?_)
  exact decide_eq_true_iff

end Pieces

end Uboot.Fdt
