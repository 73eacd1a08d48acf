import Crossref.Text.Position
import Crossref.Tree.Basic

/-!
# Nodes

A node is a place in a tree: the tree below it, and the way up to the root as the parents met with
the index taken in each.  All that a reader of a syntax tree asks (children, siblings, ancestors,
the node at a byte) is a function of the place, and two nodes of one tree are the same when their
paths of indices are.

* `Node.Within`: the places of a tree, reached from its root by going to children.
* `Node.parent?_of_mem_children`: the parent of a child is the node it was reached from.
* `Node.height_lt_of_mem_children`: going to a child goes down.
-/

namespace Crossref

/-- A step of the way up: the parent and the index of the child that was taken. -/
structure Frame where
  parent : Tree
  index : Nat
  deriving Inhabited

/-- A place in a tree, with the way up to the root, nearest parent first. -/
structure Node where
  tree : Tree
  trail : List Frame
  deriving Inhabited

namespace Node

/-! ### The label at a place -/

def kind (n : Node) : String := n.tree.label.kind

def isNamed (n : Node) : Bool := n.tree.label.named

def field (n : Node) : Option String := n.tree.label.field

/-- The first byte of the node. -/
def start (n : Node) : Nat := n.tree.label.start

/-- The byte after the node's last one. -/
def stop (n : Node) : Nat := n.tree.label.stop

/-- The part of `source` that the node spans. -/
def text (n : Node) (source : String) : String := Text.slice source n.start n.stop

/-- The indices of the way from the root, last one first. -/
def path (n : Node) : List Nat := n.trail.map Frame.index

/-- The two places are one, given that they are places of one tree. -/
def isSame (m n : Node) : Bool := m.path == n.path

/-! ### Down -/

/-- The topmost place of a tree. -/
def ofTree (t : Tree) : Node := ⟨t, []⟩

/-- The children from index `i` on. -/
def childrenFrom (parent : Tree) (trail : List Frame) : Nat → List Tree → List Node
  | _, [] => []
  | i, t :: ts => ⟨t, ⟨parent, i⟩ :: trail⟩ :: childrenFrom parent trail (i + 1) ts

/-- The children in source order. -/
def children (n : Node) : List Node := childrenFrom n.tree n.trail 0 n.tree.children

/-- The named children in source order. -/
def namedChildren (n : Node) : List Node := n.children.filter isNamed

/-- The child with index `i`. -/
def child? (n : Node) (i : Nat) : Option Node := n.children[i]?

/-- The named child with index `i` among the named ones. -/
def namedChild? (n : Node) (i : Nat) : Option Node := n.namedChildren[i]?

theorem mem_children_of_namedChild? {n c : Node} {i : Nat} (h : n.namedChild? i = some c) :
    c ∈ n.children :=
  (List.mem_filter.1 (List.mem_of_getElem? h)).1

/-- The first child of the kind. -/
def childOfKind? (n : Node) (kind : String) : Option Node := n.children.find? (·.kind == kind)

/-- There is a child of the kind. -/
def hasChildOfKind (n : Node) (kind : String) : Bool := n.children.any (·.kind == kind)

/-- The children of the kind, in source order. -/
def childrenOfKind (n : Node) (kind : String) : List Node := n.children.filter (·.kind == kind)

/-- The first child that fills the field. -/
def childInField? (n : Node) (field : String) : Option Node :=
  n.children.find? (·.field == some field)

/-! ### Up and sideways -/

/-- The nodes of a way up, nearest first. -/
def ofTrail : List Frame → List Node
  | [] => []
  | f :: fs => ⟨f.parent, fs⟩ :: ofTrail fs

/-- The nodes above this one, nearest first. -/
def ancestors (n : Node) : List Node := ofTrail n.trail

def parent? (n : Node) : Option Node := n.ancestors.head?

/-- The nearest ancestor whose kind is among `kinds`. -/
def ancestorOfKind? (n : Node) (kinds : List String) : Option Node :=
  n.ancestors.find? fun a => kinds.contains a.kind

/-- The siblings after this node, in source order. -/
def following (n : Node) : List Node :=
  match n.trail with
  | [] => []
  | f :: fs => (children ⟨f.parent, fs⟩).drop (f.index + 1)

/-- The siblings before this node, in source order. -/
def preceding (n : Node) : List Node :=
  match n.trail with
  | [] => []
  | f :: fs => (children ⟨f.parent, fs⟩).take f.index

def nextSibling? (n : Node) : Option Node := n.following.head?

def prevSibling? (n : Node) : Option Node := n.preceding.getLast?

/-! ### All nodes of a tree -/

mutual

/-- The places of a subtree that hangs on the given way up, each before its children. -/
def placesOf : Tree → List Frame → List Node
  | .node l cs, trail => ⟨.node l cs, trail⟩ :: placesOfAll (.node l cs) trail 0 cs

/-- The places below the children from index `i` on. -/
def placesOfAll (parent : Tree) (trail : List Frame) : Nat → List Tree → List Node
  | _, [] => []
  | i, t :: ts => placesOf t (⟨parent, i⟩ :: trail) ++ placesOfAll parent trail (i + 1) ts

end

/-- This node and all below it, each before its children. -/
def preorder (n : Node) : List Node := placesOf n.tree n.trail

/-- The places of a tree: its top, and the children of its places. -/
inductive Within (t : Tree) : Node → Prop where
  | top : Within t (ofTree t)
  | child {n c : Node} (hn : Within t n) (hc : c ∈ n.children) : Within t c

/-! ### The node at a byte -/

/-- The last node on the way down to byte `b`, at most `fuel` steps down: among the children the
first that ends after `b` is the only one to enter, and it is entered when it does not start
after `b`. -/
def descend (b : Nat) : Nat → Node → Node
  | 0, n => n
  | fuel + 1, n =>
    match n.children.find? (fun c => b < c.stop) with
    | some c => if c.start ≤ b then descend b fuel c else n
    | none => n

/-- The lowest node that a way down to byte `b` reaches. -/
def atByte (n : Node) (b : Nat) : Node := descend b n.tree.height n

/-! ### How the functions hang together -/

theorem mem_childrenFrom {parent : Tree} {trail : List Frame} {c : Node} {ts : List Tree} :
    ∀ {i : Nat}, c ∈ childrenFrom parent trail i ts →
      ∃ j, c.trail = ⟨parent, i + j⟩ :: trail ∧ ts[j]? = some c.tree := by
  induction ts with
  | nil => intro i h; cases h
  | cons t ts ih =>
    intro i h
    rcases List.mem_cons.1 h with rfl | h
    · exact ⟨0, rfl, rfl⟩
    · obtain ⟨j, h₁, h₂⟩ := ih h
      exact ⟨j + 1, by rw [h₁]; congr 2; omega, by simpa using h₂⟩

theorem trail_of_mem_children {n c : Node} (h : c ∈ n.children) :
    ∃ i, c.trail = ⟨n.tree, i⟩ :: n.trail ∧ n.tree.children[i]? = some c.tree := by
  obtain ⟨j, h₁, h₂⟩ := mem_childrenFrom h
  exact ⟨j, by simpa using h₁, h₂⟩

theorem parent?_of_mem_children {n c : Node} (h : c ∈ n.children) : c.parent? = some n := by
  obtain ⟨i, h, -⟩ := trail_of_mem_children h
  simp [parent?, ancestors, h, ofTrail]

theorem height_lt_of_mem_children {n c : Node} (h : c ∈ n.children) :
    c.tree.height < n.tree.height := by
  obtain ⟨i, -, h⟩ := trail_of_mem_children h
  exact Tree.height_lt (List.mem_of_getElem? h)

end Node

end Crossref
