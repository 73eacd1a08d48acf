/-!
# Trees

The syntax tree of a source file.  A node carries its kind, whether it is named (a keyword or a
bracket is not), the field it fills in its parent, and the bytes it spans; its children stand in
source order and need not touch.

* `Tree.ofPreorder?_preorder`: a tree is read back from the list of its labels and arities.
* `Tree.height_lt`: a child is lower than its parent, which is what bounds every walk below a node.
-/

namespace Crossref

/-- What one node of a tree says about itself. -/
structure Label where
  kind : String
  named : Bool
  field : Option String
  start : Nat
  stop : Nat
  deriving DecidableEq, Inhabited

/-- A labelled tree with any number of children at each node. -/
inductive Tree where
  | node (label : Label) (children : List Tree)
  deriving Inhabited

namespace Tree

/-- The label of the topmost node. -/
def label : Tree → Label
  | .node l _ => l

/-- The children of the topmost node, in source order. -/
def children : Tree → List Tree
  | .node _ cs => cs

mutual

/-- The number of nodes on the longest way down. -/
def height : Tree → Nat
  | .node _ cs => heightAll cs + 1

/-- The greatest height among the trees. -/
def heightAll : List Tree → Nat
  | [] => 0
  | t :: ts => max (height t) (heightAll ts)

end

theorem height_le_heightAll {t : Tree} {ts : List Tree} (h : t ∈ ts) :
    t.height ≤ heightAll ts := by
  induction ts with
  | nil => cases h
  | cons u us ih =>
    rw [heightAll]
    rcases List.mem_cons.1 h with rfl | h
    · exact Nat.le_max_left _ _
    · exact Nat.le_trans (ih h) (Nat.le_max_right _ _)

theorem height_lt {t u : Tree} (h : u ∈ t.children) : u.height < t.height := by
  cases t with
  | node l cs =>
    rw [height]
    exact Nat.lt_succ_of_le (height_le_heightAll h)

/-! ### A tree as a list -/

mutual

/-- The labels in the order of a walk that meets a node before its children, each with the number
of its children. -/
def preorder : Tree → List (Label × Nat)
  | .node l cs => (l, cs.length) :: preorderAll cs

/-- The walks over the trees, one after the other. -/
def preorderAll : List Tree → List (Label × Nat)
  | [] => []
  | t :: ts => preorder t ++ preorderAll ts

end

/-- Puts a node over the first `arity` trees of the list. -/
def graft (entry : Label × Nat) (trees : List Tree) : List Tree :=
  .node entry.1 (trees.take entry.2) :: trees.drop entry.2

/-- The tree whose walk is the given list. -/
def ofPreorder? (entries : List (Label × Nat)) : Option Tree :=
  match entries.foldr graft [] with
  | [t] => some t
  | _ => none

mutual

theorem foldr_graft_preorder : ∀ (t : Tree) (rest : List Tree),
    (preorder t).foldr graft rest = t :: rest
  | .node l cs, rest => by
    rw [preorder, List.foldr_cons, foldr_graft_preorderAll cs rest]
    simp [graft]

theorem foldr_graft_preorderAll : ∀ (ts rest : List Tree),
    (preorderAll ts).foldr graft rest = ts ++ rest
  | [], _ => rfl
  | t :: ts, rest => by
    rw [preorderAll, List.foldr_append, foldr_graft_preorderAll ts rest,
      foldr_graft_preorder t (ts ++ rest)]
    rfl

end

theorem ofPreorder?_preorder (t : Tree) : ofPreorder? t.preorder = some t := by
  rw [ofPreorder?, foldr_graft_preorder t []]

end Tree

end Crossref
