import Crossref.Proofs.Tree.Below

/-!
# Proofs — Tree — spans that nest

A tree is well-formed when every child's span lies in its parent's and siblings stand in source
order without overlap.  Then spans mirror places: what lies below a node lies in its span, places
that are apart have spans one behind the other, and the way down to a byte comes through every
node that spans the byte.

* `WellFormed.span_le`: what lies below a node lies in its span.
* `WellFormed.stop_le_start`: of two places that are apart the earlier ends before the later begins.
* `WellFormed.below_atByte`: the node at a byte lies below every node that spans the byte.
-/

namespace Crossref

/-- The node ends no earlier than it begins, its children lie in its span, and they stand one
behind the other. -/
structure Node.SpansNest (n : Node) : Prop where
  start_le_stop : n.start ≤ n.stop
  inside : ∀ c ∈ n.children, n.start ≤ c.start ∧ c.stop ≤ n.stop
  inOrder : n.children.Pairwise fun c d => c.stop ≤ d.start

/-- Spans nest at every place of the tree. -/
def Tree.WellFormed (t : Tree) : Prop := ∀ n, Node.Within t n → n.SpansNest

instance (n : Node) : Decidable n.SpansNest :=
  decidable_of_iff (n.start ≤ n.stop ∧ (∀ c ∈ n.children, n.start ≤ c.start ∧ c.stop ≤ n.stop) ∧
      n.children.Pairwise fun c d => c.stop ≤ d.start)
    ⟨fun h => ⟨h.1, h.2.1, h.2.2⟩, fun h => ⟨h.1, h.2, h.3⟩⟩

instance (t : Tree) : Decidable t.WellFormed :=
  decidable_of_iff (∀ n ∈ (Node.ofTree t).preorder, n.SpansNest)
    (forall_congr' fun _ => by rw [Node.within_iff_mem_preorder])

namespace Tree.WellFormed
open Node

variable {t : Tree}

theorem start_le_stop (ht : t.WellFormed) {n : Node} (hn : Within t n) : n.start ≤ n.stop :=
  (ht n hn).start_le_stop

theorem child_inside (ht : t.WellFormed) {n c : Node} (hn : Within t n) (hc : c ∈ n.children) :
    n.start ≤ c.start ∧ c.stop ≤ n.stop :=
  (ht n hn).inside c hc

/-- **What lies below a node lies in its span.** -/
theorem span_le (ht : t.WellFormed) {a n : Node} (ha : Within t a) (h : Below a n) :
    a.start ≤ n.start ∧ n.stop ≤ a.stop := by
  induction h with
  | refl => exact ⟨Nat.le_refl _, Nat.le_refl _⟩
  | child hm hc ih =>
      have hin := ht.child_inside (hm.within ha) hc
      exact ⟨Nat.le_trans ih.1 hin.1, Nat.le_trans hin.2 ih.2⟩

/-- Of two children the earlier ends before the later begins. -/
theorem children_apart (ht : t.WellFormed) {p c d : Node} {before between after : List Node}
    (hp : Within t p) (hs : p.children = before ++ c :: (between ++ d :: after)) :
    c.stop ≤ d.start := by
  have hord := (ht p hp).inOrder
  rw [hs] at hord
  exact (List.pairwise_cons.1 (List.pairwise_append.1 hord).2.1).1 d (by simp)

/-- **Of two places that are apart the earlier ends before the later begins.** -/
theorem stop_le_start (ht : t.WellFormed) {a b : Node} (h : Apart t a b) : a.stop ≤ b.start := by
  obtain ⟨p, c, d, l₁, l₂, l₃, hp, hs, hca, hdb⟩ := h
  have hc : Within t c := .child hp (by simp [hs])
  have hd : Within t d := .child hp (by simp [hs])
  calc a.stop ≤ c.stop := (ht.span_le hc hca).2
    _ ≤ d.start := ht.children_apart hp hs
    _ ≤ b.start := (ht.span_le hd hdb).1

/-! ### The way down to a byte -/

/-- The child that spans a byte is the first that ends after it: those before it end before it
begins. -/
theorem find?_child_at (ht : t.WellFormed) {n c : Node} {b : Nat} (hn : Within t n)
    (hc : c ∈ n.children) (h₁ : c.start ≤ b) (h₂ : b < c.stop) :
    n.children.find? (fun d => b < d.stop) = some c := by
  obtain ⟨before, after, hs⟩ := List.append_of_mem hc
  have hord := (ht n hn).inOrder
  rw [hs] at hord ⊢
  refine List.find?_eq_some_iff_append.2 ⟨by simpa using h₂, before, after, rfl, fun d hd => ?_⟩
  have hdc := (List.pairwise_append.1 hord).2.2 d hd c (by simp)
  simpa using Nat.le_trans hdc h₁

theorem below_descend_self (b : Nat) : ∀ (fuel : Nat) (a : Node), Below a (descend b fuel a)
  | 0, a => .refl
  | fuel + 1, a => by
      unfold descend
      split
      · next c hc =>
        split
        · exact (Below.of_mem_children (List.mem_of_find?_eq_some hc)).trans
            (below_descend_self b fuel c)
        · exact .refl
      · exact .refl

/-- The way down from `a` comes through every node below `a` that spans the byte. -/
theorem below_descend (ht : t.WellFormed) {d : Node} {b : Nat} (h₁ : d.start ≤ b)
    (h₂ : b < d.stop) :
    ∀ (fuel : Nat) {a : Node}, Within t a → Below a d → a.tree.height ≤ fuel →
      Below d (descend b fuel a)
  | 0, ⟨.node l cs, _⟩, _, _, hf => by simp [Tree.height] at hf
  | fuel + 1, a, ha, had, hf => by
      rcases had.eq_or_child with rfl | ⟨c, hc, hcd⟩
      · exact below_descend_self b _ _
      · have hcw : Within t c := .child ha hc
        obtain ⟨hs₁, hs₂⟩ := ht.span_le hcw hcd
        -- the child above `d` spans the byte too, so it is the one that the way goes on with
        have hc₁ : c.start ≤ b := Nat.le_trans hs₁ h₁
        have hlow : c.tree.height ≤ fuel :=
          Nat.le_of_lt_succ (Nat.lt_of_lt_of_le (height_lt_of_mem_children hc) hf)
        rw [descend, ht.find?_child_at ha hc hc₁ (Nat.lt_of_lt_of_le h₂ hs₂)]
        simp only [hc₁, if_true]
        exact below_descend ht h₁ h₂ fuel hcw hcd hlow

/-- **The node at a byte lies below every node that spans the byte.** -/
theorem below_atByte (ht : t.WellFormed) {d : Node} {b : Nat} (hd : Within t d)
    (h₁ : d.start ≤ b) (h₂ : b < d.stop) : Below d ((ofTree t).atByte b) :=
  ht.below_descend h₁ h₂ _ .top (within_iff_below.1 hd) (Nat.le_refl _)

end Tree.WellFormed

/-! ### Writing a tree down -/

namespace Tree

/-- A named node without a field. -/
def named (kind : String) (start stop : Nat) (children : List Tree) : Tree :=
  .node ⟨kind, true, none, start, stop⟩ children

/-- A keyword or a sign. -/
def token (kind : String) (start stop : Nat) : Tree := .node ⟨kind, false, none, start, stop⟩ []

end Tree

end Crossref
