import Crossref.Tree.Node

/-!
# Proofs — Tree — what lies below a node

`Below a n` says that `n` is reached from `a` by going to children; the places of a tree are what
lies below its top.  The ancestors of a place are the nodes it was reached through, the siblings
that follow it are the children behind it, and of two places of a tree one lies below the other or
they lie below two children of one node.

* `mem_preorder_iff`: the walk over a node meets exactly what lies below it.
* `Below.split_ancestors`: the way up from a place below `a` comes through `a`, and everything met
  before lies below `a`.
* `Below.between_or_above`: a node above a place below `a` stands between the two, or above `a`.
* `Within.trichotomy`: one place lies below the other, or they are apart.
* `separate_children`: no place lies below two children of a node.
-/

namespace Crossref.Node

/-- `n` is `a` or is reached from it by going to children. -/
inductive Below (a : Node) : Node → Prop where
  | refl : Below a a
  | child {m c : Node} (hm : Below a m) (hc : c ∈ m.children) : Below a c

namespace Below

/-- To lie below is transitive. -/
theorem trans {a b n : Node} (h₁ : Below a b) (h₂ : Below b n) : Below a n := by
  induction h₂ with
  | refl => exact h₁
  | child _ hc ih => exact .child ih hc

theorem of_mem_children {a c : Node} (h : c ∈ a.children) : Below a c := .child .refl h

/-- What lies below a node is the node or lies below one of its children. -/
theorem eq_or_child {a n : Node} (h : Below a n) : n = a ∨ ∃ c ∈ a.children, Below c n := by
  induction h with
  | refl => exact .inl rfl
  | @child m c _ hc ih =>
      rcases ih with rfl | ⟨d, hd, hm⟩
      · exact .inr ⟨c, hc, .refl⟩
      · exact .inr ⟨d, hd, .child hm hc⟩

end Below

/-! ### Children of a sort -/

theorem mem_childrenOfKind_iff {n c : Node} {kind : String} :
    c ∈ n.childrenOfKind kind ↔ c ∈ n.children ∧ c.kind = kind := by
  simp [childrenOfKind]

theorem mem_of_childOfKind? {n c : Node} {kind : String} (h : n.childOfKind? kind = some c) :
    c ∈ n.children ∧ c.kind = kind :=
  ⟨List.mem_of_find?_eq_some h, by simpa using List.find?_some h⟩

theorem mem_namedChildren_iff {n c : Node} :
    c ∈ n.namedChildren ↔ c ∈ n.children ∧ c.isNamed = true := by
  simp [namedChildren]

theorem mem_of_childInField? {n c : Node} {field : String} (h : n.childInField? field = some c) :
    c ∈ n.children :=
  List.mem_of_find?_eq_some h

/-! ### The places of a tree -/

theorem within_iff_below {t : Tree} {n : Node} : Within t n ↔ Below (ofTree t) n := by
  constructor
  · intro h
    induction h with
    | top => exact .refl
    | child _ hc ih => exact .child ih hc
  · intro h
    induction h with
    | refl => exact .top
    | child _ hc ih => exact .child ih hc

/-- What lies below a place of a tree is a place of the tree. -/
theorem Below.within {t : Tree} {a n : Node} (ha : Within t a) (h : Below a n) : Within t n :=
  within_iff_below.2 ((within_iff_below.1 ha).trans h)

mutual

/-- The places that are listed are those at and below a node. -/
theorem mem_placesOf : ∀ (t : Tree) (trail : List Frame) (n : Node),
    n ∈ placesOf t trail ↔ Below ⟨t, trail⟩ n
  | .node l cs, trail, n => by
      rw [placesOf, List.mem_cons, mem_placesOfAll]
      constructor
      · rintro (rfl | ⟨c, hc, h⟩)
        · exact .refl
        · exact (Below.of_mem_children hc).trans h
      · exact Below.eq_or_child

theorem mem_placesOfAll : ∀ (parent : Tree) (trail : List Frame) (i : Nat) (ts : List Tree)
    (n : Node), n ∈ placesOfAll parent trail i ts ↔
      ∃ c ∈ childrenFrom parent trail i ts, Below c n
  | _, _, _, [], n => by simp [placesOfAll, childrenFrom]
  | parent, trail, i, t :: ts, n => by
      rw [placesOfAll, List.mem_append, mem_placesOf, mem_placesOfAll, childrenFrom]
      simp only [List.mem_cons, exists_eq_or_imp]

end

/-- **The walk over a node meets exactly what lies below it.** -/
theorem mem_preorder_iff {a n : Node} : n ∈ a.preorder ↔ Below a n := mem_placesOf _ _ _

/-- The places of a tree can be listed. -/
theorem within_iff_mem_preorder {t : Tree} {n : Node} :
    Within t n ↔ n ∈ (ofTree t).preorder := by
  rw [within_iff_below, mem_preorder_iff]

/-! ### The way up -/

/-- Around a child there is its parent, and what is around that. -/
theorem ancestors_of_mem_children {n c : Node} (h : c ∈ n.children) :
    c.ancestors = n :: n.ancestors := by
  obtain ⟨i, hi, -⟩ := trail_of_mem_children h
  rw [ancestors, hi]
  rfl

/-- What lies below a child of a node has the node among its ancestors. -/
theorem mem_ancestors_of_below {n c m : Node} (hc : c ∈ n.children) (h : Below c m) :
    n ∈ m.ancestors := by
  induction h with
  | refl =>
      rw [ancestors_of_mem_children hc]
      exact List.mem_cons_self
  | child _ hm ih =>
      rw [ancestors_of_mem_children hm]
      exact List.mem_cons_of_mem _ ih

/-- **The way up from a place below `a` comes through `a`**, and what it meets before lies below
`a`. -/
theorem Below.split_ancestors {a n : Node} (h : Below a n) :
    ∃ met above, n :: n.ancestors = met ++ a :: above ∧ ∀ m ∈ met, Below a m := by
  induction h with
  | refl => exact ⟨[], _, rfl, by simp⟩
  | @child m c hm hc ih =>
      obtain ⟨met, above, hsplit, hmet⟩ := ih
      refine ⟨c :: met, above, ?_, ?_⟩
      · rw [ancestors_of_mem_children hc, hsplit, List.cons_append]
      · intro d hd
        rcases List.mem_cons.1 hd with rfl | hd
        · exact .child hm hc
        · exact hmet d hd

/-- A place of a tree lies below each of its ancestors, and these are places of the tree. -/
theorem Within.ancestor {t : Tree} {n a : Node} (hn : Within t n) (ha : a ∈ n.ancestors) :
    Within t a ∧ Below a n := by
  induction hn with
  | top => cases ha
  | @child m c hm hc ih =>
      rw [ancestors_of_mem_children hc] at ha
      rcases List.mem_cons.1 ha with rfl | ha
      · exact ⟨hm, .of_mem_children hc⟩
      · exact ⟨(ih ha).1, .child (ih ha).2 hc⟩

/-- The node is reached from `n` by going to a child, and on from nodes of the given kinds only. -/
inductive Through (kinds : List String) (n : Node) : Node → Prop where
  | child {c : Node} (hc : c ∈ n.children) : Through kinds n c
  | step {c m : Node} (h : Through kinds n c) (hk : c.kind ∈ kinds) (hm : m ∈ c.children) :
      Through kinds n m

namespace Through

variable {kinds : List String} {n m : Node}

/-- A child of the first child of a kind. -/
theorem of_childOfKind? {c : Node} {kind : String} (hc : n.childOfKind? kind = some c)
    (hk : kind ∈ kinds) (hm : m ∈ c.children) : Through kinds n m :=
  .step (.child (mem_of_childOfKind? hc).1) ((mem_of_childOfKind? hc).2 ▸ hk) hm

/-- A way down begins at a child. -/
theorem exists_child (h : Through kinds n m) : ∃ c ∈ n.children, Below c m := by
  induction h with
  | child hc => exact ⟨_, hc, .refl⟩
  | step _ _ hm ih =>
      obtain ⟨c, hc, hb⟩ := ih
      exact ⟨c, hc, hb.child hm⟩

/-- What stands above the lower node is of one of the kinds, is the upper node, or stands above
it. -/
theorem mem_ancestors_cases (h : Through kinds n m) {a : Node} (ha : a ∈ m.ancestors) :
    a.kind ∈ kinds ∨ a = n ∨ a ∈ n.ancestors := by
  induction h with
  | child hc =>
      rw [ancestors_of_mem_children hc] at ha
      exact .inr (List.mem_cons.1 ha)
  | step _ hk hm ih =>
      rw [ancestors_of_mem_children hm] at ha
      rcases List.mem_cons.1 ha with rfl | ha
      · exact .inl hk
      · exact ih ha

theorem toBelow (h : Through kinds n m) : Below n m := by
  obtain ⟨c, hc, hb⟩ := h.exists_child
  exact (Below.of_mem_children hc).trans hb

theorem mono {others : List String} (h : Through kinds n m) (hsub : kinds ⊆ others) :
    Through others n m := by
  induction h with
  | child hc => exact .child hc
  | step _ hk hm ih => exact .step ih (hsub hk) hm

end Through

/-! ### Depth -/

theorem length_trail_of_mem_children {n c : Node} (h : c ∈ n.children) :
    c.trail.length = n.trail.length + 1 := by
  obtain ⟨i, hi, -⟩ := trail_of_mem_children h
  rw [hi, List.length_cons]

theorem Below.length_trail_le {a n : Node} (h : Below a n) : a.trail.length ≤ n.trail.length := by
  induction h with
  | refl => exact Nat.le_refl _
  | child _ hc ih =>
      rw [length_trail_of_mem_children hc]
      exact Nat.le_succ_of_le ih

theorem length_trail_lt_of_mem_ancestors {a n : Node} (h : a ∈ n.ancestors) :
    a.trail.length < n.trail.length := by
  unfold ancestors at h
  generalize n.trail = trail at h
  induction trail with
  | nil => cases h
  | cons f fs ih =>
      rcases List.mem_cons.1 h with rfl | h
      · exact Nat.lt_succ_self _
      · exact Nat.lt_succ_of_lt (ih h)

/-- Nothing lies below a node and above it. -/
theorem Below.notMem_ancestors {a n : Node} (h : Below a n) : n ∉ a.ancestors :=
  fun hn => Nat.not_lt_of_le h.length_trail_le (length_trail_lt_of_mem_ancestors hn)

/-- **A node above a place below `a`** stands between the two, or above `a`. -/
theorem Below.between_or_above {a n d : Node} (h : Below a n) (hd : d ∈ n.ancestors) :
    (Below a d ∧ Below d n) ∨ d ∈ a.ancestors := by
  induction h with
  | refl => exact .inr hd
  | @child m c hm hc ih =>
      rw [ancestors_of_mem_children hc] at hd
      rcases List.mem_cons.1 hd with rfl | hd
      · exact .inl ⟨hm, .of_mem_children hc⟩
      · exact (ih hd).imp_left fun hb => ⟨hb.1, hb.2.child hc⟩

/-- What lies below a node is the node or has it among its ancestors. -/
theorem Below.eq_or_mem_ancestors {a n : Node} (h : Below a n) : n = a ∨ a ∈ n.ancestors := by
  rcases h.eq_or_child with rfl | ⟨c, hc, hcn⟩
  · exact .inl rfl
  · exact .inr (mem_ancestors_of_below hc hcn)

/-- Two nodes of one depth above a place are the same. -/
theorem Below.eq_of_length_trail_eq {a b n : Node} (ha : Below a n) (hb : Below b n)
    (hlen : a.trail.length = b.trail.length) : a = b := by
  rcases ha.eq_or_mem_ancestors with rfl | han
  · rcases hb.eq_or_mem_ancestors with rfl | hbn
    · rfl
    · exact absurd hlen (Nat.ne_of_gt (length_trail_lt_of_mem_ancestors hbn))
  · rcases hb.between_or_above han with ⟨hba, -⟩ | hab
    · rcases hba.eq_or_mem_ancestors with rfl | hab
      · rfl
      · exact absurd hlen (Nat.ne_of_gt (length_trail_lt_of_mem_ancestors hab))
    · exact absurd hlen (Nat.ne_of_lt (length_trail_lt_of_mem_ancestors hab))

/-! ### Height -/

/-- Trees further down are no higher. -/
theorem Below.height_le {a n : Node} (h : Below a n) : n.tree.height ≤ a.tree.height := by
  induction h with
  | refl => exact Nat.le_refl _
  | child _ hc ih => exact Nat.le_trans (Nat.le_of_lt (height_lt_of_mem_children hc)) ih

/-- What goes on with fuel for a node has some left for its children. -/
theorem exists_fuel_of_height_le {n : Node} {fuel : Nat} (h : n.tree.height ≤ fuel) :
    ∃ rest, fuel = rest + 1 ∧ ∀ c ∈ n.children, c.tree.height ≤ rest := by
  cases fuel with
  | zero =>
      obtain ⟨⟨label, children⟩, trail⟩ := n
      simp [Tree.height] at h
  | succ rest =>
      exact ⟨rest, rfl, fun c hc =>
        Nat.le_of_lt_succ (Nat.lt_of_lt_of_le (height_lt_of_mem_children hc) h)⟩

/-! ### Sideways -/

theorem getElem?_childrenFrom {parent : Tree} {trail : List Frame} :
    ∀ {ts : List Tree} {i j : Nat}, (childrenFrom parent trail i ts)[j]? =
      (ts[j]?).map fun t => ⟨t, ⟨parent, i + j⟩ :: trail⟩
  | [], i, j => by simp [childrenFrom]
  | t :: ts, i, 0 => by simp [childrenFrom]
  | t :: ts, i, j + 1 => by
      rw [childrenFrom, List.getElem?_cons_succ, getElem?_childrenFrom, List.getElem?_cons_succ]
      simp only [Nat.add_assoc, Nat.add_comm 1 j]

/-- The siblings that follow a child are the children behind it. -/
theorem following_of_children {n c : Node} {before after : List Node}
    (h : n.children = before ++ c :: after) : c.following = after := by
  have hc : n.children[before.length]? = some c := by simp [h]
  rw [children, getElem?_childrenFrom] at hc
  obtain ⟨t, -, rfl⟩ := Option.map_eq_some_iff.1 hc
  have hdrop : n.children.drop (before.length + 1) = after := by
    rw [h, List.append_cons, List.drop_left' (by simp)]
  simpa [following] using hdrop

/-- What follows a child comes behind it among the children. -/
theorem exists_children_of_mem {n c : Node} (h : c ∈ n.children) :
    ∃ before, n.children = before ++ c :: c.following := by
  obtain ⟨before, after, hs⟩ := List.append_of_mem h
  exact ⟨before, by rw [hs, following_of_children hs]⟩

theorem length_trail_of_mem_following {n m : Node} (h : m ∈ n.following) :
    m.trail.length = n.trail.length := by
  unfold following at h
  split at h
  · cases h
  · next f fs hf =>
    rw [length_trail_of_mem_children (List.mem_of_mem_drop h), hf, List.length_cons]

theorem Within.following {t : Tree} {n m : Node} (hn : Within t n) (hm : m ∈ n.following) :
    Within t m := by
  cases hn with
  | top => cases hm
  | @child p _ hp hc =>
      obtain ⟨before, hs⟩ := exists_children_of_mem hc
      exact .child hp (by rw [hs]; simp [hm])

/-! ### Two places of a tree -/

/-- `a` and `b` lie below two children of one place of the tree, `a` below the earlier one. -/
def Apart (t : Tree) (a b : Node) : Prop :=
  ∃ p c d before between after, Within t p ∧
    p.children = before ++ c :: (between ++ d :: after) ∧ Below c a ∧ Below d b

/-- Of two members of a list one stands behind the other. -/
theorem split_of_mem_of_ne {α : Type} {x y : α} {l : List α} (hx : x ∈ l) (hy : y ∈ l)
    (hne : x ≠ y) :
    (∃ l₁ l₂ l₃, l = l₁ ++ x :: (l₂ ++ y :: l₃)) ∨ ∃ l₁ l₂ l₃, l = l₁ ++ y :: (l₂ ++ x :: l₃) := by
  obtain ⟨l₁, l₂, rfl⟩ := List.append_of_mem hx
  rcases List.mem_append.1 hy with hy | hy
  · obtain ⟨m₁, m₂, rfl⟩ := List.append_of_mem hy
    exact .inr ⟨m₁, m₂, l₂, by simp⟩
  · obtain ⟨m₁, m₂, rfl⟩ := List.append_of_mem ((List.mem_cons.1 hy).resolve_left hne.symm)
    exact .inl ⟨l₁, m₁, m₂, rfl⟩

/-- **Of two places of a tree one lies below the other, or they are apart.** -/
theorem Within.trichotomy {t : Tree} {a b : Node} (ha : Within t a) (hb : Within t b) :
    Below a b ∨ Below b a ∨ Apart t a b ∨ Apart t b a := by
  induction hb with
  | top => exact .inr (.inl (within_iff_below.1 ha))
  | @child m b hm hb ih =>
      -- going down from `m` to its child `b` matters only where `a` lies below `m` as well
      rcases ih with h | h | ⟨p, c, d, l₁, l₂, l₃, hp, hs, hc, hd⟩ |
        ⟨p, c, d, l₁, l₂, l₃, hp, hs, hc, hd⟩
      · exact .inl (h.child hb)
      · rcases h.eq_or_child with rfl | ⟨c, hc, hca⟩
        · exact .inl (.of_mem_children hb)
        · by_cases hcb : c = b
          · subst hcb; exact .inr (.inl hca)
          · rcases split_of_mem_of_ne hc hb hcb with ⟨l₁, l₂, l₃, hs⟩ | ⟨l₁, l₂, l₃, hs⟩
            · exact .inr (.inr (.inl ⟨m, c, b, l₁, l₂, l₃, hm, hs, hca, .refl⟩))
            · exact .inr (.inr (.inr ⟨m, b, c, l₁, l₂, l₃, hm, hs, .refl, hca⟩))
      · exact .inr (.inr (.inl ⟨p, c, d, l₁, l₂, l₃, hp, hs, hc, hd.child hb⟩))
      · exact .inr (.inr (.inr ⟨p, c, d, l₁, l₂, l₃, hp, hs, hc.child hb, hd⟩))

/-! ### Separate nodes -/

/-- No place lies below two of the nodes. -/
def Separate (l : List Node) : Prop := l.Pairwise fun a b => ∀ m, Below a m → ¬ Below b m

namespace Separate

variable {l k : List Node}

theorem singleton (n : Node) : Separate [n] := List.pairwise_singleton _ _

theorem toList (o : Option Node) : Separate o.toList := by
  cases o with
  | none => exact List.Pairwise.nil
  | some n => exact singleton n

theorem sublist (h : Separate l) (hsub : k.Sublist l) : Separate k := List.Pairwise.sublist hsub h

theorem append (hl : Separate l) (hk : Separate k)
    (h : ∀ a ∈ l, ∀ b ∈ k, ∀ m, Below a m → ¬ Below b m) : Separate (l ++ k) :=
  List.pairwise_append.2 ⟨hl, hk, h⟩

/-- Nodes below separate nodes are separate. -/
theorem flatMap {g : Node → List Node} (hl : Separate l) (hg : ∀ a ∈ l, Separate (g a))
    (hbelow : ∀ a ∈ l, ∀ b ∈ g a, Below a b) : Separate (l.flatMap g) := by
  refine List.pairwise_flatMap.2 ⟨hg, hl.imp_of_mem fun {a c} ha hc h b hb d hd m hbm hdm => ?_⟩
  exact h m ((hbelow a ha b hb).trans hbm) ((hbelow c hc d hd).trans hdm)

/-- Two of the nodes above one place are the same. -/
theorem eq_of_below (h : Separate l) {a b m : Node} (ha : a ∈ l) (hb : b ∈ l) (ham : Below a m)
    (hbm : Below b m) : a = b := by
  by_cases hab : a = b
  · exact hab
  · have apart {c d : Node} {l₁ l₂ l₃ : List Node} (hs : l = l₁ ++ c :: (l₂ ++ d :: l₃)) :
        ∀ m, Below c m → ¬ Below d m :=
      (List.pairwise_cons.1 (List.pairwise_append.1 (hs ▸ h)).2.1).1 d (by simp)
    rcases split_of_mem_of_ne ha hb hab with ⟨_, _, _, hs⟩ | ⟨_, _, _, hs⟩
    · exact absurd hbm (apart hs m ham)
    · exact absurd ham (apart hs m hbm)

end Separate

/-- The way up from a child begins with its index. -/
theorem eq_of_getElem?_children {n c : Node} {i : Nat} (h : n.children[i]? = some c) :
    ∃ t, c = ⟨t, ⟨n.tree, i⟩ :: n.trail⟩ := by
  rw [children, getElem?_childrenFrom] at h
  obtain ⟨t, -, ht⟩ := Option.map_eq_some_iff.1 h
  rw [Nat.zero_add] at ht
  exact ⟨t, ht.symm⟩

/-- The children of a node are separate. -/
theorem separate_children (n : Node) : Separate n.children := by
  refine List.pairwise_iff_getElem.2 fun i j hi hj hij m him hjm => ?_
  obtain ⟨t, ht⟩ := eq_of_getElem?_children (List.getElem?_eq_getElem hi)
  obtain ⟨u, hu⟩ := eq_of_getElem?_children (List.getElem?_eq_getElem hj)
  rw [ht] at him
  rw [hu] at hjm
  have heq : (⟨t, ⟨n.tree, i⟩ :: n.trail⟩ : Node) = ⟨u, ⟨n.tree, j⟩ :: n.trail⟩ :=
    him.eq_of_length_trail_eq hjm rfl
  have hindex : i = j := by
    injection heq with _ htrail
    injection htrail with hframe _
    injection hframe
  exact absurd hindex (Nat.ne_of_lt hij)

theorem separate_childrenOfKind (n : Node) (kind : String) : Separate (n.childrenOfKind kind) :=
  (separate_children n).sublist List.filter_sublist

theorem separate_namedChildren (n : Node) : Separate n.namedChildren :=
  (separate_children n).sublist List.filter_sublist

/-! ### Parts of a node -/

/-- The place lies below a child of one of the kinds. -/
def InPart (kinds : List String) (n m : Node) : Prop :=
  ∃ c ∈ n.children, c.kind ∈ kinds ∧ Below c m

namespace InPart

variable {kinds others : List String} {n m : Node}

theorem below (h : InPart kinds n m) : Below n m := by
  obtain ⟨c, hc, -, hb⟩ := h
  exact (Below.of_mem_children hc).trans hb

/-- What lies below something in a part lies in the part. -/
theorem trans_below {b : Node} (h : InPart kinds n m) (hb : Below m b) : InPart kinds n b := by
  obtain ⟨c, hc, hk, hcm⟩ := h
  exact ⟨c, hc, hk, hcm.trans hb⟩

/-- Nothing lies in parts of different kinds. -/
theorem disjoint (h : InPart kinds n m) (h' : InPart others n m) : ∃ k ∈ kinds, k ∈ others := by
  obtain ⟨c, hc, hk, hb⟩ := h
  obtain ⟨d, hd, hk', hb'⟩ := h'
  obtain rfl := (separate_children n).eq_of_below hc hd hb hb'
  exact ⟨c.kind, hk, hk'⟩

/-- A node is not a part of itself. -/
theorem ne (h : InPart kinds n m) : m ≠ n := by
  rintro rfl
  obtain ⟨c, hc, -, hb⟩ := h
  exact hb.notMem_ancestors (by rw [ancestors_of_mem_children hc]; exact List.mem_cons_self)

end InPart

end Crossref.Node
