import Mathlib.Data.List.Nodup
import Crossref.Proofs.Tree.Spans

/-!
# Proofs — Tree — leaving comments out

A tree without some of its comments.  Comments are leaves that a grammar lets stand between any two
nodes, so each other place of the tree has its place in what is left.  All that is asked of a place
is asked of its children, of the nodes above and of its siblings, so it is enough to know these.

* `children_without`, `ancestors_without`, `following_without`, `preceding_without`: around a place
  of what is left stands what is left around the place.
* `find?_kind_leftOf`, `filter_kind_leftOf`: where comments are passed over, a child is found as
  before.
-/

namespace Crossref

/-- The kinds of comments. -/
def commentKinds : List String := ["line_comment", "multiline_comment"]

theorem mem_commentKinds_iff {k : String} :
    k ∈ commentKinds ↔ k = "line_comment" ∨ k = "multiline_comment" := by
  simp [commentKinds]

/-- Some of the comments that stand in trees. -/
structure Comments where
  chosen : Tree → Bool
  kind_mem : ∀ t, chosen t = true → t.label.kind ∈ commentKinds
  named : ∀ t, chosen t = true → t.label.named = true
  leaf : ∀ t, chosen t = true → t.children = []

/-- No comments. -/
def Comments.empty : Comments where
  chosen _ := false
  kind_mem _ h := nomatch h
  named _ h := nomatch h
  leaf _ h := nomatch h

/-- All comments. -/
def Comments.all : Comments where
  chosen t := commentKinds.contains t.label.kind && t.label.named && t.children.isEmpty
  kind_mem t h := by
    rw [Bool.and_eq_true, Bool.and_eq_true] at h
    exact List.contains_iff_mem.1 h.1.1
  named t h := by
    rw [Bool.and_eq_true, Bool.and_eq_true] at h
    exact h.1.2
  leaf t h := by
    rw [Bool.and_eq_true] at h
    exact List.isEmpty_iff.1 h.2

/-! ### Without what is dropped -/

namespace Tree

variable (out : Comments)

mutual

/-- The tree without what is dropped below its top. -/
def without : Tree → Tree
  | .node l cs => .node l (withoutAll cs)

/-- The trees that are not dropped, each without what is dropped below its top. -/
def withoutAll : List Tree → List Tree
  | [] => []
  | t :: ts => if out.chosen t then withoutAll ts else without t :: withoutAll ts

end

variable {out}

/-- Among children those that are chosen are left out, and the others are taken without what is
chosen below them. -/
theorem withoutAll_eq (ts : List Tree) :
    withoutAll out ts = (ts.filter fun t => !out.chosen t).map (without out) := by
  induction ts with
  | nil => rfl
  | cons t ts ih => cases h : out.chosen t <;> simp [withoutAll, h, ih]

@[simp] theorem label_without (t : Tree) : (t.without out).label = t.label := by
  cases t
  rfl

theorem children_without (t : Tree) :
    (t.without out).children = (t.children.filter fun t => !out.chosen t).map (without out) := by
  cases t
  exact withoutAll_eq _

/-- Where nothing is dropped, everything is left. -/
theorem without_eq_self (h : ∀ t, out.chosen t = false) : ∀ t : Tree, t.without out = t
  | .node l cs => by
      have hall : ∀ ts : List Tree, (∀ t ∈ ts, t.without out = t) → withoutAll out ts = ts := by
        intro ts hts
        rw [withoutAll_eq, List.filter_eq_self.2 fun t _ => by simp [h]]
        exact (List.map_congr_left hts).trans (List.map_id ts)
      rw [without, hall cs fun t _ => without_eq_self h t]

end Tree

/-- The index of the step counts what stays only. -/
def Frame.without (out : Comments) (f : Frame) : Frame :=
  ⟨f.parent.without out, ((f.parent.children.take f.index).filter fun t => !out.chosen t).length⟩

namespace Node

section Places

variable (out : Comments)

/-- The place in what is left. -/
def without (n : Node) : Node := ⟨n.tree.without out, n.trail.map (Frame.without out)⟩

/-- The node itself is not dropped. -/
def isKept (n : Node) : Bool := !out.chosen n.tree

end Places

variable {out : Comments}

@[simp] theorem kind_without (n : Node) : (n.without out).kind = n.kind := by
  simp [kind, without]

@[simp] theorem isNamed_without (n : Node) : (n.without out).isNamed = n.isNamed := by
  simp [isNamed, without]

@[simp] theorem start_without (n : Node) : (n.without out).start = n.start := by
  simp [start, without]

@[simp] theorem stop_without (n : Node) : (n.without out).stop = n.stop := by
  simp [stop, without]

@[simp] theorem text_without (n : Node) (source : String) :
    (n.without out).text source = n.text source := by
  simp [text]

/-! ### What is left of a list of places -/

section Lists

variable (out : Comments)

/-- What is left of the places of a list. -/
def leftOf (l : List Node) : List Node := (l.filter (isKept out)).map (without out)

end Lists

theorem kind_mem_of_not_isKept {c : Node} (hc : c.isKept out = false) : c.kind ∈ commentKinds :=
  out.kind_mem c.tree (by simpa [isKept] using hc)

theorem isNamed_of_not_isKept {c : Node} (hc : c.isKept out = false) : c.isNamed = true :=
  out.named c.tree (by simpa [isKept] using hc)

/-- What is no comment stays. -/
theorem isKept_of_kind {c : Node} (hc : c.kind ∉ commentKinds) : c.isKept out = true := by
  by_contra hk
  exact hc (kind_mem_of_not_isKept (by simpa using hk))

/-- What is of another kind than comments stays. -/
theorem isKept_of_kind_eq {c : Node} {k : String} (hc : c.kind = k) (hk : k ∉ commentKinds) :
    c.isKept out = true :=
  isKept_of_kind (hc ▸ hk)

theorem leftOf_append (l m : List Node) : leftOf out (l ++ m) = leftOf out l ++ leftOf out m := by
  simp [leftOf]

theorem leftOf_cons_of_kept {c : Node} (hc : c.isKept out = true) (l : List Node) :
    leftOf out (c :: l) = c.without out :: leftOf out l := by
  simp [leftOf, hc]

theorem leftOf_cons_of_not_kept {c : Node} (hc : c.isKept out = false) (l : List Node) :
    leftOf out (c :: l) = leftOf out l := by
  simp [leftOf, hc]

theorem leftOf_eq_map {l : List Node} (h : ∀ c ∈ l, c.isKept out = true) :
    leftOf out l = l.map (without out) := by
  rw [leftOf, List.filter_eq_self.2 h]

/-- What is left of a list are its places that stay. -/
theorem mem_leftOf_iff {l : List Node} {m : Node} :
    m ∈ leftOf out l ↔ ∃ c ∈ l, c.isKept out = true ∧ c.without out = m := by
  simp [leftOf, and_assoc]

/-- A search that passes over comments stops where it stopped. -/
theorem find?_leftOf {p p' : Node → Bool} {l : List Node}
    (hp : ∀ c ∈ l, c.isKept out = true → p' (c.without out) = p c)
    (hout : ∀ c ∈ l, c.isKept out = false → p c = false) :
    (leftOf out l).find? p' = (l.find? p).map (without out) := by
  induction l with
  | nil => rfl
  | cons c l ih =>
      have ih := ih (fun d hd => hp d (List.mem_cons_of_mem _ hd))
        fun d hd => hout d (List.mem_cons_of_mem _ hd)
      cases hk : c.isKept out with
      | true =>
          rw [leftOf_cons_of_kept hk, List.find?_cons, List.find?_cons, hp c List.mem_cons_self hk]
          cases p c with
          | true => rfl
          | false => exact ih
      | false =>
          rw [leftOf_cons_of_not_kept hk, List.find?_cons_of_neg (by
            simp [hout c List.mem_cons_self hk]), ih]

/-- A search that does not stop at a comment that is left out stops where it stopped. -/
theorem find?_leftOf_of_isKept {p : Node → Bool} (hp : ∀ c, p (c.without out) = p c) :
    ∀ {l : List Node}, (∀ c ∈ l.find? p, c.isKept out = true) →
      (leftOf out l).find? p = (l.find? p).map (without out)
  | [], _ => rfl
  | c :: l, h => by
      cases hc : p c with
      | true =>
          rw [List.find?_cons_of_pos hc] at h ⊢
          rw [leftOf_cons_of_kept (h c rfl), List.find?_cons_of_pos (by rw [hp, hc])]
          rfl
      | false =>
          rw [List.find?_cons_of_neg (by simp [hc])] at h ⊢
          rw [← find?_leftOf_of_isKept hp h]
          cases hk : c.isKept out with
          | true => rw [leftOf_cons_of_kept hk, List.find?_cons_of_neg (by simp [hp, hc])]
          | false => rw [leftOf_cons_of_not_kept hk]

/-- A selection that decides alike about what stays selects what is left of the selected. -/
theorem filter_leftOf_congr {p p' : Node → Bool} {l : List Node}
    (hp : ∀ c ∈ l, c.isKept out = true → p' (c.without out) = p c) :
    (leftOf out l).filter p' = leftOf out (l.filter p) := by
  rw [leftOf, leftOf, List.filter_map, List.filter_filter, List.filter_filter]
  refine congrArg _ (List.filter_congr fun c hc => ?_)
  cases hk : c.isKept out with
  | true => rw [Function.comp_apply, hp c hc hk, Bool.and_true, Bool.true_and]
  | false => rw [Bool.and_false, Bool.false_and]

/-- A choice that does not depend on what is left out can be made before or after. -/
theorem filter_leftOf {p : Node → Bool} {l : List Node} (hp : ∀ c, p (c.without out) = p c) :
    (leftOf out l).filter p = leftOf out (l.filter p) :=
  filter_leftOf_congr fun c _ _ => hp c

/-- What is found and stays is left. -/
theorem leftOf_toList {o : Option Node} (h : ∀ c ∈ o, c.isKept out = true) :
    leftOf out o.toList = (o.map (without out)).toList := by
  cases o with
  | none => rfl
  | some c => exact leftOf_cons_of_kept (h c rfl) []

/-- The front of a list is cut in the same place when no comment ends it. -/
theorem takeWhile_leftOf {p : Node → Bool} {l : List Node} (hp : ∀ c, p (c.without out) = p c)
    (hout : ∀ c ∈ l, c.isKept out = false → p c = true) :
    (leftOf out l).takeWhile p = leftOf out (l.takeWhile p) := by
  induction l with
  | nil => rfl
  | cons c l ih =>
      have ih := ih fun d hd => hout d (List.mem_cons_of_mem _ hd)
      cases hk : c.isKept out with
      | true =>
          rw [leftOf_cons_of_kept hk, List.takeWhile_cons, List.takeWhile_cons, hp]
          cases p c with
          | true => simp only [if_true, ih, leftOf_cons_of_kept hk]
          | false => rfl
      | false =>
          rw [leftOf_cons_of_not_kept hk, ih, List.takeWhile_cons_of_pos
            (hout c List.mem_cons_self hk), leftOf_cons_of_not_kept hk]

theorem dropWhile_leftOf {p : Node → Bool} {l : List Node} (hp : ∀ c, p (c.without out) = p c)
    (hout : ∀ c ∈ l, c.isKept out = false → p c = true) :
    (leftOf out l).dropWhile p = leftOf out (l.dropWhile p) := by
  induction l with
  | nil => rfl
  | cons c l ih =>
      have ih := ih fun d hd => hout d (List.mem_cons_of_mem _ hd)
      cases hk : c.isKept out with
      | true =>
          rw [leftOf_cons_of_kept hk, List.dropWhile_cons, List.dropWhile_cons, hp]
          cases p c with
          | true => exact ih
          | false => exact (leftOf_cons_of_kept hk l).symm
      | false =>
          rw [leftOf_cons_of_not_kept hk, ih, List.dropWhile_cons_of_pos
            (hout c List.mem_cons_self hk)]

/-- Walks that lead nowhere at comments lead where they led. -/
theorem flatMap_leftOf {β : Type} {g g' : Node → List β} {l : List Node}
    (hg : ∀ c ∈ l, c.isKept out = true → g' (c.without out) = g c)
    (hout : ∀ c ∈ l, c.isKept out = false → g c = []) :
    (leftOf out l).flatMap g' = l.flatMap g := by
  induction l with
  | nil => rfl
  | cons c l ih =>
      have ih := ih (fun d hd => hg d (List.mem_cons_of_mem _ hd))
        fun d hd => hout d (List.mem_cons_of_mem _ hd)
      cases hk : c.isKept out with
      | true =>
          rw [leftOf_cons_of_kept hk, List.flatMap_cons, List.flatMap_cons, ih,
            hg c List.mem_cons_self hk]
      | false =>
          rw [leftOf_cons_of_not_kept hk, List.flatMap_cons, ih, hout c List.mem_cons_self hk,
            List.nil_append]

/-- Where nothing is left out before, counting leads where it led. -/
theorem getElem?_leftOf :
    ∀ {l : List Node} {k : Nat}, (∀ c ∈ l.take (k + 1), c.isKept out = true) →
      (leftOf out l)[k]? = l[k]?.map (without out)
  | [], _, _ => by simp [leftOf]
  | c :: l, 0, h => by
      rw [leftOf_cons_of_kept (h c (by simp))]
      rfl
  | c :: l, k + 1, h => by
      rw [leftOf_cons_of_kept (h c (by simp)), List.getElem?_cons_succ, List.getElem?_cons_succ]
      exact getElem?_leftOf fun d hd => h d (by simp [hd])

theorem head?_leftOf {l : List Node} (h : ∀ c ∈ l.head?, c.isKept out = true) :
    (leftOf out l).head? = l.head?.map (without out) := by
  cases l with
  | nil => rfl
  | cons c l =>
      rw [leftOf_cons_of_kept (h c rfl)]
      rfl

theorem getLast?_leftOf {l : List Node} (h : ∀ c ∈ l.getLast?, c.isKept out = true) :
    (leftOf out l).getLast? = l.getLast?.map (without out) := by
  rcases List.eq_nil_or_concat l with rfl | ⟨l, c, rfl⟩
  · rfl
  · rw [List.concat_eq_append] at h ⊢
    rw [leftOf_append, leftOf_cons_of_kept (h c (by simp))]
    simp [leftOf]

theorem reverse_leftOf (l : List Node) : (leftOf out l).reverse = leftOf out l.reverse := by
  rw [leftOf, leftOf, ← List.map_reverse, List.filter_reverse]

/-- A look at the first of what is left, where nothing that is looked for stands behind a comment.
-/
theorem any_head?_leftOf {p p' : Node → Bool} {l : List Node}
    (hp : ∀ c ∈ l, c.isKept out = true → p' (c.without out) = p c)
    (hout : ∀ c ∈ l.head?, c.isKept out = false → ∀ d ∈ l, p d = false) :
    (leftOf out l).head?.any p' = l.head?.any p := by
  cases l with
  | nil => rfl
  | cons c l =>
      cases hk : c.isKept out with
      | true =>
          rw [leftOf_cons_of_kept hk, List.head?_cons, List.head?_cons, Option.any_some,
            Option.any_some, hp c List.mem_cons_self hk]
      | false =>
          have hnone := hout c rfl hk
          rw [List.head?_cons, Option.any_some, hnone c List.mem_cons_self,
            leftOf_cons_of_not_kept hk, Option.any_eq_false]
          intro m hm
          obtain ⟨d, hd, hdk, rfl⟩ := mem_leftOf_iff.1 (List.mem_of_head? hm)
          have hd := List.mem_cons_of_mem c hd
          rw [hp d hd hdk, hnone d hd]

/-- A look at the last of what is left, where nothing that is looked for stands before a comment. -/
theorem any_getLast?_leftOf {p p' : Node → Bool} {l : List Node}
    (hp : ∀ c ∈ l, c.isKept out = true → p' (c.without out) = p c)
    (hout : ∀ c ∈ l.getLast?, c.isKept out = false → ∀ d ∈ l, p d = false) :
    (leftOf out l).getLast?.any p' = l.getLast?.any p := by
  rw [← List.head?_reverse] at hout
  rw [← List.head?_reverse, ← List.head?_reverse, reverse_leftOf]
  exact any_head?_leftOf (fun c hc => hp c (List.mem_reverse.1 hc)) fun c hc hk d hd =>
    hout c hc hk d (List.mem_reverse.1 hd)

/-! ### What stands around a place -/

/-- Children that are left have as many left before them as before. -/
theorem childrenFrom_without {parent : Tree} {trail : List Frame} {ts : List Tree} :
    ∀ (before : List Tree), parent.children = before ++ ts →
      childrenFrom (parent.without out) (trail.map (Frame.without out))
          (before.filter fun t => !out.chosen t).length (Tree.withoutAll out ts) =
        ((childrenFrom parent trail before.length ts).filter (isKept out)).map (without out) := by
  induction ts with
  | nil => intro before _; rfl
  | cons t ts ih =>
      intro before h
      have hnext := ih (before ++ [t]) (by rw [h, List.append_assoc]; rfl)
      rw [List.length_append, List.length_singleton] at hnext
      cases ht : out.chosen t with
      | true =>
          rw [List.filter_append, List.filter_cons_of_neg (by simp [ht]), List.filter_nil,
            List.append_nil] at hnext
          rw [Tree.withoutAll, if_pos ht, childrenFrom,
            List.filter_cons_of_neg (by simp [isKept, ht])]
          exact hnext
      | false =>
          rw [List.filter_append, List.filter_cons_of_pos (by simp [ht]), List.filter_nil,
            List.length_append, List.length_singleton] at hnext
          rw [Tree.withoutAll, if_neg (by simp [ht]), childrenFrom, childrenFrom,
            List.filter_cons_of_pos (by simp [isKept, ht]), List.map_cons, hnext]
          congr 1
          simp [without, Frame.without, h]

/-- **The children of what is left** are those that stay. -/
theorem children_without (n : Node) :
    (n.without out).children = leftOf out n.children := by
  rw [children, children, without, Tree.children_without, ← Tree.withoutAll_eq]
  exact childrenFrom_without [] rfl

/-- **The nodes above what is left** are the nodes above. -/
theorem ancestors_without (n : Node) :
    (n.without out).ancestors = n.ancestors.map (without out) := by
  unfold ancestors without
  induction n.trail with
  | nil => rfl
  | cons f fs ih =>
      rw [List.map_cons, ofTrail, ofTrail, List.map_cons, ih]
      rfl

theorem parent?_without (n : Node) : (n.without out).parent? = n.parent?.map (without out) := by
  rw [parent?, parent?, ancestors_without, List.head?_map]

theorem without_ofTree (t : Tree) : (ofTree t).without out = ofTree (t.without out) := rfl

/-- Around a child that stays, what stays of the children is left. -/
theorem children_without_split {n c : Node} {before after : List Node}
    (hs : n.children = before ++ c :: after) (hc : c.isKept out = true) :
    (n.without out).children = leftOf out before ++ c.without out :: leftOf out after := by
  rw [children_without, hs, leftOf_append, leftOf_cons_of_kept hc]

/-- **The siblings behind what is left** are those that stay. -/
theorem following_without {t : Tree} {n : Node} (hn : Within t n) (hk : n.isKept out = true) :
    (n.without out).following = leftOf out n.following := by
  cases hn with
  | top => rfl
  | @child p _ _ hc =>
      obtain ⟨before, hs⟩ := exists_children_of_mem hc
      exact following_of_children (children_without_split hs hk)

/-- The siblings before a child are the children before it. -/
theorem preceding_of_children {n c : Node} {before after : List Node}
    (h : n.children = before ++ c :: after) : c.preceding = before := by
  have hc : n.children[before.length]? = some c := by simp [h]
  rw [children, getElem?_childrenFrom] at hc
  obtain ⟨t, -, rfl⟩ := Option.map_eq_some_iff.1 hc
  have htake : n.children.take before.length = before := by
    rw [h, List.take_left' rfl]
  simpa [preceding] using htake

/-- **The siblings before what is left** are those that stay. -/
theorem preceding_without {t : Tree} {n : Node} (hn : Within t n) (hk : n.isKept out = true) :
    (n.without out).preceding = leftOf out n.preceding := by
  cases hn with
  | top => rfl
  | @child p _ _ hc =>
      obtain ⟨before, after, hs⟩ := List.append_of_mem hc
      rw [preceding_of_children hs]
      exact preceding_of_children (children_without_split hs hk)

/-! ### Siblings stay apart -/

theorem nodup_children (n : Node) : n.children.Nodup := by
  refine (separate_children n).imp_of_mem fun {c d} hc hd hcd heq => ?_
  exact hcd c .refl (heq ▸ .refl)

/-- Children are the same if their indices are. -/
theorem isSame_iff_of_mem_children {n c d : Node} (hc : c ∈ n.children) (hd : d ∈ n.children) :
    c.isSame d = true ↔ c = d := by
  constructor
  · intro h
    obtain ⟨i, hci, hct⟩ := trail_of_mem_children hc
    obtain ⟨j, hdj, hdt⟩ := trail_of_mem_children hd
    have hij : i = j := by simpa [isSame, path, hci, hdj] using h
    subst hij
    have htree : c.tree = d.tree := Option.some.inj (hct.symm.trans hdt)
    cases c
    cases d
    simp_all
  · rintro rfl
    simp [isSame]

/-- **Siblings stay apart.** -/
theorem isSame_without {n c d : Node} (hc : c ∈ n.children) (hd : d ∈ n.children)
    (hck : c.isKept out = true) (hdk : d.isKept out = true) :
    (c.without out).isSame (d.without out) = c.isSame d := by
  have hmem : ∀ x ∈ n.children, x.isKept out = true → x.without out ∈ (n.without out).children := by
    intro x hx hk
    rw [children_without]
    exact List.mem_map_of_mem (List.mem_filter.2 ⟨hx, hk⟩)
  have hinj : c.without out = d.without out → c = d := by
    have hnodup := nodup_children (n.without out)
    rw [children_without] at hnodup
    exact List.inj_on_of_nodup_map hnodup (List.mem_filter.2 ⟨hc, hck⟩)
      (List.mem_filter.2 ⟨hd, hdk⟩)
  rw [Bool.eq_iff_iff, isSame_iff_of_mem_children (hmem c hc hck) (hmem d hd hdk),
    isSame_iff_of_mem_children hc hd]
  exact ⟨hinj, congrArg _⟩

/-! ### Children by kind -/

section Kinds

variable {p : Node → Bool} {l : List Node} (hp : ∀ c, p (c.without out) = p c)
include hp

/-- A search by kind passes over comments. -/
theorem find?_kind_leftOf (hq : ∀ c : Node, c.kind ∈ commentKinds → p c = false) :
    (leftOf out l).find? p = (l.find? p).map (without out) :=
  find?_leftOf (fun c _ _ => hp c) fun c _ hc => hq c (kind_mem_of_not_isKept hc)

/-- What is selected by kind is no comment. -/
theorem filter_kind_leftOf (hq : ∀ c : Node, c.kind ∈ commentKinds → p c = false) :
    (leftOf out l).filter p = (l.filter p).map (without out) := by
  rw [filter_leftOf hp, leftOf_eq_map]
  intro c hc
  refine isKept_of_kind fun hk => ?_
  have hfits := (List.mem_filter.1 hc).2
  rw [hq c hk] at hfits
  cases hfits

theorem takeWhile_kind_leftOf (hq : ∀ c : Node, c.kind ∈ commentKinds → p c = true) :
    (leftOf out l).takeWhile p = leftOf out (l.takeWhile p) :=
  takeWhile_leftOf hp fun c _ hc => hq c (kind_mem_of_not_isKept hc)

theorem dropWhile_kind_leftOf (hq : ∀ c : Node, c.kind ∈ commentKinds → p c = true) :
    (leftOf out l).dropWhile p = leftOf out (l.dropWhile p) :=
  dropWhile_leftOf hp fun c _ hc => hq c (kind_mem_of_not_isKept hc)

end Kinds

section OneKind

variable {n : Node} {k : String}

theorem kind_ne_of_mem_commentKinds (hk : k ∉ commentKinds) (c : Node)
    (hc : c.kind ∈ commentKinds) : (c.kind == k) = false :=
  beq_eq_false_iff_ne.2 fun e => hk (e ▸ hc)

/-- The first child of a kind is the same. -/
theorem childOfKind?_without (hk : k ∉ commentKinds) :
    (n.without out).childOfKind? k = (n.childOfKind? k).map (without out) := by
  rw [childOfKind?, children_without]
  exact find?_kind_leftOf (by simp) (kind_ne_of_mem_commentKinds hk)

/-- So are all children of a kind. -/
theorem childrenOfKind_without (hk : k ∉ commentKinds) :
    (n.without out).childrenOfKind k = (n.childrenOfKind k).map (without out) := by
  rw [childrenOfKind, children_without]
  exact filter_kind_leftOf (by simp) (kind_ne_of_mem_commentKinds hk)

theorem isKept_of_childOfKind? (hk : k ∉ commentKinds) :
    ∀ c ∈ n.childOfKind? k, c.isKept out = true :=
  fun _ hc => isKept_of_kind_eq (mem_of_childOfKind? hc).2 hk

theorem leftOf_childrenOfKind (hk : k ∉ commentKinds) :
    leftOf out (n.childrenOfKind k) = (n.childrenOfKind k).map (without out) :=
  leftOf_eq_map fun _ hc => isKept_of_kind_eq (mem_childrenOfKind_iff.1 hc).2 hk

theorem hasChildOfKind_without (hk : k ∉ commentKinds) :
    (n.without out).hasChildOfKind k = n.hasChildOfKind k := by
  have hfind := congrArg Option.isSome (@childOfKind?_without out n k hk)
  rw [Option.isSome_map, childOfKind?, childOfKind?, List.isSome_find?, List.isSome_find?] at hfind
  exact hfind

end OneKind

/-- Comments are named, so fewer named children may be left. -/
theorem namedChildren_without (n : Node) :
    (n.without out).namedChildren = leftOf out n.namedChildren := by
  rw [namedChildren, children_without]
  exact filter_leftOf (by simp)

/-- The nearest node of some kinds around a place is the same. -/
theorem ancestorOfKind?_without (n : Node) (kinds : List String) :
    (n.without out).ancestorOfKind? kinds = (n.ancestorOfKind? kinds).map (without out) := by
  rw [ancestorOfKind?, ancestors_without, List.find?_map]
  simp only [Function.comp_def, kind_without]
  rfl

/-- There is nothing in a comment. -/
theorem children_of_not_isKept {n : Node} (hk : n.isKept out = false) : n.children = [] := by
  rw [children, out.leaf n.tree (by simpa [isKept] using hk)]
  rfl

/-- What has children stays. -/
theorem isKept_of_mem_children {n c : Node} (hc : c ∈ n.children) : n.isKept out = true := by
  by_contra hk
  rw [children_of_not_isKept (by simpa using hk)] at hc
  cases hc

end Node

end Crossref
