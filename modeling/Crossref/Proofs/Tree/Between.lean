import Crossref.Proofs.Tree.Comments

/-!
# Proofs — Tree — comments between other nodes

Comments that stand behind something else and where nothing else begins: leaving them out keeps the
tree as high as it was, and a way down to the first byte of any other node leads where it led.

* `height_without`: the tree stays as high.
* `apart`: a comment lies apart from the first byte of whatever stays.
* `atByte_without`: the node at a byte that lies in no comment.
-/

namespace Crossref

/-- Something that stays stands before each of the comments, and nothing else that stays begins
where one of them does. -/
structure Comments.Between (out : Comments) (t : Tree) : Prop where
  wellFormed : t.WellFormed
  behind : ∀ x, Node.Within t x → x.isKept out = false → ∃ s ∈ x.preceding, s.isKept out = true
  unaligned : ∀ x n, Node.Within t x → x.isKept out = false → Node.Within t n →
    n.isKept out = true → n.start ≠ x.start

/-- The place is one of the tree's, and stays. -/
structure Node.Stays (out : Comments) (t : Tree) (n : Node) : Prop where
  within : Node.Within t n
  kept : n.isKept out = true

namespace Node.Stays
open Node

variable {out : Comments} {t : Tree} {n : Node}

theorem of_mem_children {c : Node} (hn : Stays out t n) (hc : c ∈ n.children)
    (hk : c.isKept out = true) : Stays out t c := ⟨.child hn.within hc, hk⟩

theorem of_childOfKind? {c : Node} {k : String} (hn : Stays out t n)
    (hc : n.childOfKind? k = some c) (hk : k ∉ commentKinds) : Stays out t c := by
  obtain ⟨hmem, hkind⟩ := mem_of_childOfKind? hc
  exact hn.of_mem_children hmem (isKept_of_kind_eq hkind hk)

theorem of_mem_childrenOfKind {c : Node} {k : String} (hn : Stays out t n)
    (hc : c ∈ n.childrenOfKind k) (hk : k ∉ commentKinds) : Stays out t c := by
  obtain ⟨hmem, hkind⟩ := mem_childrenOfKind_iff.1 hc
  exact hn.of_mem_children hmem (isKept_of_kind_eq hkind hk)

/-- A place is a child of its parent. -/
theorem of_parent? {p : Node} (hn : Stays out t n) (hp : n.parent? = some p) :
    n ∈ p.children ∧ Stays out t p := by
  obtain ⟨hw, -⟩ := hn
  cases hw with
  | top => cases hp
  | @child q _ hq hc =>
      rw [parent?_of_mem_children hc] at hp
      obtain rfl := Option.some.inj hp
      exact ⟨hc, hq, isKept_of_mem_children hc⟩

theorem of_mem_preceding {m : Node} (hn : Stays out t n) (hm : m ∈ n.preceding)
    (hk : m.isKept out = true) : Stays out t m := by
  obtain ⟨hw, -⟩ := hn
  cases hw with
  | top => cases hm
  | @child p _ hp hc =>
      obtain ⟨before, after, hs⟩ := List.append_of_mem hc
      rw [preceding_of_children hs] at hm
      exact ⟨.child hp (by simp [hs, hm]), hk⟩

end Node.Stays

namespace Comments.Between
open Node Crossref.Tree

variable {out : Comments} {t : Tree} (h : out.Between t)
include h

theorem top : Stays out t (ofTree t) := by
  refine ⟨.top, ?_⟩
  by_contra hk
  obtain ⟨s, hs, -⟩ := h.behind (ofTree t) .top (by simpa using hk)
  cases hs

/-- Beside comments stands something that stays. -/
theorem beside {n : Node} (hn : Within t n) (hne : n.children ≠ []) :
    ∃ c ∈ n.children, c.isKept out = true := by
  obtain ⟨c, hc⟩ := List.exists_mem_of_ne_nil _ hne
  by_cases hk : c.isKept out = true
  · exact ⟨c, hc, hk⟩
  · obtain ⟨s, hs, hsk⟩ := h.behind c (.child hn hc) (by simpa using hk)
    obtain ⟨before, after, hsplit⟩ := List.append_of_mem hc
    rw [preceding_of_children hsplit] at hs
    exact ⟨s, by simp [hsplit, hs], hsk⟩

omit h in
theorem stays_of_mem_ancestors {n a : Node} (hn : Within t n) (ha : a ∈ n.ancestors) :
    Stays out t a := by
  induction hn with
  | top => cases ha
  | @child p c hp hc ih =>
      rw [ancestors_of_mem_children hc] at ha
      rcases List.mem_cons.1 ha with rfl | ha
      · exact ⟨hp, isKept_of_mem_children hc⟩
      · exact ih ha

/-- The first child stays, since no comment stands in front. -/
theorem isKept_of_head? {n c : Node} (hn : Within t n) (hc : n.children.head? = some c) :
    c.isKept out = true := by
  by_contra hk
  obtain ⟨after, hs⟩ := List.head?_eq_some_iff.1 hc
  obtain ⟨s, hmem, -⟩ := h.behind c (.child hn (List.mem_of_head? hc)) (by simpa using hk)
  have hnone : c.preceding = [] := preceding_of_children hs
  rw [hnone] at hmem
  cases hmem

omit h in
/-- Every place that stays is a place of what is left. -/
theorem within_without {n : Node} (hn : Stays out t n) :
    Within (t.without out) (n.without out) := by
  obtain ⟨hn, hk⟩ := hn
  induction hn with
  | top => exact .top
  | @child p c hp hc ih =>
      refine .child (ih (isKept_of_mem_children hc)) ?_
      rw [Node.children_without]
      exact mem_leftOf_iff.2 ⟨c, hc, hk, rfl⟩

/-- Every place of what is left is one that stays. -/
theorem exists_of_within_without {m : Node} (hm : Within (t.without out) m) :
    ∃ n, Stays out t n ∧ m = n.without out := by
  induction hm with
  | top => exact ⟨ofTree t, h.top, rfl⟩
  | @child p c hp hc ih =>
      obtain ⟨n, hn, rfl⟩ := ih
      rw [Node.children_without] at hc
      obtain ⟨d, hd, hdk, rfl⟩ := mem_leftOf_iff.1 hc
      exact ⟨d, hn.of_mem_children hd hdk, rfl⟩

/-! ### As high as before -/

omit h in
theorem heightAll_le_iff {ts : List Tree} {k : Nat} :
    heightAll ts ≤ k ↔ ∀ u ∈ ts, u.height ≤ k := by
  induction ts with
  | nil => simp [heightAll]
  | cons u us ih => rw [heightAll, Nat.max_le, ih, List.forall_mem_cons]

omit h in
theorem height_pos (u : Tree) : 0 < u.height := by
  cases u
  exact Nat.succ_pos _

omit h in
theorem height_of_chosen {u : Tree} (hu : out.chosen u = true) : u.height = 1 := by
  cases u with
  | node l us =>
      obtain rfl : us = [] := out.leaf _ hu
      rfl

omit h in
/-- Trees that stay as high, some comments among them, are together as high. -/
theorem heightAll_withoutAll {ts : List Tree}
    (hkept : ∀ u ∈ ts, (u.without out).height = u.height)
    (hbeside : ts ≠ [] → ∃ u ∈ ts, out.chosen u = false) :
    heightAll (withoutAll out ts) = heightAll ts := by
  have hmem : ∀ u ∈ ts, out.chosen u = false → u.height ≤ heightAll (withoutAll out ts) := by
    intro u hu hk
    rw [← hkept u hu, withoutAll_eq]
    exact height_le_heightAll (List.mem_map_of_mem (List.mem_filter.2 ⟨hu, by simp [hk]⟩))
  refine Nat.le_antisymm (heightAll_le_iff.2 fun u hu => ?_) (heightAll_le_iff.2 fun u hu => ?_)
  · rw [withoutAll_eq] at hu
    obtain ⟨v, hv, rfl⟩ := List.mem_map.1 hu
    obtain ⟨hv, -⟩ := List.mem_filter.1 hv
    rw [hkept v hv]
    exact height_le_heightAll hv
  · cases hk : out.chosen u with
    | false => exact hmem u hu hk
    | true =>
        obtain ⟨v, hv, hvk⟩ := hbeside (List.ne_nil_of_mem hu)
        rw [height_of_chosen hk]
        exact Nat.le_trans (height_pos v) (hmem v hv hvk)

omit h in
theorem exists_child_of_mem {n : Node} {u : Tree} (hu : u ∈ n.tree.children) :
    ∃ c ∈ n.children, c.tree = u := by
  obtain ⟨i, hi⟩ := List.getElem?_of_mem hu
  refine ⟨⟨u, ⟨n.tree, 0 + i⟩ :: n.trail⟩, List.mem_of_getElem? (i := i) ?_, rfl⟩
  rw [Node.children, getElem?_childrenFrom, hi]
  rfl

/-- What stays of a tree below a place is as high as the tree. -/
theorem height_without_of_le :
    ∀ {fuel : Nat} {n : Node}, n.tree.height ≤ fuel → Within t n →
      (n.tree.without out).height = n.tree.height
  | 0, n, hf, _ => absurd (height_pos n.tree) (Nat.not_lt.2 hf)
  | fuel + 1, ⟨.node l us, trail⟩, hf, hn => by
      have hall : heightAll (withoutAll out us) = heightAll us := by
        refine heightAll_withoutAll (fun u hu => ?_) fun hne => ?_
        · obtain ⟨c, hc, rfl⟩ := exists_child_of_mem (n := ⟨.node l us, trail⟩) hu
          have hlt := Nat.lt_of_lt_of_le (height_lt_of_mem_children hc) hf
          exact height_without_of_le (Nat.le_of_lt_succ hlt) (.child hn hc)
        · obtain ⟨u, hu⟩ := List.exists_mem_of_ne_nil us hne
          obtain ⟨c, hc, -⟩ := exists_child_of_mem (n := ⟨.node l us, trail⟩) hu
          obtain ⟨d, hd, hk⟩ := h.beside hn (List.ne_nil_of_mem hc)
          obtain ⟨i, -, hi⟩ := trail_of_mem_children hd
          exact ⟨d.tree, List.mem_of_getElem? hi, by simpa [isKept] using hk⟩
      rw [Tree.without, height, height, hall]

/-- **The tree stays as high.** -/
theorem height_without {n : Node} (hn : Within t n) :
    (n.without out).tree.height = n.tree.height :=
  h.height_without_of_le (Nat.le_refl _) hn

/-! ### The node at a byte -/

/-- A comment lies apart from the first byte of whatever stays. -/
theorem apart {x n : Node} (hx : Within t x) (hout : x.isKept out = false) (hn : Stays out t n) :
    n.start < x.start ∨ x.stop ≤ n.start := by
  have hne := h.unaligned x n hx hout hn.within hn.kept
  have hlow : n.start ≤ x.start → n.start < x.start ∨ x.stop ≤ n.start :=
    fun hle => .inl (Nat.lt_of_le_of_ne hle hne)
  rcases hn.within.trichotomy hx with hb | hb | hb | hb
  · exact hlow (h.wellFormed.span_le hn.within hb).1
  · rcases hb.eq_or_child with rfl | ⟨c, hc, -⟩
    · exact absurd rfl hne
    · have hk : x.isKept out = true := isKept_of_mem_children hc
      rw [hout] at hk
      cases hk
  · exact hlow (Nat.le_trans (h.wellFormed.start_le_stop hn.within) (h.wellFormed.stop_le_start hb))
  · exact .inr (h.wellFormed.stop_le_start hb)

/-- The child that the way down enters is the first that ends behind the byte; where it is a comment
that is left out, the way ends at the parent before and after. -/
theorem find?_children_without {n : Node} {b : Nat} (hn : Within t n)
    (hb : ∀ x, Within t x → x.isKept out = false → b < x.start ∨ x.stop ≤ b) :
    (∃ c, n.children.find? (fun c => b < c.stop) = some c ∧ c.isKept out = true ∧
      (n.without out).children.find? (fun c => b < c.stop) = some (c.without out)) ∨
    ((∀ c ∈ n.children.find? (fun c => b < c.stop), b < c.start) ∧
      ∀ c ∈ (n.without out).children.find? (fun c => b < c.stop), b < c.start) := by
  rw [Node.children_without]
  cases hfind : n.children.find? fun c => b < c.stop with
  | none =>
      have hnone := List.find?_eq_none.1 hfind
      right
      refine ⟨by simp, fun c hc => ?_⟩
      obtain ⟨d, hd, -, rfl⟩ := mem_leftOf_iff.1 (List.mem_of_find?_eq_some hc)
      have hstop := List.find?_some hc
      exact absurd hstop (by simpa using hnone d hd)
  | some c =>
      obtain ⟨hlt, before, after, hs, hbefore⟩ := List.find?_eq_some_iff_append.1 hfind
      have hlt : b < c.stop := by simpa using hlt
      have hskip : (leftOf out before).find? (fun c => b < c.stop) = none := by
        refine List.find?_eq_none.2 fun m hm => ?_
        obtain ⟨d, hd, -, rfl⟩ := mem_leftOf_iff.1 hm
        simpa using hbefore d hd
      cases hk : c.isKept out with
      | true =>
          refine .inl ⟨c, rfl, hk, ?_⟩
          rw [hs, leftOf_append, leftOf_cons_of_kept hk, List.find?_append, hskip]
          simp [hlt]
      | false =>
          -- the byte lies before the comment, and what stands behind it begins later still
          have hc : b < c.start := (hb c (.child hn (by simp [hs])) hk).resolve_right
            (Nat.not_le.2 hlt)
          refine .inr ⟨fun d hd => by obtain rfl := Option.some.inj hd; exact hc, fun m hm => ?_⟩
          rw [hs, leftOf_append, leftOf_cons_of_not_kept hk, List.find?_append, hskip,
            Option.none_or] at hm
          obtain ⟨d, hd, -, rfl⟩ := mem_leftOf_iff.1 (List.mem_of_find?_eq_some hm)
          have hord := (h.wellFormed n hn).inOrder
          rw [hs] at hord
          have hbehind := (List.pairwise_cons.1 (List.pairwise_append.1 hord).2.1).1 d hd
          rw [start_without]
          exact Nat.lt_of_lt_of_le hlt hbehind

/-- The way down to a byte that lies in no comment. -/
theorem descend_without {b : Nat}
    (hb : ∀ x, Within t x → x.isKept out = false → b < x.start ∨ x.stop ≤ b) :
    ∀ (fuel : Nat) {n : Node}, Stays out t n →
      descend b fuel (n.without out) = (descend b fuel n).without out ∧
        Stays out t (descend b fuel n)
  | 0, n, hn => ⟨rfl, hn⟩
  | fuel + 1, n, hn => by
      rcases h.find?_children_without hn.within hb with ⟨c, hc, hck, hleft⟩ | ⟨hnot, hnotleft⟩
      · rw [descend, descend, hc, hleft]
        simp only [start_without]
        split
        · exact descend_without hb fuel (hn.of_mem_children (List.mem_of_find?_eq_some hc) hck)
        · exact ⟨rfl, hn⟩
      · have hend : ∀ m : Node, (∀ c ∈ m.children.find? (fun c => b < c.stop), b < c.start) →
            descend b (fuel + 1) m = m := by
          intro m hm
          rw [descend]
          split
          · next c hc => rw [if_neg (Nat.not_le.2 (hm c hc))]
          · rfl
        rw [hend n hnot, hend _ hnotleft]
        exact ⟨rfl, hn⟩

/-- **The node at a byte** that lies in no comment. -/
theorem atByte_without {b : Nat}
    (hb : ∀ x, Within t x → x.isKept out = false → b < x.start ∨ x.stop ≤ b) :
    (ofTree (t.without out)).atByte b = ((ofTree t).atByte b).without out ∧
      Stays out t ((ofTree t).atByte b) := by
  have hheight : (t.without out).height = t.height := h.height_without (n := ofTree t) .top
  rw [atByte, atByte, ← without_ofTree]
  change descend b (t.without out).height _ = _ ∧ _
  rw [hheight]
  exact h.descend_without hb t.height h.top

end Comments.Between

end Crossref
