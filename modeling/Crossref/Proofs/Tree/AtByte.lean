import Crossref.Proofs.Tree.Spans

/-!
# Proofs — Tree — the nodes around a byte

The way up from a node meets the nodes that it lies below, lowest first, so what a search on the way
finds is the lowest of those that it looks for.  The way down to a byte enters a child only when the
child spans the byte: apart from the node at which it begins it comes through the nodes that span
the byte and through no others.

* `find?_way_eq_some_iff`: the search on the way up finds the lowest node of its sort.
* `Below.way_eq`: the way up from below a node ends with the way up from the node.
* `WellFormed.below_atByte_iff`: what the node at a byte lies below is the top or spans the byte.
-/

namespace Crossref.Node

variable {t : Tree}

/-! ### The way up -/

theorem Below.antisymm {a b : Node} (hab : Below a b) (hba : Below b a) : a = b := by
  rcases hab.eq_or_mem_ancestors with rfl | h
  · rfl
  · exact absurd h hba.notMem_ancestors

/-- What a place of a tree lies below is a place of the tree. -/
theorem Within.above {n a : Node} (hn : Within t n) (h : Below a n) : Within t a := by
  rcases h.eq_or_mem_ancestors with rfl | ha
  · exact hn
  · exact (hn.ancestor ha).1

/-- The way up meets what the node lies below. -/
theorem Within.mem_way_iff {n a : Node} (hn : Within t n) : a ∈ n :: n.ancestors ↔ Below a n := by
  rw [List.mem_cons]
  constructor
  · rintro (rfl | ha)
    · exact .refl
    · exact (hn.ancestor ha).2
  · intro h
    exact h.eq_or_mem_ancestors.imp_left Eq.symm

/-- Of two nodes that a place lies below, one lies below the other. -/
theorem Within.linear {n a b : Node} (hn : Within t n) (ha : Below a n) (hb : Below b n) :
    Below a b ∨ Below b a := by
  rcases hb.eq_or_mem_ancestors with rfl | hbn
  · exact .inl ha
  · rcases ha.between_or_above hbn with ⟨hab, -⟩ | hba
    · exact .inl hab
    · exact .inr ((hn.above ha).ancestor hba).2

/-- **The search on the way up finds the lowest node of its sort.** -/
theorem find?_way_eq_some_iff {n m : Node} {p : Node → Bool} (hn : Within t n) :
    (n :: n.ancestors).find? p = some m ↔
      (Below m n ∧ p m = true) ∧ ∀ a, Below a n → p a = true → Below a m := by
  induction hn with
  | top =>
      have htop : ∀ {a}, Below a (ofTree t) → a = ofTree t := fun h =>
        (h.eq_or_mem_ancestors.resolve_right List.not_mem_nil).symm
      rw [List.find?_cons_eq_some]
      constructor
      · rintro (⟨hp, rfl⟩ | ⟨-, h⟩)
        · exact ⟨⟨.refl, hp⟩, fun a ha _ => ha⟩
        · cases h
      · rintro ⟨⟨hm, hp⟩, -⟩
        obtain rfl := htop hm
        exact .inl ⟨hp, rfl⟩
  | @child k c hk hc ih =>
      have hkc : Below k c := .of_mem_children hc
      rw [ancestors_of_mem_children hc]
      by_cases hp : p c = true
      · rw [List.find?_cons_of_pos hp]
        constructor
        · rintro ⟨⟩
          exact ⟨⟨.refl, hp⟩, fun a ha _ => ha⟩
        · rintro ⟨⟨hm, -⟩, hlow⟩
          exact congrArg some ((hlow c .refl hp).antisymm hm)
      · -- the node itself is not of the sort, so the way goes on with its parent
        have hup : ∀ a, p a = true → (Below a c ↔ Below a k) := fun a ha => by
          refine ⟨fun h => ?_, fun h => h.trans hkc⟩
          rcases h.eq_or_mem_ancestors with rfl | hmem
          · exact absurd ha hp
          · rw [ancestors_of_mem_children hc] at hmem
            exact hk.mem_way_iff.1 hmem
        rw [List.find?_cons_of_neg hp, ih]
        constructor
        · rintro ⟨⟨hm, hpm⟩, hlow⟩
          exact ⟨⟨(hup m hpm).2 hm, hpm⟩, fun a ha hpa => hlow a ((hup a hpa).1 ha) hpa⟩
        · rintro ⟨⟨hm, hpm⟩, hlow⟩
          exact ⟨⟨(hup m hpm).1 hm, hpm⟩, fun a ha hpa => hlow a ((hup a hpa).2 ha) hpa⟩

/-- **The way up from below a node ends with the way up from the node**; what it meets before lies
below a child of the node. -/
theorem Below.way_eq {a n : Node} (h : Below a n) :
    ∃ met, n :: n.ancestors = met ++ a :: a.ancestors ∧
      ∀ m ∈ met, ∃ c ∈ a.children, Below c m := by
  induction h with
  | refl => exact ⟨[], rfl, by simp⟩
  | @child k c hk hc ih =>
      obtain ⟨met, hway, hmet⟩ := ih
      refine ⟨c :: met, by rw [ancestors_of_mem_children hc, hway, List.cons_append], ?_⟩
      rw [List.forall_mem_cons]
      refine ⟨?_, hmet⟩
      rcases hk.eq_or_child with rfl | ⟨d, hd, hdk⟩
      · exact ⟨c, hc, .refl⟩
      · exact ⟨d, hd, hdk.child hc⟩

/-! ### The way down -/

/-- What stands on the way down to a byte spans the byte, or is the node at which the way begins. -/
theorem spans_of_below_descend {b : Nat} : ∀ (fuel : Nat) {a m : Node}, Below a m →
    Below m (descend b fuel a) → m = a ∨ (m.start ≤ b ∧ b < m.stop)
  | 0, _, _, ham, hma => .inl (hma.antisymm ham)
  | fuel + 1, a, m, ham, hm => by
      unfold descend at hm
      split at hm
      · next c hfind =>
        split at hm
        · next hstart =>
          rcases ham.eq_or_child with rfl | ⟨d, hd, hdm⟩
          · exact .inl rfl
          · -- the child above `m` is the one that the way goes on with
            have hc : c ∈ a.children := List.mem_of_find?_eq_some hfind
            obtain rfl := (separate_children a).eq_of_below hd hc (hdm.trans hm)
              (Tree.WellFormed.below_descend_self b fuel c)
            rcases spans_of_below_descend fuel hdm hm with rfl | hspans
            · exact .inr ⟨hstart, by simpa using List.find?_some hfind⟩
            · exact .inr hspans
        · exact .inl (hm.antisymm ham)
      · exact .inl (hm.antisymm ham)

end Crossref.Node

namespace Crossref.Tree.WellFormed
open Node

variable {t : Tree}

/-- **What the node at a byte lies below is the top or spans the byte.** -/
theorem below_atByte_iff (ht : t.WellFormed) {n : Node} {b : Nat} (hn : Within t n) :
    Below n ((ofTree t).atByte b) ↔ n = ofTree t ∨ (n.start ≤ b ∧ b < n.stop) := by
  constructor
  · exact spans_of_below_descend _ (within_iff_below.1 hn)
  · rintro (rfl | ⟨h₁, h₂⟩)
    · exact below_descend_self b _ _
    · exact ht.below_atByte hn h₁ h₂

end Crossref.Tree.WellFormed
