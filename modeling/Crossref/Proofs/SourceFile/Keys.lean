import Crossref.Proofs.Tree.Spans
import Crossref.SourceFile

/-!
# Proofs — source files — keys of declarations

The key of a node is its span, stretched over the accessors that stand behind a property.  A
stretched span still fits the tree: it does not leave the parent, and a sibling lies in it or
behind it.  So two keys of one file nest or lie apart, and a node that is not empty is found again
by its key.

* `keyOf_nested_or_apart`: of two keys of a file one contains the other, or one ends before the
  other begins.
* `ShownAt.exists_nodeFor?`: the search for the key of a node that is not empty finds a node.
-/

namespace Crossref

/-- The file's tree is a tree of its text: spans nest, and they are spans of the text. -/
structure SourceFile.WellFormed (f : SourceFile) : Prop where
  tree : f.tree.WellFormed
  inText : f.top.stop ≤ Text.size f.text

instance (f : SourceFile) : Decidable f.WellFormed :=
  decidable_of_iff (f.tree.WellFormed ∧ f.top.stop ≤ Text.size f.text)
    ⟨fun h => ⟨h.1, h.2⟩, fun h => ⟨h.1, h.2⟩⟩

/-- The key is that of a node of the file that is not empty. -/
def SourceFile.ShownAt (f : SourceFile) (k : DeclKey) : Prop :=
  ∃ n, Node.Within f.tree n ∧ f.keyOf n = k ∧ n.start < n.stop

/-- The declaration with the key is not empty: where a node has the key, one that is not empty has
it. -/
def SourceFile.SolidAt (f : SourceFile) (k : DeclKey) : Prop :=
  ∀ n, Node.Within f.tree n → f.keyOf n = k → f.ShownAt k

instance (f : SourceFile) (k : DeclKey) : Decidable (f.ShownAt k) :=
  decidable_of_iff (∃ n ∈ f.top.preorder, f.keyOf n = k ∧ n.start < n.stop)
    (exists_congr fun _ => by rw [Node.within_iff_mem_preorder]; rfl)

instance (f : SourceFile) (k : DeclKey) : Decidable (f.SolidAt k) :=
  decidable_of_iff (∀ n ∈ f.top.preorder, f.keyOf n = k → f.ShownAt k)
    (forall_congr' fun _ => by rw [Node.within_iff_mem_preorder]; rfl)

/-! ### Accessors behind a property -/

namespace Kotlin
open Node

variable {t : Tree}

theorem spanStop_of_kind_ne {n : Node} (h : n.kind ≠ "property_declaration") :
    spanStop n = n.stop := by
  simp [spanStop, h]

/-- The span ends with the node or with one of its accessors. -/
theorem spanStop_eq (n : Node) :
    spanStop n = n.stop ∨ ∃ a, (siblingAccessors n).getLast? = some a ∧ spanStop n = a.stop := by
  unfold spanStop
  split
  · split
    · next a ha => exact .inr ⟨a, ha, rfl⟩
    · exact .inl rfl
  · exact .inl rfl

theorem mem_following_of_mem_siblingAccessors {n a : Node} (h : a ∈ siblingAccessors n) :
    a ∈ n.following :=
  (List.takeWhile_sublist _).subset h

theorem isAccessor_of_mem_siblingAccessors {n a : Node} (h : a ∈ siblingAccessors n) :
    isAccessor a = true :=
  List.all_eq_true.1 List.all_takeWhile a h

theorem siblingAccessors_top (t : Tree) : siblingAccessors (Node.ofTree t) = [] := rfl

theorem kind_ne_of_isAccessor {a : Node} (h : isAccessor a = true) :
    a.kind ≠ "property_declaration" := by
  intro he
  simp [isAccessor, accessorKinds, he] at h

/-- A sibling behind a node is one of its accessors, or all of these stand before it. -/
theorem mem_siblingAccessors_or {n d : Node} {between after : List Node}
    (h : n.following = between ++ d :: after) :
    (∃ rest, siblingAccessors n = between ++ d :: rest) ∨
      ∀ a ∈ siblingAccessors n, a ∈ between := by
  rw [siblingAccessors, h, List.takeWhile_append]
  split
  · rw [List.takeWhile_cons]
    split
    · exact .inl ⟨_, rfl⟩
    · exact .inr fun a ha => by simpa using ha
  · exact .inr fun a ha => (List.takeWhile_sublist _).subset ha

variable (ht : t.WellFormed)
include ht

theorem stop_le_spanStop {p c : Node} (hp : Within t p) (hc : c ∈ p.children) :
    c.stop ≤ spanStop c := by
  refine spanStop_ge fun a ha => ?_
  obtain ⟨before, hs⟩ := exists_children_of_mem hc
  obtain ⟨l₁, l₂, hf⟩ := List.append_of_mem (mem_following_of_mem_siblingAccessors ha)
  rw [hf] at hs
  exact Nat.le_trans (ht.children_apart hp hs) (ht.start_le_stop (.child hp (by simp [hs])))

theorem spanStop_le {p c : Node} (hp : Within t p) (hc : c ∈ p.children) :
    spanStop c ≤ p.stop := by
  rcases spanStop_eq c with h | ⟨a, ha, h⟩
  · exact h ▸ (ht.child_inside hp hc).2
  · obtain ⟨before, hs⟩ := exists_children_of_mem hc
    have haf := mem_following_of_mem_siblingAccessors (List.mem_of_getLast? ha)
    exact h ▸ (ht.child_inside hp (by rw [hs]; simp [haf])).2

/-- A sibling behind a node is an accessor in the node's span, or the span ends before it. -/
theorem inside_or_behind_spanStop {p c d : Node} {before between after : List Node}
    (hp : Within t p) (hs : p.children = before ++ c :: (between ++ d :: after)) :
    (isAccessor d = true ∧ d.stop ≤ spanStop c) ∨ spanStop c ≤ d.start := by
  have hord := (ht p hp).inOrder
  rw [hs] at hord
  have hbehind := List.pairwise_append.1 (List.pairwise_cons.1 (List.pairwise_append.1 hord).2.1).2
  have hf : c.following = between ++ d :: after := following_of_children hs
  have hcd : c.stop ≤ d.start := ht.children_apart hp hs
  rcases spanStop_eq c with h | ⟨a, ha, h⟩
  · exact .inr (h ▸ hcd)
  · rw [h]
    rcases mem_siblingAccessors_or hf with ⟨rest, hr⟩ | hall
    · -- `d` is an accessor: it is the last one, or stands before it
      refine .inl ⟨isAccessor_of_mem_siblingAccessors (n := c) (by simp [hr]), ?_⟩
      have hlast : (d :: rest).getLast? = some a := by
        rw [hr, List.getLast?_append] at ha
        simpa using ha
      have haf := mem_following_of_mem_siblingAccessors (n := c) (a := a)
        (by rw [hr]; exact List.mem_append_right _ (List.mem_of_getLast? hlast))
      have haw : Within t a := .child hp (by rw [hs, ← hf]; simp [haf])
      rcases List.mem_cons.1 (List.mem_of_getLast? hlast) with rfl | hrest
      · exact Nat.le_refl _
      · have hsub : rest.Sublist after := by
          have := (List.takeWhile_sublist isAccessor (l := c.following))
          rw [show c.following.takeWhile isAccessor = between ++ d :: rest from hr, hf] at this
          exact List.cons_sublist_cons.1 ((List.append_sublist_append_left _).1 this)
        exact Nat.le_trans ((List.pairwise_cons.1 hbehind.2.1).1 a (hsub.subset hrest))
          (ht.start_le_stop haw)
    · exact .inr (hbehind.2.2 a (hall a (List.mem_of_getLast? ha)) d (by simp))

end Kotlin

/-! ### Keys in a tree -/

namespace SourceFile
open Node

variable {f : SourceFile}

theorem keyOf_start (f : SourceFile) (n : Node) : (f.keyOf n).start = n.start := by
  unfold keyOf spanOf
  cases f.language <;> rfl

theorem keyOf_stop (f : SourceFile) (n : Node) :
    (f.keyOf n).stop = n.stop ∨ (f.keyOf n).stop = Kotlin.spanStop n := by
  unfold keyOf spanOf
  cases f.language
  · exact .inr rfl
  · exact .inl rfl

theorem keyOf_stop_of_kind_ne {n : Node} (h : n.kind ≠ "property_declaration") :
    (f.keyOf n).stop = n.stop := by
  rcases keyOf_stop f n with e | e
  · exact e
  · rw [e, Kotlin.spanStop_of_kind_ne h]

theorem solidAt_of_forall_lt (h : ∀ n, Within f.tree n → n.start < n.stop) (k : DeclKey) :
    f.SolidAt k :=
  fun n hn hk => ⟨n, hn, hk, h n hn⟩

variable (hf : f.tree.WellFormed)
include hf

theorem stop_le_keyOf_stop {n : Node} (hn : Within f.tree n) : n.stop ≤ (f.keyOf n).stop := by
  rcases keyOf_stop f n with e | e
  · exact Nat.le_of_eq e.symm
  · rw [e]
    cases hn with
    | top => exact Kotlin.spanStop_ge (by simp [Kotlin.siblingAccessors_top])
    | child hp hc => exact Kotlin.stop_le_spanStop hf hp hc

/-- A key does not leave the parent of its node. -/
theorem keyOf_stop_le_parent {p c : Node} (hp : Within f.tree p) (hc : c ∈ p.children) :
    (f.keyOf c).stop ≤ p.stop := by
  rcases keyOf_stop f c with e | e
  · exact e ▸ (hf.child_inside hp hc).2
  · exact e ▸ Kotlin.spanStop_le hf hp hc

/-- A key of a node below a child does not leave the parent of the child. -/
theorem keyOf_stop_le {a c n : Node} (ha : Within f.tree a) (hc : c ∈ a.children)
    (h : Below c n) : (f.keyOf n).stop ≤ a.stop := by
  cases h with
  | refl => exact keyOf_stop_le_parent hf ha hc
  | @child m _ hm hn =>
      have hac : Below a m := (Below.of_mem_children hc).trans hm
      exact Nat.le_trans (keyOf_stop_le_parent hf (hac.within ha) hn) (hf.span_le ha hac).2

theorem keyOf_stop_le_top {n : Node} (hn : Within f.tree n) : (f.keyOf n).stop ≤ f.top.stop := by
  rcases (within_iff_below.1 hn).eq_or_child with rfl | ⟨c, hc, h⟩
  · rcases keyOf_stop f (Node.ofTree f.tree) with e | e
    · exact Nat.le_of_eq e
    · rcases Kotlin.spanStop_eq (Node.ofTree f.tree) with h | ⟨a, ha, -⟩
      · exact Nat.le_of_eq (e.trans h)
      · simp [Kotlin.siblingAccessors_top] at ha
  · exact keyOf_stop_le hf .top hc h

/-- The key of a node contains the keys of the nodes below it. -/
theorem contains_of_below {a b : Node} (ha : Within f.tree a) (h : Below a b) :
    (f.keyOf a).contains (f.keyOf b) = true := by
  rcases h.eq_or_child with rfl | ⟨c, hc, hcb⟩
  · exact DeclKey.contains_refl _
  · refine DeclKey.contains_iff.2 ⟨rfl, .inr ⟨?_, ?_⟩⟩
    · rw [keyOf_start, keyOf_start]
      exact (hf.span_le ha h).1
    · exact Nat.le_trans (keyOf_stop_le hf ha hc hcb) (stop_le_keyOf_stop hf ha)

/-- Of two places that are apart the key of the earlier contains that of the later, which is then
an accessor of it or lies below one, or ends before it begins. -/
theorem contains_or_stop_le_of_apart {a b : Node} (h : Apart f.tree a b) :
    (f.keyOf a).contains (f.keyOf b) = true ∨ (f.keyOf a).stop ≤ b.start := by
  have hab := hf.stop_le_start h
  obtain ⟨p, c, d, l₁, l₂, l₃, hp, hs, hca, hdb⟩ := h
  have hc : c ∈ p.children := by simp [hs]
  have hd : d ∈ p.children := by simp [hs]
  have hdb' := hf.span_le (.child hp hd) hdb
  rcases hca.eq_or_child with rfl | ⟨e, he, hea⟩
  · rcases keyOf_stop f a with e | e
    · exact .inr (e ▸ hab)
    · rw [e]
      rcases Kotlin.inside_or_behind_spanStop hf hp hs with ⟨hacc, hle⟩ | hle
      · refine .inl (DeclKey.contains_iff.2 ⟨rfl, .inr ⟨?_, ?_⟩⟩)
        · rw [keyOf_start, keyOf_start]
          exact Nat.le_trans (hf.start_le_stop (.child hp hc)) hab
        · rw [e]
          rcases hdb.eq_or_child with rfl | ⟨g, hg, hgb⟩
          · rwa [keyOf_stop_of_kind_ne (Kotlin.kind_ne_of_isAccessor hacc)]
          · exact Nat.le_trans (keyOf_stop_le hf (.child hp hd) hg hgb) hle
      · exact .inr (Nat.le_trans hle hdb'.1)
  · refine .inr ?_
    calc (f.keyOf a).stop ≤ c.stop := keyOf_stop_le hf (.child hp hc) he hea
      _ ≤ d.start := hf.children_apart hp hs
      _ ≤ b.start := hdb'.1

/-- **Keys of a file nest or lie apart.** -/
theorem keyOf_nested_or_apart {a b : Node} (ha : Within f.tree a) (hb : Within f.tree b) :
    (f.keyOf a).contains (f.keyOf b) = true ∨ (f.keyOf b).contains (f.keyOf a) = true ∨
      (f.keyOf a).stop ≤ b.start ∨ (f.keyOf b).stop ≤ a.start := by
  rcases Within.trichotomy ha hb with h | h | h | h
  · exact .inl (contains_of_below hf ha h)
  · exact .inr (.inl (contains_of_below hf hb h))
  · rcases contains_or_stop_le_of_apart hf h with h | h
    · exact .inl h
    · exact .inr (.inr (.inl h))
  · rcases contains_or_stop_le_of_apart hf h with h | h
    · exact .inr (.inl h)
    · exact .inr (.inr (.inr h))

theorem ShownAt.start_lt_stop {k : DeclKey} (hk : f.ShownAt k) : k.start < k.stop := by
  obtain ⟨n, hn, rfl, hlt⟩ := hk
  rw [keyOf_start]
  exact Nat.lt_of_lt_of_le hlt (stop_le_keyOf_stop hf hn)

omit hf in
/-- The search for the key of a node that is not empty goes through nodes below it before it comes
to the node: the way up from the node's first byte does not leave its span before. -/
theorem nodeFor?_keyOf (hf : f.WellFormed) {n : Node} (hn : Within f.tree n)
    (hne : n.start < n.stop) :
    ∃ met above, (∀ m ∈ met, Below n m) ∧ f.nodeFor? (f.keyOf n) =
      (met ++ n :: above).find? fun m => spanOf f.language m = spanOf f.language n := by
  have hlow : Below n (f.top.atByte n.start) :=
    hf.tree.below_atByte hn (Nat.le_refl _) hne
  obtain ⟨met, above, hsplit, hmet⟩ := hlow.split_ancestors
  -- what the way meets before `n` begins no earlier, so the way is not cut off before `n`
  have hstart : ∀ m ∈ met, decide (n.start ≤ m.start) = true := fun m hm => by
    simpa using (hf.tree.span_le hn (hmet m hm)).1
  have hin : ¬ ((f.keyOf n).file ≠ f.id ∨ Text.size f.text < (f.keyOf n).stop) := by
    rintro (h | h)
    · exact h rfl
    · exact absurd (Nat.le_trans (keyOf_stop_le_top hf.tree hn) hf.inText) (Nat.not_le_of_lt h)
  have hspan : spanOf f.language n = (n.start, (f.keyOf n).stop) := Prod.ext (keyOf_start f n) rfl
  refine ⟨met, above.takeWhile fun m => n.start ≤ m.start, hmet, ?_⟩
  rw [nodeFor?, if_neg hin, keyOf_start, hspan]
  dsimp only
  rw [hsplit, List.takeWhile_append_of_pos hstart, List.takeWhile_cons_of_pos (by simp)]

omit hf in
/-- **A node that is not empty is found again**, or another one with its key. -/
theorem ShownAt.exists_nodeFor? {k : DeclKey} (hf : f.WellFormed) (hk : f.ShownAt k) :
    ∃ m, f.nodeFor? k = some m := by
  obtain ⟨n, hn, rfl, hne⟩ := hk
  obtain ⟨met, above, -, hfind⟩ := nodeFor?_keyOf hf hn hne
  rw [hfind, ← Option.isSome_iff_exists, List.find?_isSome]
  exact ⟨n, by simp, by simp⟩

omit hf in
/-- **A node that is not empty is found again itself** when nothing below it has its key. -/
theorem nodeFor?_keyOf_of_lowest (hf : f.WellFormed) {n : Node} (hn : Within f.tree n)
    (hne : n.start < n.stop) (hlow : ∀ m, Below n m → f.keyOf m = f.keyOf n → m = n) :
    f.nodeFor? (f.keyOf n) = some n := by
  obtain ⟨met, above, hmet, hfind⟩ := nodeFor?_keyOf hf hn hne
  rw [hfind, List.find?_append]
  cases hm : met.find? fun m => spanOf f.language m = spanOf f.language n with
  | none => simp
  | some m =>
      have hspan : spanOf f.language m = spanOf f.language n := by
        simpa using List.find?_some hm
      have hkey : f.keyOf m = f.keyOf n := by rw [keyOf, keyOf, hspan]
      rw [hlow m (hmet m (List.mem_of_find?_eq_some hm)) hkey]
      rfl

end SourceFile

end Crossref
