import Crossref.Proofs.Tree.Spans
import Crossref.Proofs.Usage.Recorded

/-!
# Proofs — usages — where a walk may record

`startsBelow` lists the bytes at which the walk below a node may record, visit by visit.  They lie
in the span of the node.  In a tree whose constructs write their parts in the order in which these
are visited, the walk goes on at every node but a call with nodes that stand one behind the other:
the target of an assignment is its first child, and a supertype names its type before the arguments
of its constructor or its delegate.

* `startsBelow_bounds`: the starts below a node lie in its span.
* `nextNodes_oneBehindOther`: but at calls, the walk goes on with nodes in the order of the text.
-/

namespace Crossref.Usage
open Node

/-- The bytes at which the walk below the node may record, in the order of the visits. -/
def startsBelow (f : SourceFile) (n : Node) : List Nat := (walk n).flatMap (siteStarts f)

theorem startsBelow_eq (f : SourceFile) (n : Node) :
    startsBelow f n = siteStarts f n ++ (nextNodes n).flatMap (startsBelow f) := by
  rw [startsBelow, walk_eq, List.flatMap_cons, List.flatMap_assoc]
  rfl

/-! ### In the span of the node -/

theorem mem_assignmentStarts {f : SourceFile} {n target : Node} {x : Nat}
    (h : x ∈ assignmentStarts f n target) : x = target.start ∨ x = n.start := by
  rcases List.mem_append.1 h with h | h
  · split at h
    · cases h
    · exact .inl (List.mem_singleton.1 h)
  · split at h
    · exact .inr (List.mem_singleton.1 h)
    · cases h

/-- A visit records at its node, or at the target of the assignment that it visits. -/
theorem mem_siteStarts {f : SourceFile} {n : Node} {x : Nat} (h : x ∈ siteStarts f n) :
    x = n.start ∨ ∃ target, Construct.ofNode n = .assignment ∧
      assignmentTarget? n = some target ∧ x ∈ assignmentStarts f n target := by
  unfold siteStarts at h
  split at h
  · split at h
    · exact .inl (List.mem_singleton.1 h)
    · cases h
  · next hc =>
    split at h
    · next target ht => exact .inr ⟨target, hc, ht, h⟩
    · cases h
  · cases h
  · exact .inl (List.mem_singleton.1 h)

theorem exists_below_of_mem_siteStarts {f : SourceFile} {n : Node} {x : Nat}
    (h : x ∈ siteStarts f n) : ∃ m, Below n m ∧ x = m.start := by
  rcases mem_siteStarts h with rfl | ⟨target, -, ht, h⟩
  · exact ⟨n, .refl, rfl⟩
  · rcases mem_assignmentStarts h with rfl | rfl
    · exact ⟨target, .of_mem_children (mem_of_childOfKind? ht).1, rfl⟩
    · exact ⟨n, .refl, rfl⟩

/-- **The starts below a node lie in its span.** -/
theorem startsBelow_bounds {t : Tree} (ht : t.WellFormed) {f : SourceFile} {n : Node}
    (hn : Within t n) {x : Nat} (h : x ∈ startsBelow f n) : n.start ≤ x ∧ x ≤ n.stop := by
  obtain ⟨k, hk, hx⟩ := List.mem_flatMap.1 h
  obtain ⟨m, hm, rfl⟩ := exists_below_of_mem_siteStarts hx
  have hnm : Below n m := (below_of_mem_walk hk).trans hm
  obtain ⟨h₁, h₂⟩ := ht.span_le hn hnm
  exact ⟨h₁, Nat.le_trans (ht.start_le_stop (hnm.within hn)) h₂⟩

/-! ### Nodes one behind the other -/

/-- Each node ends before the next begins. -/
abbrev OneBehindOther (nodes : List Node) : Prop := nodes.Pairwise fun c d => c.stop ≤ d.start

theorem OneBehindOther.toList (o : Option Node) : OneBehindOther o.toList := by
  cases o with
  | none => exact .nil
  | some n => exact List.pairwise_singleton _ n

section Children

variable {t : Tree} (ht : t.WellFormed) {n : Node} (hn : Within t n)
include ht hn

theorem children_oneBehindOther : OneBehindOther n.children := (ht n hn).inOrder

theorem filter_oneBehindOther (p : Node → Bool) : OneBehindOther (n.children.filter p) :=
  (children_oneBehindOther ht hn).sublist List.filter_sublist

theorem childrenOfKind_oneBehindOther (sort : String) : OneBehindOther (n.childrenOfKind sort) :=
  filter_oneBehindOther ht hn _

theorem filter_namedChildren_oneBehindOther (p : Node → Bool) :
    OneBehindOther (n.namedChildren.filter p) :=
  (filter_oneBehindOther ht hn isNamed).sublist List.filter_sublist

end Children

/-! ### Trees whose constructs are written in the order of their visits -/

/-- The nodes of which an entry of a supertype list has one. -/
def specifierKinds : List String :=
  ["user_type", "constructor_invocation", "explicit_delegation", "function_type"]

/-- Assignments begin with their targets, and entries of supertype lists write a type before the
arguments or the delegate. -/
structure Arranged (t : Tree) : Prop where
  /-- The target of an assignment that has one is its first child. -/
  target : ∀ n, Within t n → n.kind = "assignment" →
    n.hasChildOfKind "directly_assignable_expression" = true →
    n.children.head?.map Node.kind = some "directly_assignable_expression"
  /-- An entry of a supertype list is one of the four sorts. -/
  specifier : ∀ n, Within t n → n.kind = "delegation_specifier" →
    (n.children.filter fun c => specifierKinds.contains c.kind).length = 1
  /-- The type of a constructor invocation stands before its arguments. -/
  invocation : ∀ n, Within t n → n.kind = "delegation_specifier" →
    ∀ w ∈ n.childOfKind? "constructor_invocation", ∀ written ∈ w.childOfKind? "user_type",
    ∀ a ∈ w.childrenOfKind "value_arguments", written.stop ≤ a.start
  /-- The type of a delegation stands before the delegate. -/
  delegation : ∀ n, Within t n → n.kind = "delegation_specifier" →
    ∀ d ∈ n.childOfKind? "explicit_delegation", ∀ written ∈ d.childOfKind? "user_type",
    ∀ a ∈ d.namedChildren, a.kind ≠ "user_type" → written.stop ≤ a.start

instance (t : Tree) : Decidable (Arranged t) :=
  decidable_of_iff
    ((∀ n ∈ (ofTree t).preorder, n.kind = "assignment" →
        n.hasChildOfKind "directly_assignable_expression" = true →
        n.children.head?.map Node.kind = some "directly_assignable_expression") ∧
      (∀ n ∈ (ofTree t).preorder, n.kind = "delegation_specifier" →
        (n.children.filter fun c => specifierKinds.contains c.kind).length = 1) ∧
      (∀ n ∈ (ofTree t).preorder, n.kind = "delegation_specifier" →
        ∀ w ∈ n.childOfKind? "constructor_invocation", ∀ written ∈ w.childOfKind? "user_type",
        ∀ a ∈ w.childrenOfKind "value_arguments", written.stop ≤ a.start) ∧
      ∀ n ∈ (ofTree t).preorder, n.kind = "delegation_specifier" →
        ∀ d ∈ n.childOfKind? "explicit_delegation", ∀ written ∈ d.childOfKind? "user_type",
        ∀ a ∈ d.namedChildren, a.kind ≠ "user_type" → written.stop ≤ a.start)
    (by
      simp only [← within_iff_mem_preorder]
      exact ⟨fun h => ⟨h.1, h.2.1, h.2.2.1, h.2.2.2⟩, fun h => ⟨h.1, h.2, h.3, h.4⟩⟩)

/-- The target of an assignment is its first child. -/
theorem Arranged.head?_eq {t : Tree} (ha : Arranged t) {n target : Node} (hn : Within t n)
    (hk : n.kind = "assignment") (htarget : assignmentTarget? n = some target) :
    n.children.head? = some target := by
  obtain ⟨hmem, hkind⟩ := mem_of_childOfKind? htarget
  have hhead := ha.target n hn hk (List.any_eq_true.2 ⟨target, hmem, by simpa using hkind⟩)
  obtain ⟨c, hc, hck⟩ := Option.map_eq_some_iff.1 hhead
  obtain ⟨rest, hrest⟩ := List.head?_eq_some_iff.1 hc
  have hfirst : (c :: rest).find? (·.kind == "directly_assignable_expression") = some c :=
    List.find?_cons_of_pos (by simpa using hck)
  rw [assignmentTarget?, childOfKind?, hrest, hfirst] at htarget
  rw [hc, htarget]

/-- Two children among the four sorts are one. -/
theorem Arranged.eq_of_specifierKinds {t : Tree} (ha : Arranged t) {n c d : Node}
    (hn : Within t n) (hk : n.kind = "delegation_specifier") (hc : c ∈ n.children)
    (hd : d ∈ n.children) (hck : c.kind ∈ specifierKinds) (hdk : d.kind ∈ specifierKinds) :
    c = d := by
  obtain ⟨only, honly⟩ := List.length_eq_one_iff.1 (ha.specifier n hn hk)
  have hmem : ∀ {e : Node}, e ∈ n.children → e.kind ∈ specifierKinds → e = only := by
    intro e he hek
    have : e ∈ n.children.filter fun c => specifierKinds.contains c.kind :=
      List.mem_filter.2 ⟨he, by simpa using hek⟩
    rw [honly] at this
    exact List.mem_singleton.1 this
  rw [hmem hc hck, hmem hd hdk]

theorem kind_of_construct_assignment {n : Node} (h : Construct.ofNode n = .assignment) :
    n.kind = "assignment" := by
  unfold Construct.ofNode Construct.ofKind at h
  split at h <;> first | assumption | cases h | (split at h <;> cases h)

theorem kind_of_construct_delegationSpecifier {n : Node}
    (h : Construct.ofNode n = .delegationSpecifier) : n.kind = "delegation_specifier" := by
  unfold Construct.ofNode Construct.ofKind at h
  split at h <;> first | assumption | cases h | (split at h <;> cases h)

section Arranged

variable {t : Tree} (ht : t.WellFormed) (ha : Arranged t) {n : Node} (hn : Within t n)
include ht ha hn

/-- The other operands of an assignment stand behind its target. -/
theorem stop_le_start_of_operand {target c : Node} (hk : n.kind = "assignment")
    (htarget : assignmentTarget? n = some target)
    (hc : c ∈ n.namedChildren.filter fun c => !c.isSame target) : target.stop ≤ c.start := by
  obtain ⟨hc, hne⟩ := List.mem_filter.1 hc
  have hmem := (mem_namedChildren_iff.1 hc).1
  obtain ⟨rest, hrest⟩ := List.head?_eq_some_iff.1 (ha.head?_eq hn hk htarget)
  have hord := children_oneBehindOther ht hn
  -- the target is the first child, and the operand is another
  rw [hrest] at hord hmem
  rcases List.mem_cons.1 hmem with rfl | hmem
  · simp [isSame] at hne
  · exact (List.pairwise_cons.1 hord).1 c hmem

theorem belowAssignment_oneBehindOther (hk : n.kind = "assignment") :
    OneBehindOther (belowAssignment n) := by
  cases htarget : assignmentTarget? n with
  | none =>
      rw [belowAssignment, htarget]
      exact filter_oneBehindOther ht hn isNamed
  | some target =>
      rw [belowAssignment_eq htarget]
      have htc := (mem_of_childOfKind? htarget).1
      have htw : Within t target := .child hn htc
      refine List.pairwise_append.2 ⟨?_, filter_namedChildren_oneBehindOther ht hn _, ?_⟩
      · unfold targetNodes
        split
        · exact filter_oneBehindOther ht htw isNamed
        · split
          · exact OneBehindOther.toList _
          · exact .nil
      · intro c hc d hd
        exact Nat.le_trans (ht.child_inside htw (mem_children_of_mem_targetNodes hc)).2
          (stop_le_start_of_operand ht ha hn hk htarget hd)

omit ha in
/-- The type arguments of a node's type and then nodes that stand behind the type. -/
theorem typeArguments_oneBehindOther {others : List Node} (hothers : OneBehindOther others)
    (hbehind : ∀ written, n.childOfKind? "user_type" = some written →
      ∀ a ∈ others, written.stop ≤ a.start) :
    OneBehindOther ((n.childOfKind? "user_type").toList.flatMap
      (·.childrenOfKind "type_arguments") ++ others) := by
  cases hw : n.childOfKind? "user_type" with
  | none => simpa using hothers
  | some written =>
      have hww : Within t written := .child hn (mem_of_childOfKind? hw).1
      rw [Option.toList_some, List.flatMap_singleton]
      refine List.pairwise_append.2
        ⟨childrenOfKind_oneBehindOther ht hww _, hothers, fun a ha' c hc => ?_⟩
      have hin := (ht.child_inside hww (mem_childrenOfKind_iff.1 ha').1).2
      exact Nat.le_trans hin (hbehind written hw c hc)

omit ht in
/-- An entry of a supertype list that has a child of one sort has none of another. -/
theorem childOfKind?_eq_none {c : Node} {sort other : String} (hk : n.kind = "delegation_specifier")
    (hc : n.childOfKind? sort = some c) (hsort : sort ∈ specifierKinds)
    (hother : other ∈ specifierKinds) (hne : sort ≠ other) : n.childOfKind? other = none := by
  cases hd : n.childOfKind? other with
  | none => rfl
  | some d =>
      obtain ⟨hcm, rfl⟩ := mem_of_childOfKind? hc
      obtain ⟨hdm, rfl⟩ := mem_of_childOfKind? hd
      exact (hne (congrArg Node.kind (ha.eq_of_specifierKinds hn hk hcm hdm hsort hother))).elim

/-- An entry of a supertype list is a type, the invocation of a constructor, or a delegation; in
each case its type arguments stand before what else the walk goes on with. -/
theorem belowSpecifier_oneBehindOther (hk : n.kind = "delegation_specifier") :
    OneBehindOther (belowSpecifier n) := by
  have hut : "user_type" ∈ specifierKinds := by simp [specifierKinds]
  have hci : "constructor_invocation" ∈ specifierKinds := by simp [specifierKinds]
  have hed : "explicit_delegation" ∈ specifierKinds := by simp [specifierKinds]
  cases hu : n.childOfKind? "user_type" with
  | some u =>
      have huw : Within t u := .child hn (mem_of_childOfKind? hu).1
      have hi := childOfKind?_eq_none ha hn hk hu hut hci (by simp)
      have hd := childOfKind?_eq_none ha hn hk hu hut hed (by simp)
      simpa [belowSpecifier, Kotlin.specifierType?, hu, hi, hd] using
        childrenOfKind_oneBehindOther ht huw "type_arguments"
  | none =>
      cases hi : n.childOfKind? "constructor_invocation" with
      | some w =>
          have hww : Within t w := .child hn (mem_of_childOfKind? hi).1
          have hd := childOfKind?_eq_none ha hn hk hi hci hed (by simp)
          simpa [belowSpecifier, Kotlin.specifierType?, hu, hi, hd] using
            typeArguments_oneBehindOther ht hww (childrenOfKind_oneBehindOther ht hww _)
              (ha.invocation n hn hk w hi)
      | none =>
          cases hd : n.childOfKind? "explicit_delegation" with
          | some d =>
              have hdw : Within t d := .child hn (mem_of_childOfKind? hd).1
              simpa [belowSpecifier, Kotlin.specifierType?, hu, hi, hd] using
                typeArguments_oneBehindOther ht hdw
                  (filter_namedChildren_oneBehindOther ht hdw (·.kind != "user_type"))
                  fun written hw a hmem => ha.delegation n hn hk d hd written hw a
                    (List.mem_filter.1 hmem).1 (by simpa using (List.mem_filter.1 hmem).2)
          | none => simp [belowSpecifier, Kotlin.specifierType?, hu, hi, hd]

/-- **But at calls, the walk goes on with nodes in the order of the text.** -/
theorem nextNodes_oneBehindOther (hc : Construct.ofNode n ≠ .call) :
    OneBehindOther (nextNodes n) := by
  unfold nextNodes
  cases hconstruct : Construct.ofNode n with
  | call => exact absurd hconstruct hc
  | navigation => exact OneBehindOther.toList _
  | identifier => exact .nil
  | assignment =>
      exact belowAssignment_oneBehindOther ht ha hn (kind_of_construct_assignment hconstruct)
  | operator => exact filter_oneBehindOther ht hn isNamed
  | userType => exact childrenOfKind_oneBehindOther ht hn _
  | delegationSpecifier =>
      exact belowSpecifier_oneBehindOther ht ha hn
        (kind_of_construct_delegationSpecifier hconstruct)
  | annotationEntry => exact OneBehindOther.toList _
  | propertyDelegate => exact filter_oneBehindOther ht hn isNamed
  | callableReference => exact .nil
  | other => exact filter_oneBehindOther ht hn isNamed

end Arranged

/-- The accessors beside a property stand behind it, one after the other. -/
theorem itineraryTops_oneBehindOther {t : Tree} (ht : t.WellFormed) {n : Node} (hn : Within t n) :
    OneBehindOther (itineraryTops n) := by
  cases hn with
  | top =>
      unfold itineraryTops
      split
      · exact List.pairwise_singleton _ _
      · exact List.pairwise_singleton _ _
  | @child p _ hp hc =>
      obtain ⟨before, hs⟩ := exists_children_of_mem hc
      have hord := children_oneBehindOther ht hp
      rw [hs] at hord
      have htail := (List.pairwise_append.1 hord).2.1
      refine htail.sublist ?_
      unfold itineraryTops
      split
      · exact (List.takeWhile_sublist _).cons_cons n
      · exact (List.nil_sublist _).cons_cons n

end Crossref.Usage
