import Crossref.Proofs.Usage.Starts

/-!
# Proofs — usages — the order of what is collected

The usages of a run stand in the order of the text, whatever the session answers, exactly when two
sorts of visited nodes are in order.  At a call, nothing below what is called may be recorded behind
something below the arguments; this fails where the first named child of the call is the suffix with
the arguments itself (the callee is a keyword that is no named node), because the suffix is then
walked twice.  At an augmented assignment to a name, the target must begin where the assignment
does.

* `pairwise_startsBelow_iff`: the starts below a node ascend exactly when the visited nodes are in
  order.
* `collect_ordered_iff`: so do the usages of every run.
* `inOrder_of_callee_before`: a call whose callee is written before its suffixes is in order.
* `ordered_of_callees_before`: so are the usages of every run when all calls are written so.
-/

namespace Crossref.Usage
open Node

/-- The node is one at which the walk keeps the order of the text. -/
def InOrder (f : SourceFile) (n : Node) : Prop :=
  match Construct.ofNode n with
  | .call =>
    ∀ x ∈ (calleeNodes n).flatMap (startsBelow f),
      ∀ y ∈ (n.childrenOfKind "call_suffix").flatMap (startsBelow f), x ≤ y
  | .assignment =>
    ∀ target, assignmentTarget? n = some target → isIndexed target = false →
      isPlainAssignment f n = false → target.start ≤ n.start
  | _ => True

theorem InOrder.call {f : SourceFile} {n : Node} (h : InOrder f n)
    (hc : Construct.ofNode n = .call) :
    ∀ x ∈ (calleeNodes n).flatMap (startsBelow f),
      ∀ y ∈ (n.childrenOfKind "call_suffix").flatMap (startsBelow f), x ≤ y := by
  rwa [InOrder, hc] at h

theorem InOrder.assignment {f : SourceFile} {n target : Node} (h : InOrder f n)
    (hc : Construct.ofNode n = .assignment) (ht : assignmentTarget? n = some target)
    (hi : isIndexed target = false) (hp : isPlainAssignment f n = false) :
    target.start ≤ n.start := by
  rw [InOrder, hc] at h
  exact h target ht hi hp

/-! ### From nodes in order to starts in order -/

/-- Walks below nodes that stand one behind the other ascend when each of them does. -/
theorem pairwise_flatMap_startsBelow {t : Tree} (ht : t.WellFormed) {f : SourceFile}
    {nodes : List Node} (hw : ∀ m ∈ nodes, Within t m) (hord : OneBehindOther nodes)
    (hs : ∀ m ∈ nodes, (startsBelow f m).Pairwise (· ≤ ·)) :
    (nodes.flatMap (startsBelow f)).Pairwise (· ≤ ·) := by
  refine List.pairwise_flatMap.2 ⟨hs, hord.imp_of_mem fun {c d} hc hd hcd x hx y hy => ?_⟩
  calc x ≤ c.stop := (startsBelow_bounds ht (hw c hc) hx).2
    _ ≤ d.start := hcd
    _ ≤ y := (startsBelow_bounds ht (hw d hd) hy).1

/-- The starts of one visit ascend. -/
theorem pairwise_siteStarts {f : SourceFile} {n : Node} (h : InOrder f n) :
    (siteStarts f n).Pairwise (· ≤ ·) := by
  unfold siteStarts
  split
  · split
    · exact List.pairwise_singleton _ _
    · exact .nil
  · next hc =>
    split
    · next target htarget =>
      unfold assignmentStarts
      cases hi : isIndexed target with
      | true => simp
      | false =>
          cases hp : isPlainAssignment f n with
          | true => simp
          | false => simpa using h.assignment hc htarget hi hp
    · exact .nil
  · exact .nil
  · exact List.pairwise_singleton _ _

section Arranged

variable {t : Tree} (ht : t.WellFormed) (ha : Arranged t) {f : SourceFile}
include ht

/-- The node's own start comes before all starts below the nodes that the walk goes on with. -/
theorem start_le_of_mem_flatMap {n : Node} (hn : Within t n) {x : Nat}
    (hx : x ∈ (nextNodes n).flatMap (startsBelow f)) : n.start ≤ x := by
  obtain ⟨m, hm, hx⟩ := List.mem_flatMap.1 hx
  have hb := (belowChild_of_mem_nextNodes hm).below
  exact Nat.le_trans (ht.span_le hn hb).1 (startsBelow_bounds ht (hb.within hn) hx).1

include ha

/-- So does the start of an assignment's target: its parts lie in it, the other operands behind
it. -/
theorem target_start_le_of_mem_flatMap {n target : Node} (hn : Within t n)
    (hc : Construct.ofNode n = .assignment) (htarget : assignmentTarget? n = some target) {x : Nat}
    (hx : x ∈ (nextNodes n).flatMap (startsBelow f)) : target.start ≤ x := by
  have htw : Within t target := .child hn (mem_of_childOfKind? htarget).1
  have hnext : nextNodes n = belowAssignment n := by rw [nextNodes, hc]
  rw [hnext, belowAssignment_eq htarget] at hx
  obtain ⟨m, hm, hx⟩ := List.mem_flatMap.1 hx
  rcases List.mem_append.1 hm with hm | hm
  · have hmem := mem_children_of_mem_targetNodes hm
    exact Nat.le_trans (ht.child_inside htw hmem).1
      (startsBelow_bounds ht (.child htw hmem) hx).1
  · have hmw : Within t m :=
      .child hn (mem_namedChildren_iff.1 (List.mem_filter.1 hm).1).1
    calc target.start ≤ target.stop := ht.start_le_stop htw
      _ ≤ m.start := stop_le_start_of_operand ht ha hn (kind_of_construct_assignment hc) htarget hm
      _ ≤ x := (startsBelow_bounds ht hmw hx).1

/-- The starts of a visit come before all starts below. -/
theorem siteStarts_le {n : Node} (hn : Within t n) {x y : Nat} (hx : x ∈ siteStarts f n)
    (hy : y ∈ (nextNodes n).flatMap (startsBelow f)) : x ≤ y := by
  rcases mem_siteStarts hx with rfl | ⟨target, hc, htarget, hx⟩
  · exact start_le_of_mem_flatMap ht hn hy
  · rcases mem_assignmentStarts hx with rfl | rfl
    · exact target_start_le_of_mem_flatMap ht ha hn hc htarget hy
    · exact start_le_of_mem_flatMap ht hn hy

omit ha in
/-- The walks below the nodes that follow a call ascend when the call is in order. -/
theorem pairwise_belowCall {n : Node} (hn : Within t n) (h : InOrder f n)
    (hc : Construct.ofNode n = .call)
    (hs : ∀ m ∈ nextNodes n, (startsBelow f m).Pairwise (· ≤ ·)) :
    ((nextNodes n).flatMap (startsBelow f)).Pairwise (· ≤ ·) := by
  have hnext : nextNodes n = calleeNodes n ++ n.childrenOfKind "call_suffix" := by
    rw [nextNodes, hc]
    exact belowCall_eq n
  have hw : ∀ m ∈ nextNodes n, Within t m :=
    fun m hm => (belowChild_of_mem_nextNodes hm).below.within hn
  rw [hnext] at hs hw ⊢
  rw [List.flatMap_append]
  refine List.pairwise_append.2 ⟨?_, ?_, h.call hc⟩
  · refine pairwise_flatMap_startsBelow ht (fun m hm => hw m (List.mem_append_left _ hm)) ?_
      fun m hm => hs m (List.mem_append_left _ hm)
    unfold calleeNodes
    split
    · split
      · exact .nil
      · exact OneBehindOther.toList _
      · exact List.pairwise_singleton _ _
    · exact .nil
  · exact pairwise_flatMap_startsBelow ht (fun m hm => hw m (List.mem_append_right _ hm))
      (childrenOfKind_oneBehindOther ht hn _) fun m hm => hs m (List.mem_append_right _ hm)

/-- Induction on the height: the starts below a node ascend when all visited nodes are in order. -/
theorem pairwise_startsBelow :
    ∀ {fuel : Nat} {n : Node}, n.tree.height ≤ fuel → Within t n →
      (∀ m ∈ walk n, InOrder f m) → (startsBelow f n).Pairwise (· ≤ ·)
  | 0, ⟨.node _ _, _⟩, h, _, _ => by simp [Tree.height] at h
  | fuel + 1, n, h, hn, hord => by
      have hself := hord n (mem_walk_self n)
      have hnext : ∀ m ∈ nextNodes n, (startsBelow f m).Pairwise (· ≤ ·) := by
        intro m hm
        have hlt := Nat.lt_of_lt_of_le (nextNodes_height_lt hm) h
        exact pairwise_startsBelow (Nat.le_of_lt_succ hlt)
          ((belowChild_of_mem_nextNodes hm).below.within hn)
          fun k hk => hord k (mem_walk_of_mem_nextNodes hm hk)
      rw [startsBelow_eq]
      -- the starts of the visit itself, those below it, and the former before the latter
      refine List.pairwise_append.2 ⟨pairwise_siteStarts hself, ?_, ?_⟩
      · by_cases hc : Construct.ofNode n = .call
        · exact pairwise_belowCall ht hn hself hc hnext
        · exact pairwise_flatMap_startsBelow ht
            (fun m hm => (belowChild_of_mem_nextNodes hm).below.within hn)
            (nextNodes_oneBehindOther ht ha hn hc) hnext
      · exact fun x hx y hy => siteStarts_le ht ha hn hx hy

end Arranged

/-! ### From starts in order to nodes in order -/

theorem startsBelow_sublist_of_mem_nextNodes {f : SourceFile} {n m : Node} (hm : m ∈ nextNodes n) :
    (startsBelow f m).Sublist (startsBelow f n) := by
  rw [startsBelow_eq f n, List.flatMap_def]
  exact (List.sublist_flatten_of_mem (List.mem_map.2 ⟨m, hm, rfl⟩)).trans
    (List.sublist_append_right _ _)

theorem startsBelow_sublist {f : SourceFile} {n m : Node} (hm : m ∈ walk n) :
    (startsBelow f m).Sublist (startsBelow f n) :=
  walk_induction (fun _ hk _ hnext => (startsBelow_sublist_of_mem_nextNodes hnext).trans hk)
    (Nat.le_refl _) (List.Sublist.refl _) hm

/-- A node below which the starts ascend is in order. -/
theorem inOrder_of_pairwise {f : SourceFile} {n : Node}
    (h : (startsBelow f n).Pairwise (· ≤ ·)) : InOrder f n := by
  rw [startsBelow_eq] at h
  obtain ⟨hsites, hnext, -⟩ := List.pairwise_append.1 h
  unfold InOrder
  split
  · next hc =>
    have hbelow : nextNodes n = calleeNodes n ++ n.childrenOfKind "call_suffix" := by
      rw [nextNodes, hc]
      exact belowCall_eq n
    rw [hbelow, List.flatMap_append] at hnext
    exact (List.pairwise_append.1 hnext).2.2
  · next hc =>
    intro target htarget hi hp
    rw [siteStarts, hc] at hsites
    simpa [htarget, assignmentStarts, hi, hp] using hsites
  · trivial

/-- **The starts below a node ascend exactly when the visited nodes are in order.** -/
theorem pairwise_startsBelow_iff {t : Tree} (ht : t.WellFormed) (ha : Arranged t) {f : SourceFile}
    {n : Node} (hn : Within t n) :
    (startsBelow f n).Pairwise (· ≤ ·) ↔ ∀ m ∈ walk n, InOrder f m :=
  ⟨fun h _ hm => inOrder_of_pairwise (h.sublist (startsBelow_sublist hm)),
    pairwise_startsBelow ht ha (Nat.le_refl _) hn⟩

/-! ### Every run -/

/-- The bytes at which a run over the declaration may record, in the order of the visits. -/
def startsAlong (f : SourceFile) (n : Node) : List Nat :=
  ((itinerary n).map Visit.node).flatMap (siteStarts f)

theorem startsAlong_eq (f : SourceFile) (n : Node) :
    startsAlong f n = (itineraryTops n).flatMap (startsBelow f) := by
  rw [startsAlong, map_node_itinerary, List.flatMap_assoc]
  rfl

/-- The starts of a run ascend exactly when the visited nodes are in order. -/
theorem pairwise_startsAlong_iff {t : Tree} (ht : t.WellFormed) (ha : Arranged t) {f : SourceFile}
    {n : Node} (hn : Within t n) :
    (startsAlong f n).Pairwise (· ≤ ·) ↔
      ∀ m ∈ (itinerary n).map Visit.node, InOrder f m := by
  have hw : ∀ m ∈ itineraryTops n, Within t m := fun m => within_of_mem_itineraryTops hn
  rw [startsAlong_eq, map_node_itinerary]
  constructor
  · intro h m hm
    obtain ⟨top, htop, hm⟩ := List.mem_flatMap.1 hm
    exact (pairwise_startsBelow_iff ht ha (hw top htop)).1 ((List.pairwise_flatMap.1 h).1 top htop)
      m hm
  · intro h
    refine pairwise_flatMap_startsBelow ht hw (itineraryTops_oneBehindOther ht hn) ?_
    intro top htop
    exact (pairwise_startsBelow_iff ht ha (hw top htop)).2
      fun m hm => h m (List.mem_flatMap.2 ⟨top, htop, hm⟩)

/-- The usages stand in the order of the text. -/
def Ordered (usages : List Usage) : Prop :=
  usages.Pairwise fun u v => u.site.start ≤ v.site.start

instance (usages : List Usage) : Decidable (Ordered usages) :=
  inferInstanceAs (Decidable (usages.Pairwise _))

/-- Where the starts of a run ascend, so do the usages of every run. -/
theorem ordered_of_pairwise_startsAlong {σ : Type} {session : Session σ} {t : Tree} {n : Node}
    (hn : Within t n) (h : (startsAlong session.file n).Pairwise (· ≤ ·)) {l : Limits}
    {w : Watch σ} {s : σ} {usages : List Usage}
    (hu : (collect session l w n s).1 = .ok usages) : Ordered usages := by
  -- nothing is asked of the symbols here: the order holds whatever is answered
  have hsat : session.Satisfy t fun _ => True :=
    ⟨fun _ _ _ _ => trivial, fun _ _ => trivial, fun _ _ => trivial, fun _ _ _ _ => trivial⟩
  have hfollows := follows_recordedAlong hsat s fun v hv => within_of_mem_itinerary hn hv
  exact (hfollows.pairwise h).sublist (sublist_of_collect hu)

/-! ### A session that answers everything -/

/-- Some function. -/
def someFunction : Symbol := Symbol.ofHandle ⟨0, 0, 0, .function, 0⟩ "f" .source .kotlin ⟨""⟩

/-- The session that answers every question with the same function. -/
def answering (f : SourceFile) : Session Unit :=
  .ofAnswers f
    { reference := fun _ => .ok [someFunction]
      call := fun _ => .ok (some ⟨someFunction, false⟩)
      type := fun _ => .ok (some someFunction)
      delegate := fun _ => .ok [⟨someFunction, false⟩] } id

/-- When everything is answered, a type is recorded, and perhaps a call behind it. -/
theorem start_sublist_typeThenCall (f : SourceFile) (n : Node) (kind : Kind) (asks : Bool) :
    [n.start].Sublist
      (((do
          let types ← recordType (answering f) n kind
          let calls ← if asks then recordCall (answering f) n false else pure []
          return types ++ calls : StateM Unit (List Usage)) ()).1.map (·.site.start)) := by
  cases asks with
  | true => exact List.sublist_append_left [n.start] [n.start]
  | false => exact List.sublist_append_left [n.start] []

/-- When everything is answered, an assignment records at each of its starts. -/
theorem assignmentStarts_sublist_record (f : SourceFile) {n target : Node}
    (ht : assignmentTarget? n = some target) (inDelegate : Bool) :
    (assignmentStarts f n target).Sublist
      ((recordAssignment (answering f) n inDelegate ()).1.map (·.site.start)) := by
  unfold recordAssignment assignmentStarts
  rw [ht]
  cases hi : isIndexed target with
  | true =>
      simp only [hi, Bool.true_or, if_true]
      exact List.Sublist.refl [n.start]
  | false =>
      cases hp : isPlainAssignment f n with
      | true =>
          have hp' : isPlainAssignment (answering f).file n = true := hp
          simp only [hi, hp', Bool.not_true, Bool.or_false, Bool.false_eq_true, if_false]
          exact List.Sublist.refl [target.start]
      | false =>
          have hp' : isPlainAssignment (answering f).file n = false := hp
          simp only [hi, hp', Bool.not_false, Bool.or_true, Bool.false_eq_true, if_false, if_true]
          exact List.Sublist.refl [target.start, n.start]

/-- When everything is answered, a visit records at each of its starts. -/
theorem siteStarts_sublist_record (f : SourceFile) (v : Visit) :
    (siteStarts f v.node).Sublist ((record (answering f) v ()).1.map (·.site.start)) := by
  have hone : [v.node.start].Sublist [v.node.start] := List.Sublist.refl _
  unfold siteStarts record
  cases Construct.ofNode v.node with
  | call => exact hone
  | navigation => exact hone
  | identifier =>
      have hfile : (answering f).file.text = f.text := rfl
      dsimp only
      rw [hfile]
      split
      · exact hone
      · exact .slnil
  | assignment =>
      dsimp only
      split
      · next target ht => exact assignmentStarts_sublist_record f ht v.inDelegate
      · exact List.nil_sublist _
  | operator => exact hone
  | userType => exact hone
  | delegationSpecifier => exact start_sublist_typeThenCall f v.node .supertype _
  | annotationEntry => exact start_sublist_typeThenCall f v.node .annotationUse _
  | propertyDelegate => exact hone
  | callableReference => exact hone
  | other => exact .slnil

theorem starts_sublist_recordedAlong (f : SourceFile) :
    ∀ vs : List Visit, ((vs.map Visit.node).flatMap (siteStarts f)).Sublist
      ((recordedAlong (answering f) vs ()).map (·.site.start))
  | [] => .slnil
  | v :: vs => by
      rw [recordedAlong_cons, List.map_cons, List.flatMap_cons, List.map_append]
      exact (siteStarts_sublist_record f v).append (starts_sublist_recordedAlong f vs)

/-! ### The order of every run -/

/-- **The usages of every run are in order exactly when the visited nodes are**, whatever the
session answers, the cap and the filter let pass, and whether or not somebody watches for
cancellation. -/
theorem collect_ordered_iff {f : SourceFile} (ht : f.tree.WellFormed) (ha : Arranged f.tree)
    {n : Node} (hn : Within f.tree n) :
    (∀ (σ : Type) (session : Session σ) (l : Limits) (w : Watch σ) (s : σ) (usages : List Usage),
      session.file = f → (collect session l w n s).1 = .ok usages → Ordered usages) ↔
      ∀ m ∈ (itinerary n).map Visit.node, InOrder f m := by
  rw [← pairwise_startsAlong_iff ht ha hn]
  constructor
  · intro h
    -- the run that keeps all that is recorded when everything is answered
    have hall := List.take_length (l := recordedAlong (answering f) (itinerary n) ())
    have hrun := collect_uncancelled (answering f)
      ⟨(recordedAlong (answering f) (itinerary n) ()).length, true⟩ 1 n ()
    have hkeeps : ∀ cap, (recordedAlong (answering f) (itinerary n) ()).filter
        (Limits.keeps ⟨cap, true⟩) = recordedAlong (answering f) (itinerary n) () :=
      fun cap => List.filter_eq_self.2 fun _ _ => rfl
    rw [hkeeps, hall] at hrun
    have hord := h Unit (answering f) _ _ () _ rfl hrun
    exact (List.pairwise_map.2 hord).sublist (starts_sublist_recordedAlong f (itinerary n))
  · rintro h σ session l w s usages rfl hu
    exact ordered_of_pairwise_startsAlong hn h hu

/-- `fun f() { x = g() }`, with a call and an assignment in order. -/
def assigning : SourceFile :=
  .ofTree 0 ⟨"/p/a.kt"⟩ "fun f() { x = g() }\n"
    (.named "source_file" 0 20
      [.named "function_declaration" 0 19
        [.token "fun" 0 3, .named "simple_identifier" 4 5 [],
         .named "function_value_parameters" 5 7 [.token "(" 5 6, .token ")" 6 7],
         .named "function_body" 8 19
          [.token "\x7b" 8 9,
           .named "statements" 10 17
            [.named "assignment" 10 17
              [.named "directly_assignable_expression" 10 11 [.named "simple_identifier" 10 11 []],
               .token "=" 12 13,
               .named "call_expression" 14 17
                [.named "simple_identifier" 14 15 [],
                 .named "call_suffix" 15 17
                  [.named "value_arguments" 15 17 [.token "(" 15 16, .token ")" 16 17]]]]],
           .token "\x7d" 18 19]]])
    .kotlin .source false

theorem collect_ordered_iff_assigning :
    assigning.tree.WellFormed ∧ Arranged assigning.tree ∧
      ∀ (σ : Type) (session : Session σ) (l : Limits) (w : Watch σ) (s : σ) (usages : List Usage),
        session.file = assigning → (collect session l w assigning.top s).1 = .ok usages →
          Ordered usages := by
  have ht : assigning.tree.WellFormed := by decide
  have ha : Arranged assigning.tree := by decide
  have hord : ∀ m ∈ (itinerary assigning.top).map Visit.node, InOrder assigning m :=
    (pairwise_startsAlong_iff ht ha .top).1 (by decide)
  exact ⟨ht, ha, (collect_ordered_iff ht ha .top).2 hord⟩

/-- `fun f(a: Int, b: Int) = null(a, b)`; the keyword that is called is no named node. -/
def nullCall : SourceFile :=
  .ofTree 0 ⟨"/p/a.kt"⟩ "fun f(a: Int, b: Int) = null(a, b)\n"
    (.named "source_file" 0 35
      [.named "function_declaration" 0 34
        [.token "fun" 0 3, .named "simple_identifier" 4 5 [],
         .named "function_value_parameters" 5 21
          [.token "(" 5 6,
           .named "parameter" 6 12
            [.named "simple_identifier" 6 7 [], .token ":" 7 8,
             .named "user_type" 9 12 [.named "type_identifier" 9 12 []]],
           .token "," 12 13,
           .named "parameter" 14 20
            [.named "simple_identifier" 14 15 [], .token ":" 15 16,
             .named "user_type" 17 20 [.named "type_identifier" 17 20 []]],
           .token ")" 20 21],
         .named "function_body" 22 34
          [.token "=" 22 23,
           .named "call_expression" 24 34
            [.token "null" 24 28,
             .named "call_suffix" 28 34
              [.named "value_arguments" 28 34
                [.token "(" 28 29,
                 .named "value_argument" 29 30 [.named "simple_identifier" 29 30 []],
                 .token "," 30 31,
                 .named "value_argument" 32 33 [.named "simple_identifier" 32 33 []],
                 .token ")" 33 34]]]]]])
    .kotlin .source false

/-- The arguments of the call are collected twice: `a`, `b`, and again `a`, `b`. -/
theorem collect_unordered_nullCall :
    nullCall.tree.WellFormed ∧ Arranged nullCall.tree ∧
      ∃ usages, (collect (answering nullCall) ⟨1000, true⟩ (.never 64) nullCall.top ()).1
          = .ok usages ∧
        usages.map (·.site.start) = [9, 17, 24, 29, 32, 29, 32] ∧ ¬ Ordered usages :=
  ⟨by decide, by decide, _, rfl, by decide, by decide⟩

/-! ### Calls in order -/

/-- **A call whose callee is written before its suffixes is in order.** -/
theorem inOrder_of_callee_before {t : Tree} (ht : t.WellFormed) {f : SourceFile} {n : Node}
    (hn : Within t n) (hc : Construct.ofNode n = .call)
    (hbefore : ∀ callee, n.namedChild? 0 = some callee →
      ∀ suffix ∈ n.childrenOfKind "call_suffix", callee.stop ≤ suffix.start) : InOrder f n := by
  rw [InOrder, hc]
  intro x hx y hy
  obtain ⟨m, hm, hx⟩ := List.mem_flatMap.1 hx
  obtain ⟨suffix, hsuffix, hy⟩ := List.mem_flatMap.1 hy
  have hsw : Within t suffix := .child hn (mem_childrenOfKind_iff.1 hsuffix).1
  have hmw := (belowChild_of_mem_calleeNodes hm).below.within hn
  unfold calleeNodes at hm
  split at hm
  · next callee hcallee =>
    have hcw : Within t callee := .child hn (mem_children_of_namedChild? hcallee)
    have hstop : m.stop ≤ callee.stop := by
      split at hm
      · cases hm
      · exact (ht.child_inside hcw (mem_children_of_namedChild? (Option.mem_toList.1 hm))).2
      · obtain rfl := List.mem_singleton.1 hm
        exact Nat.le_refl _
    calc x ≤ m.stop := (startsBelow_bounds ht hmw hx).2
      _ ≤ callee.stop := hstop
      _ ≤ suffix.start := hbefore callee hcallee suffix hsuffix
      _ ≤ y := (startsBelow_bounds ht hsw hy).1
  · cases hm

/-- **Where callees are written before their suffixes and assignments begin with their targets,
the usages of every run are in order.** -/
theorem ordered_of_callees_before {f : SourceFile} (ht : f.tree.WellFormed) (ha : Arranged f.tree)
    (hcalls : ∀ m, Within f.tree m → Construct.ofNode m = .call →
      ∀ callee, m.namedChild? 0 = some callee →
      ∀ suffix ∈ m.childrenOfKind "call_suffix", callee.stop ≤ suffix.start)
    (htargets : ∀ m, Within f.tree m → ∀ target, assignmentTarget? m = some target →
      target.start ≤ m.start)
    {n : Node} (hn : Within f.tree n) {σ : Type} {session : Session σ} (hf : session.file = f)
    {l : Limits} {w : Watch σ} {s : σ} {usages : List Usage}
    (hu : (collect session l w n s).1 = .ok usages) : Ordered usages := by
  refine ordered_of_pairwise_startsAlong hn ?_ hu
  rw [hf]
  refine (pairwise_startsAlong_iff ht ha hn).2 fun m hm => ?_
  obtain ⟨v, hv, rfl⟩ := List.mem_map.1 hm
  have hw : Within f.tree v.node := within_of_mem_itinerary hn hv
  cases hc : Construct.ofNode v.node with
  | call => exact inOrder_of_callee_before ht hw hc (hcalls v.node hw hc)
  | assignment =>
      rw [InOrder, hc]
      exact fun target htarget _ _ => htargets v.node hw target htarget
  | _ => rw [InOrder, hc]; trivial

end Crossref.Usage
