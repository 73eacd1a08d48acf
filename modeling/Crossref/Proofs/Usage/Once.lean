import Mathlib.Data.List.Nodup
import Crossref.Proofs.SourceFile.Keys
import Crossref.Proofs.Usage.Cancellation
import Crossref.Proofs.Usage.Order
import Crossref.Proofs.Usage.Receivers

/-!
# Proofs — usages — every node once

What a visit goes on with are parts of its node that have nothing in common: the receiver and the
arguments of a call, the target and the other operands of an assignment, the type arguments, the
constructor's arguments and the delegate of a supertype.  So no node is come to twice, provided that
a call is never made of its own suffix.  All that is visited lies below the declaration or below one
of the accessors beside it, and the span of a declaration reaches over just these.

* `separate_nextNodes`: the parts that a visit goes on with have nothing in common.
* `nodup_itinerary`: no node is visited twice.
* `site_inside_key`: what is recorded at a visit stands in the span of the declaration.
* `collect_visits_once`: both, for every run.
-/

namespace Crossref.Usage
open Node

/-! ### Parts with nothing in common -/

/-- What is called is no suffix of the call. -/
def CalledByName (n : Node) : Prop :=
  ∀ callee ∈ n.namedChild? 0, callee.kind ≠ "call_suffix"

instance (n : Node) : Decidable (CalledByName n) :=
  inferInstanceAs (Decidable (∀ callee ∈ n.namedChild? 0, _))

theorem kind_of_ofNode_eq_call {n : Node} (h : Construct.ofNode n = .call) :
    n.kind = "call_expression" := by
  have hk := Construct.mem_kinds_ofNode (n := n) (by simp [h])
  rwa [h, Construct.kinds, List.mem_singleton] at hk

/-- The nodes below what is called lie in the callee. -/
theorem inPart_of_mem_calleeNodes {n m : Node} (h : m ∈ calleeNodes n) :
    ∃ callee ∈ n.namedChild? 0, InPart [callee.kind] n m := by
  unfold calleeNodes at h
  split at h
  · next callee hcallee =>
    refine ⟨callee, hcallee, callee, mem_children_of_namedChild? hcallee, by simp, ?_⟩
    split at h
    · cases h
    · exact .of_mem_children (mem_children_of_namedChild? (Option.mem_toList.1 h))
    · obtain rfl := List.mem_singleton.1 h
      exact .refl
  · cases h

theorem separate_calleeNodes (n : Node) : Separate (calleeNodes n) := by
  unfold calleeNodes
  split
  · split
    · exact List.Pairwise.nil
    · exact Separate.toList _
    · exact Separate.singleton _
  · exact List.Pairwise.nil

theorem separate_belowCall {n : Node} (h : CalledByName n) : Separate (belowCall n) := by
  rw [belowCall_eq]
  refine (separate_calleeNodes n).append (separate_childrenOfKind n _) fun a ha b hb m ham hbm => ?_
  obtain ⟨callee, hcallee, hpart⟩ := inPart_of_mem_calleeNodes ha
  obtain ⟨hb, hkind⟩ := mem_childrenOfKind_iff.1 hb
  have hsuffix : InPart ["call_suffix"] n m := ⟨b, hb, by simp [hkind], hbm⟩
  obtain ⟨kind, hk, hk'⟩ := (hpart.trans_below ham).disjoint hsuffix
  rw [List.mem_singleton] at hk hk'
  exact h callee hcallee (hk.symm.trans hk')

theorem separate_targetNodes (target : Node) : Separate (targetNodes target) := by
  unfold targetNodes
  split
  · exact separate_namedChildren target
  · split
    · exact Separate.toList _
    · exact List.Pairwise.nil

theorem separate_belowAssignment (n : Node) : Separate (belowAssignment n) := by
  cases ht : assignmentTarget? n with
  | none =>
      rw [belowAssignment, ht]
      exact separate_namedChildren n
  | some target =>
      rw [belowAssignment_eq ht]
      refine (separate_targetNodes target).append
        ((separate_namedChildren n).sublist List.filter_sublist) fun a ha b hb m ham hbm => ?_
      obtain ⟨hb, hother⟩ := List.mem_filter.1 hb
      have htarget : Below target m :=
        (Below.of_mem_children (mem_children_of_mem_targetNodes ha)).trans ham
      -- both lie below a child of the assignment, so the other operand would be the target
      obtain rfl := (separate_children n).eq_of_below (mem_of_childOfKind? ht).1
        (mem_namedChildren_iff.1 hb).1 htarget hbm
      simp [isSame] at hother

/-! ### The parts of a supertype -/

/-- The type of a supertype is a child of the entry, or a child of its constructor's invocation or
of its delegation. -/
theorem specifierType?_cases {n t : Node} (h : Kotlin.specifierType? n = some t) :
    t.kind = "user_type" ∧ (t ∈ n.children ∨
      ∃ kind ∈ ["constructor_invocation", "explicit_delegation"], ∃ w,
        n.childOfKind? kind = some w ∧ t ∈ w.children) := by
  rcases Option.or_eq_some_iff.1 h with h | ⟨-, h⟩
  · rcases Option.or_eq_some_iff.1 h with h | ⟨-, h⟩
    · exact ⟨(mem_of_childOfKind? h).2, .inl (mem_of_childOfKind? h).1⟩
    · obtain ⟨w, hw, h⟩ := Option.bind_eq_some_iff.1 h
      exact ⟨(mem_of_childOfKind? h).2, .inr ⟨_, by simp, w, hw, (mem_of_childOfKind? h).1⟩⟩
  · obtain ⟨w, hw, h⟩ := Option.bind_eq_some_iff.1 h
    exact ⟨(mem_of_childOfKind? h).2, .inr ⟨_, by simp, w, hw, (mem_of_childOfKind? h).1⟩⟩

/-- Nothing lies both in the type of a supertype and in a part of another kind of its constructor's
invocation or of its delegation. -/
theorem not_below_type {n t w a m : Node} {kind : String} (ht : Kotlin.specifierType? n = some t)
    (hw : n.childOfKind? kind = some w)
    (hkind : kind ∈ ["constructor_invocation", "explicit_delegation"]) (ha : a ∈ w.children)
    (hk : a.kind ≠ "user_type") (hta : Below t m) : ¬ Below a m := by
  intro ham
  obtain ⟨htk, htype⟩ := specifierType?_cases ht
  obtain ⟨hwc, rfl⟩ := mem_of_childOfKind? hw
  have hwm : Below w m := (Below.of_mem_children ha).trans ham
  rcases htype with htc | ⟨kind, -, v, hv, htv⟩
  · -- the type is a child of the entry itself
    obtain rfl := (separate_children n).eq_of_below htc hwc hta hwm
    simp [htk] at hkind
  · obtain ⟨hvc, rfl⟩ := mem_of_childOfKind? hv
    have hvm : Below v m := (Below.of_mem_children htv).trans hta
    obtain rfl := (separate_children n).eq_of_below hvc hwc hvm hwm
    obtain rfl := (separate_children v).eq_of_below htv ha hta ham
    exact hk htk

/-- Nor do type arguments of a supertype lie above what such a part lies above. -/
theorem not_below_typeArguments {n w a b m : Node} {kind : String}
    (ha : a ∈ (Kotlin.specifierType? n).toList.flatMap (·.childrenOfKind "type_arguments"))
    (hw : n.childOfKind? kind = some w)
    (hkind : kind ∈ ["constructor_invocation", "explicit_delegation"]) (hb : b ∈ w.children)
    (hk : b.kind ≠ "user_type") (ham : Below a m) : ¬ Below b m := by
  obtain ⟨t, ht, ha⟩ := List.mem_flatMap.1 ha
  have hta : Below t a := .of_mem_children (mem_childrenOfKind_iff.1 ha).1
  exact not_below_type (Option.mem_toList.1 ht) hw hkind hb hk (hta.trans ham)

/-- Some of the children of a node that may be missing. -/
theorem separate_flatMap_toList (o : Option Node) {g : Node → List Node}
    (hg : ∀ n, (g n).Sublist n.children) : Separate (o.toList.flatMap g) :=
  (Separate.toList o).flatMap (fun n _ => (separate_children n).sublist (hg n))
    fun n _ _ ha => .of_mem_children ((hg n).mem ha)

theorem separate_belowSpecifier (n : Node) : Separate (belowSpecifier n) := by
  have hofKind (kind : String) (w : Node) : (w.childrenOfKind kind).Sublist w.children :=
    List.filter_sublist
  have htypes := separate_flatMap_toList (Kotlin.specifierType? n) (hofKind "type_arguments")
  have harguments :=
    separate_flatMap_toList (n.childOfKind? "constructor_invocation") (hofKind "value_arguments")
  have hdelegates := separate_flatMap_toList (n.childOfKind? "explicit_delegation")
    (g := fun d => d.namedChildren.filter (·.kind != "user_type"))
    fun d => List.filter_sublist.trans List.filter_sublist
  rw [belowSpecifier]
  refine (htypes.append harguments fun a ha b hb m ham => ?_).append hdelegates
    fun a ha b hb m ham => ?_
  · obtain ⟨w, hw, hb⟩ := List.mem_flatMap.1 hb
    obtain ⟨hbw, hbk⟩ := mem_childrenOfKind_iff.1 hb
    exact not_below_typeArguments ha (Option.mem_toList.1 hw) (by simp) hbw (by simp [hbk]) ham
  · obtain ⟨d, hd, hb⟩ := List.mem_flatMap.1 hb
    obtain ⟨hb, hbk⟩ := List.mem_filter.1 hb
    have hbd := (mem_namedChildren_iff.1 hb).1
    rcases List.mem_append.1 ha with ha | ha
    · exact not_below_typeArguments ha (Option.mem_toList.1 hd) (by simp) hbd
        (by simpa using hbk) ham
    · -- a constructor's invocation and a delegation are different children
      obtain ⟨w, hw, ha⟩ := List.mem_flatMap.1 ha
      obtain ⟨hwc, hwk⟩ := mem_of_childOfKind? (Option.mem_toList.1 hw)
      obtain ⟨hdc, hdk⟩ := mem_of_childOfKind? (Option.mem_toList.1 hd)
      have hwm : Below w m := (Below.of_mem_children (mem_childrenOfKind_iff.1 ha).1).trans ham
      intro hbm
      obtain rfl := (separate_children n).eq_of_below hwc hdc hwm
        ((Below.of_mem_children hbd).trans hbm)
      exact absurd (hwk.symm.trans hdk) (by decide)

/-- **The parts that a visit goes on with have nothing in common.** -/
theorem separate_nextNodes {n : Node} (h : Construct.ofNode n = .call → CalledByName n) :
    Separate (nextNodes n) := by
  unfold nextNodes
  cases hc : Construct.ofNode n with
  | call => exact separate_belowCall (h hc)
  | navigation => exact Separate.toList _
  | identifier => exact List.Pairwise.nil
  | assignment => exact separate_belowAssignment n
  | operator => exact separate_namedChildren n
  | userType => exact separate_childrenOfKind n _
  | delegationSpecifier => exact separate_belowSpecifier n
  | annotationEntry => exact Separate.toList _
  | propertyDelegate => exact separate_namedChildren n
  | callableReference => exact List.Pairwise.nil
  | other => exact separate_namedChildren n

/-! ### No node twice -/

/-- A walk that goes on with parts that have nothing in common meets no node twice. -/
theorem nodup_walk :
    ∀ {fuel : Nat} {n : Node}, n.tree.height ≤ fuel →
      (∀ m ∈ walk n, Separate (nextNodes m)) → (walk n).Nodup
  | 0, ⟨.node _ _, _⟩, h, _ => by simp [Tree.height] at h
  | fuel + 1, n, h, hparts => by
      rw [walk_eq, List.nodup_cons]
      constructor
      · intro hmem
        obtain ⟨m, hm, hn⟩ := List.mem_flatMap.1 hmem
        -- the node would lie below one of its own children
        obtain ⟨c, hc, hcm⟩ := belowChild_of_mem_nextNodes hm
        have hbelow : Below c n := hcm.trans (below_of_mem_walk hn)
        refine hbelow.notMem_ancestors ?_
        rw [ancestors_of_mem_children hc]
        exact List.mem_cons_self
      · refine List.nodup_flatMap.2 ⟨fun m hm => ?_, ?_⟩
        · have hlt := Nat.lt_of_lt_of_le (nextNodes_height_lt hm) h
          exact nodup_walk (Nat.le_of_lt_succ hlt)
            fun k hk => hparts k (mem_walk_of_mem_nextNodes hm hk)
        · refine (hparts n (mem_walk_self n)).imp fun {a b} hab m ha hb => ?_
          exact hab m (below_of_mem_walk ha) (below_of_mem_walk hb)

/-- The declaration and the accessors beside it have nothing in common. -/
theorem separate_itineraryTops {t : Tree} {n : Node} (hn : Within t n) :
    Separate (itineraryTops n) := by
  cases hn with
  | top =>
      have htops : itineraryTops (ofTree t) = [ofTree t] := by
        simp [itineraryTops, Kotlin.siblingAccessors_top]
      rw [htops]
      exact Separate.singleton _
  | @child p _ hp hc =>
      obtain ⟨before, hs⟩ := exists_children_of_mem hc
      have hbehind : Separate (n :: n.following) :=
        (separate_children p).sublist (hs ▸ List.sublist_append_right before _)
      refine hbehind.sublist ?_
      unfold itineraryTops
      split
      · exact (List.takeWhile_sublist _).cons_cons n
      · exact (List.nil_sublist _).cons_cons n

/-- **No node is visited twice**, where calls are made by name. -/
theorem nodup_itinerary {t : Tree} (hcalls : ∀ m, Within t m → Construct.ofNode m = .call →
    CalledByName m) {n : Node} (hn : Within t n) : ((itinerary n).map Visit.node).Nodup := by
  rw [map_node_itinerary]
  refine List.nodup_flatMap.2 ⟨fun top htop => ?_, ?_⟩
  · refine nodup_walk (Nat.le_refl _) fun m hm => separate_nextNodes (hcalls m ?_)
    exact (below_of_mem_walk hm).within (within_of_mem_itineraryTops hn htop)
  · refine (separate_itineraryTops hn).imp fun {a b} hab m ha hb => ?_
    exact hab m (below_of_mem_walk ha) (below_of_mem_walk hb)

/-! ### In the span of the declaration -/

/-- An accessor beside a property ends no later than the last one. -/
theorem stop_le_spanStop_of_accessor {t : Tree} (ht : t.WellFormed) {n a : Node} (hn : Within t n)
    (hk : n.kind = "property_declaration") (ha : a ∈ Kotlin.siblingAccessors n) :
    n.start ≤ a.start ∧ a.stop ≤ Kotlin.spanStop n := by
  have htops : OneBehindOther (n :: Kotlin.siblingAccessors n) := by
    simpa [itineraryTops, hk] using itineraryTops_oneBehindOther ht hn
  obtain ⟨hfirst, haccessors⟩ := List.pairwise_cons.1 htops
  refine ⟨Nat.le_trans (ht.start_le_stop hn) (hfirst a ha), ?_⟩
  obtain ⟨last, hlast⟩ : ∃ last, (Kotlin.siblingAccessors n).getLast? = some last :=
    ⟨_, List.getLast?_eq_some_getLast (List.ne_nil_of_mem ha)⟩
  have hstop : Kotlin.spanStop n = last.stop := by simp [Kotlin.spanStop, hk, hlast]
  obtain ⟨before, hbefore⟩ := List.getLast?_eq_some_iff.1 hlast
  rw [hstop]
  rw [hbefore] at ha haccessors
  rcases List.mem_append.1 ha with ha | ha
  · have hlw : Within t last :=
      hn.following (Kotlin.mem_following_of_mem_siblingAccessors (List.mem_of_getLast? hlast))
    have hbehind := (List.pairwise_append.1 haccessors).2.2 a ha last (by simp)
    exact Nat.le_trans hbehind (ht.start_le_stop hlw)
  · obtain rfl := List.mem_singleton.1 ha
    exact Nat.le_refl _

/-- The declaration and the accessors beside it lie in its span. -/
theorem inside_of_mem_itineraryTops {f : SourceFile} (ht : f.tree.WellFormed) {n top : Node}
    (hn : Within f.tree n) (hlanguage : n.kind = "property_declaration" → f.language = .kotlin)
    (htop : top ∈ itineraryTops n) :
    (f.keyOf n).start ≤ top.start ∧ top.stop ≤ (f.keyOf n).stop := by
  rw [SourceFile.keyOf_start]
  rcases List.mem_cons.1 htop with rfl | haccessor
  · exact ⟨Nat.le_refl _, SourceFile.stop_le_keyOf_stop ht hn⟩
  · split at haccessor
    · next hk =>
      have hstop : (f.keyOf n).stop = Kotlin.spanStop n := by
        simp [SourceFile.keyOf, SourceFile.spanOf, hlanguage hk]
      rw [hstop]
      exact stop_le_spanStop_of_accessor ht hn hk haccessor
    · cases haccessor

/-- The site stands in the file of the key, and in its span. -/
def Site.Inside (site : Site) (key : DeclKey) : Prop :=
  site.file = key.file ∧ key.start ≤ site.start ∧ site.stop ≤ key.stop

instance (site : Site) (key : DeclKey) : Decidable (site.Inside key) :=
  inferInstanceAs (Decidable (_ ∧ _ ∧ _))

/-- **What is recorded at a visit stands in the span of the declaration.** -/
theorem site_inside_key {σ : Type} {session : Session σ} (ht : session.file.tree.WellFormed)
    {n : Node} (hn : Within session.file.tree n)
    (hlanguage : n.kind = "property_declaration" → session.file.language = .kotlin) {v : Visit}
    (hv : v ∈ itinerary n) {s : σ} {u : Usage} (hu : u ∈ (record session v s).1) :
    u.site.Inside (session.file.keyOf n) := by
  obtain ⟨top, htop, hbelow⟩ := exists_top_of_mem_itinerary hv
  have htw := within_of_mem_itineraryTops hn htop
  obtain ⟨hstart, hstop⟩ := inside_of_mem_itineraryTops ht hn hlanguage htop
  -- the site is that of the visited node, or of the target below it
  obtain ⟨m, hm, hsite⟩ : ∃ m, Below top m ∧ u.site = .ofNode session.file m := by
    rcases site_of_mem_record hu with hsite | ⟨target, htarget, hsite⟩
    · exact ⟨v.node, hbelow, hsite⟩
    · exact ⟨target, hbelow.child (mem_of_childOfKind? htarget).1, hsite⟩
  obtain ⟨hstart', hstop'⟩ := ht.span_le htw hm
  rw [hsite]
  exact ⟨rfl, Nat.le_trans hstart hstart', Nat.le_trans hstop' hstop⟩

/-! ### Every run -/

/-- A run keeps some of what its handled visits record, in their order. -/
theorem sublist_of_keptFrom {σ : Type} (session : Session σ) (l : Limits) (kept : List Usage)
    (made : List (Visit × σ)) :
    ∃ more, keptFrom session l kept made = kept ++ more ∧
      more.Sublist (made.flatMap fun h => (record session h.1 h.2).1) := by
  induction made generalizing kept with
  | nil => exact ⟨[], by simp [keptFrom], List.nil_sublist _⟩
  | cons h made ih =>
      obtain ⟨first, hfirst, hsub⟩ := extend_eq_append l kept (record session h.1 h.2).1
      obtain ⟨more, hmore, hrest⟩ := ih (kept ++ first)
      refine ⟨first ++ more, ?_, ?_⟩
      · rw [← List.append_assoc, ← hmore, keptFrom, List.foldl_cons, hfirst]
        rfl
      · rw [List.flatMap_cons]
        exact hsub.append hrest

/-- The handled visits are the first ones of the itinerary. -/
theorem map_handledBelow_isPrefix {σ : Type} {session : Session σ} {l : Limits}
    {w : Watch σ} {n : Node} {s : σ} :
    (handledBelow session l w n s).map Prod.fst <+: itinerary n := by
  unfold handledBelow
  split
  · exact List.nil_prefix
  · exact map_handled_isPrefix session l w (itinerary n) 0 [] s

/-- **Every node at most once, and only in the declaration's span.**  Whatever the session answers
and whatever the cap, the filter and the watch are: the visits that a run handles are at different
nodes; the usages that it collects are some of those recorded at these visits, in their order; and
each stands in the span of the declaration, which reaches over the accessors beside a property. -/
theorem collect_visits_once {f : SourceFile} (ht : f.tree.WellFormed)
    (hcalls : ∀ m, Within f.tree m → m.kind = "call_expression" → CalledByName m) {n : Node}
    (hn : Within f.tree n) (hlanguage : n.kind = "property_declaration" → f.language = .kotlin)
    {σ : Type} {session : Session σ} (hf : session.file = f) (l : Limits) (w : Watch σ) (s : σ) :
    ((handledBelow session l w n s).map fun h => h.1.node).Nodup ∧
    ∀ usages, (collect session l w n s).1 = .ok usages →
      usages.Sublist ((handledBelow session l w n s).flatMap fun h => (record session h.1 h.2).1) ∧
      ∀ u ∈ usages, u.site.Inside (f.keyOf n) := by
  subst hf
  have hleading : (handledBelow session l w n s).map Prod.fst <+: itinerary n :=
    map_handledBelow_isPrefix
  constructor
  · have hnodup := nodup_itinerary (fun m hm hc => hcalls m hm (kind_of_ofNode_eq_call hc)) hn
    have hsub := (hleading.sublist.map Visit.node).nodup hnodup
    rwa [List.map_map] at hsub
  · intro usages hu
    have hkept := collect_eq_handled session l w n s
    rw [hkept] at hu
    dsimp only at hu
    split at hu
    · cases hu
    · cases hu
      obtain ⟨more, hmore, hsub⟩ := sublist_of_keptFrom session l [] (handledBelow session l w n s)
      rw [List.nil_append] at hmore
      rw [hmore]
      refine ⟨hsub, fun u humem => ?_⟩
      obtain ⟨h, hh, hu⟩ := List.mem_flatMap.1 (hsub.subset humem)
      exact site_inside_key ht hn hlanguage
        (hleading.subset (List.mem_map.2 ⟨h, hh, rfl⟩)) hu

/-- `val x: Int` with the accessor `get() = f(x)` behind it, outside the node of the property. -/
def accessorBeside : SourceFile :=
  .ofTree 0 ⟨"/p/a.kt"⟩ "val x: Int\n    get() = f(x)\n"
    (.named "source_file" 0 28
      [.named "property_declaration" 0 10
        [.named "binding_pattern_kind" 0 3 [.token "val" 0 3],
         .named "variable_declaration" 4 10
          [.named "simple_identifier" 4 5 [], .token ":" 5 6,
           .named "user_type" 7 10 [.named "type_identifier" 7 10 []]]],
       .named "getter" 15 27
        [.token "get" 15 18, .token "(" 18 19, .token ")" 19 20,
         .named "function_body" 21 27
          [.token "=" 21 22,
           .named "call_expression" 23 27
            [.named "simple_identifier" 23 24 [],
             .named "call_suffix" 24 27
              [.named "value_arguments" 24 27
                [.token "(" 24 25,
                 .named "value_argument" 25 26 [.named "simple_identifier" 25 26 []],
                 .token ")" 26 27]]]]]])
    .kotlin .source false

/-- Its first child, the property. -/
def accessorBeside.property : Node := (accessorBeside.top.child? 0).getD accessorBeside.top

theorem collect_visits_once_accessor :
    accessorBeside.tree.WellFormed ∧
    (∀ m, Within accessorBeside.tree m → m.kind = "call_expression" → CalledByName m) ∧
    Within accessorBeside.tree accessorBeside.property ∧
    ∃ usages, (collect (answering accessorBeside) ⟨1000, true⟩ (.never 64)
        accessorBeside.property ()).1 = .ok usages ∧
      usages.map (·.site.start) = [7, 23, 25] ∧
      (∀ u ∈ usages, u.site.Inside (accessorBeside.keyOf accessorBeside.property)) ∧
      ((handledBelow (answering accessorBeside) ⟨1000, true⟩ (.never 64)
        accessorBeside.property ()).map fun h => h.1.node).Nodup := by
  have ht : accessorBeside.tree.WellFormed := by decide
  have hcalls : ∀ m, Within accessorBeside.tree m → m.kind = "call_expression" →
      CalledByName m := by
    simp only [within_iff_mem_preorder]
    decide
  have hn : Within accessorBeside.tree accessorBeside.property :=
    .child .top (List.mem_of_getElem? (i := 0) rfl)
  have hf : (answering accessorBeside).file = accessorBeside := rfl
  have hrun := collect_visits_once ht hcalls hn (fun _ => rfl) hf ⟨1000, true⟩ (.never 64) ()
  exact ⟨ht, hcalls, hn, _, rfl, by decide, (hrun.2 _ rfl).2, hrun.1⟩

end Crossref.Usage
