import Crossref.Proofs.Resolve.Blanked.Answers
import Crossref.Proofs.Usage.Parts
import Crossref.Proofs.Usage.Walk

/-!
# Proofs — usages — the itinerary with comments left out

The walk over a declaration meets comments like other children.  A comment is no construct and has
no children, so the walk ends there at once: what is visited in what is left of a declaration is
what is left of the visits.

* `nextNodes_blanked`: a walk goes on with what is left of the nodes that it went on with.
* `itinerary_blanked`: the itinerary is what is left of the itinerary.
-/

namespace Crossref.Usage
open Node Resolve

section Parts

variable {out : Comments}

/-- A node writes the same construct. -/
theorem ofNode_without (n : Node) : Construct.ofNode (n.without out) = Construct.ofNode n := by
  rw [Construct.ofNode, Construct.ofNode, kind_without]

theorem ofNode_of_not_isKept {n : Node} (hk : n.isKept out = false) :
    Construct.ofNode n = .other := by
  rw [Construct.ofNode]
  rcases mem_commentKinds_iff.1 (kind_mem_of_not_isKept hk) with hc | hc <;> rw [hc] <;> rfl

/-- A walk ends at a comment. -/
theorem nextNodes_of_not_isKept {n : Node} (hk : n.isKept out = false) : nextNodes n = [] := by
  rw [nextNodes, ofNode_of_not_isKept hk]
  rw [namedChildren, children_of_not_isKept hk]
  rfl

theorem assignmentTarget?_without (n : Node) :
    assignmentTarget? (n.without out) = (assignmentTarget? n).map (without out) :=
  childOfKind?_without (by decide)

theorem isIndexed_without (target : Node) : isIndexed (target.without out) = isIndexed target :=
  hasChildOfKind_without (by decide)

theorem annotationArguments?_without (n : Node) :
    annotationArguments? (n.without out) = (annotationArguments? n).map (without out) := by
  simp (disch := decide) only [annotationArguments?, childOfKind?_without, Option.bind_map,
    Function.comp_def, Option.map_bind]

/-- The children of a kind below a part that is found, which is no comment. -/
theorem below_found_without {o : Option Node} {k : String} (hk : k ∉ commentKinds) :
    (o.map (without out)).toList.flatMap (·.childrenOfKind k) =
      leftOf out (o.toList.flatMap (·.childrenOfKind k)) := by
  cases o with
  | none => rfl
  | some c =>
      simp only [Option.map_some, Option.toList_some, List.flatMap_cons, List.flatMap_nil,
        List.append_nil, childrenOfKind_without hk, leftOf_childrenOfKind hk]

/-- What the walk goes to below a supertype is found by kinds. -/
theorem belowSpecifier_without (n : Node) :
    belowSpecifier (n.without out) = leftOf out (belowSpecifier n) := by
  have hdelegate : ((n.childOfKind? "explicit_delegation").map (without out)).toList.flatMap
        (fun d => d.namedChildren.filter (·.kind != "user_type")) =
      leftOf out ((n.childOfKind? "explicit_delegation").toList.flatMap fun d =>
        d.namedChildren.filter (·.kind != "user_type")) := by
    cases n.childOfKind? "explicit_delegation" with
    | none => rfl
    | some d =>
        simp only [Option.map_some, Option.toList_some, List.flatMap_cons, List.flatMap_nil,
          List.append_nil, namedChildren_without]
        exact filter_leftOf (by simp)
  rw [belowSpecifier, belowSpecifier, leftOf_append, leftOf_append, Kotlin.specifierType?_without,
    childOfKind?_without (by decide), childOfKind?_without (by decide), hdelegate,
    below_found_without (by decide), below_found_without (by decide)]

end Parts

section Index

variable {bs : FileId → Blanking} {i j : Index} (h : Spared bs i j) {f : SourceFile} {n : Node}
  (hn : Place bs i f n)
include h hn

/-- The first named child of a construct that is found by counting, as a walk goes on with it. -/
theorem firstChild_blanked (hkind : n.kind ∈ leadKinds) :
    ((n.without (bs f.id).out).namedChild? 0).toList =
      leftOf (bs f.id).out (n.namedChild? 0).toList := by
  obtain ⟨hchild, hplace⟩ := namedChild?_zero_blanked h hn hkind
  rw [hchild, leftOf_toList fun c hc => (hplace c hc).stays.kept]

/-- Below a call the walk goes to the same callee and the same suffixes. -/
theorem belowCall_blanked (hkind : n.kind = "call_expression") :
    belowCall (n.without (bs f.id).out) = leftOf (bs f.id).out (belowCall n) := by
  obtain ⟨hchild, hplace⟩ := namedChild?_zero_blanked h hn (by rw [hkind]; decide)
  have hcallee : calleeNodes (n.without (bs f.id).out) =
      leftOf (bs f.id).out (calleeNodes n) := by
    rw [calleeNodes, calleeNodes, hchild]
    cases hcallee : n.namedChild? 0 with
    | none => rfl
    | some callee =>
        have hc := hplace callee hcallee
        simp only [Option.map_some, kind_without]
        split
        · rfl
        · next hk => exact firstChild_blanked h hc (by rw [hk]; decide)
        · exact (leftOf_cons_of_kept hc.stays.kept []).symm
  rw [belowCall_eq, belowCall_eq, hcallee, leftOf_append, childrenOfKind_without (by decide),
    leftOf_childrenOfKind (by decide)]

/-- Below an assignment it goes to the same nodes, comments apart. -/
theorem belowAssignment_blanked :
    belowAssignment (n.without (bs f.id).out) = leftOf (bs f.id).out (belowAssignment n) := by
  unfold belowAssignment
  rw [assignmentTarget?_without]
  cases htarget : assignmentTarget? n with
  | none => exact namedChildren_without n
  | some target =>
      obtain ⟨hmem, hkind⟩ := mem_of_childOfKind? htarget
      have hs := hn.stays.of_childOfKind? htarget (by decide)
      have hsuffix : (target.without (bs f.id).out).hasChildOfKind "navigation_suffix" =
          target.hasChildOfKind "navigation_suffix" := hasChildOfKind_without (by decide)
      have hothers : (n.without (bs f.id).out).namedChildren.filter
            (fun c => !c.isSame (target.without (bs f.id).out)) =
          leftOf (bs f.id).out (n.namedChildren.filter fun c => !c.isSame target) := by
        rw [namedChildren_without]
        refine filter_leftOf_congr fun c hc hk => ?_
        rw [isSame_without (mem_namedChildren_iff.1 hc).1 hmem hk hs.kept]
      simp only [Option.map_some, isIndexed_without, hsuffix, leftOf_append, hothers]
      congr 1
      split
      · exact namedChildren_without target
      · split
        · exact firstChild_blanked h ⟨hn.mem, hs⟩ (by rw [hkind]; decide)
        · rfl

/-- **A walk goes on with what is left** of the nodes that it went on with. -/
theorem nextNodes_blanked :
    nextNodes (n.without (bs f.id).out) = leftOf (bs f.id).out (nextNodes n) := by
  have hkind := Construct.mem_kinds_ofNode (n := n)
  unfold nextNodes
  rw [ofNode_without]
  split
  · next hc =>
    rw [hc] at hkind
    exact belowCall_blanked h hn (List.mem_singleton.1 (hkind (by decide)))
  · next hc =>
    rw [hc] at hkind
    exact firstChild_blanked h hn (by rw [List.mem_singleton.1 (hkind (by decide))]; decide)
  · rfl
  · exact belowAssignment_blanked h hn
  · exact namedChildren_without n
  · rw [childrenOfKind_without (by decide), leftOf_childrenOfKind (by decide)]
  · exact belowSpecifier_without n
  · rw [annotationArguments?_without]
    refine (leftOf_toList fun c hc => ?_).symm
    obtain ⟨w, -, hc⟩ := Option.bind_eq_some_iff.1 hc
    exact isKept_of_childOfKind? (by decide) c hc
  · exact namedChildren_without n
  · rfl
  · exact namedChildren_without n

end Index

/-! ### Visits -/

section Visits

variable (out : Comments)

/-- A visit of what is left. -/
def Visit.without (v : Visit) : Visit := ⟨v.node.without out, v.inDelegate⟩

/-- What is left of visits. -/
def visitsLeft (vs : List Visit) : List Visit :=
  (vs.filter fun v => v.node.isKept out).map (Visit.without out)

end Visits

section Lists

variable {out : Comments}

theorem visitsLeft_cons_of_kept {v : Visit} (hv : v.node.isKept out = true) (vs : List Visit) :
    visitsLeft out (v :: vs) = v.without out :: visitsLeft out vs := by
  simp [visitsLeft, hv]

theorem visitsLeft_cons_of_not_kept {v : Visit} (hv : v.node.isKept out = false)
    (vs : List Visit) : visitsLeft out (v :: vs) = visitsLeft out vs := by
  simp [visitsLeft, hv]

theorem visitsLeft_flatMap {β : Type} (l : List β) (g : β → List Visit) :
    visitsLeft out (l.flatMap g) = l.flatMap fun a => visitsLeft out (g a) := by
  rw [visitsLeft, List.filter_flatMap, List.map_flatMap]
  rfl

/-- Of a walk that begins at a comment nothing is left. -/
theorem visitsLeft_visitsWith {v : Visit} (hv : v.node.isKept out = false) (fuel : Nat) :
    visitsLeft out (visitsWith fuel v) = [] := by
  cases fuel with
  | zero => exact visitsLeft_cons_of_not_kept hv []
  | succ fuel =>
      rw [visitsWith, visitsLeft_cons_of_not_kept hv, nextNodes_of_not_isKept hv]
      rfl

end Lists

section Index

variable {bs : FileId → Blanking} {i j : Index} (h : Spared bs i j) {f : SourceFile}
include h

/-- Induction over the depth of the walk. -/
theorem visitsWith_blanked :
    ∀ (fuel : Nat) {v : Visit}, Place bs i f v.node →
      visitsWith fuel (v.without (bs f.id).out) = visitsLeft (bs f.id).out (visitsWith fuel v)
  | 0, _, hv => (visitsLeft_cons_of_kept hv.stays.kept []).symm
  | fuel + 1, v, hv => by
      rw [visitsWith, visitsWith, visitsLeft_cons_of_kept hv.stays.kept, visitsLeft_flatMap]
      congr 1
      have hnext : nextNodes (v.without (bs f.id).out).node =
          leftOf (bs f.id).out (nextNodes v.node) := nextNodes_blanked h hv
      rw [hnext]
      refine flatMap_leftOf (fun m hm hk => ?_) fun m _ hk => visitsLeft_visitsWith hk fuel
      have hkind : (v.without (bs f.id).out).node.kind = v.node.kind := kind_without v.node
      have hbelow := (belowChild_of_mem_nextNodes hm).below
      rw [hkind]
      exact visitsWith_blanked fuel (v := ⟨m, _⟩) ⟨hv.mem, hbelow.within hv.stays.within, hk⟩

/-- The visits below a node are those that are left. -/
theorem visitsBelow_blanked {n : Node} (hn : Place bs i f n) :
    visitsBelow (n.without (bs f.id).out) = visitsLeft (bs f.id).out (visitsBelow n) := by
  rw [visitsBelow, (h.off f hn.mem).height_without hn.stays.within]
  exact visitsWith_blanked h _ (v := ⟨n, false⟩) hn

/-- **The itinerary is what is left of the itinerary.** -/
theorem itinerary_blanked {n : Node} (hn : Place bs i f n) :
    itinerary (n.without (bs f.id).out) = visitsLeft (bs f.id).out (itinerary n) := by
  have htops : itineraryTops (n.without (bs f.id).out) =
      (itineraryTops n).map (without (bs f.id).out) := by
    rw [itineraryTops, itineraryTops, kind_without, List.map_cons]
    congr 1
    split
    · next hkind => exact (h.off f hn.mem).siblingAccessors_without hn.stays hkind
    · rfl
  have hplaces : ∀ m ∈ itineraryTops n, Place bs i f m := by
    intro m hm
    refine ⟨hn.mem, within_of_mem_itineraryTops hn.stays.within hm, ?_⟩
    rcases List.mem_cons.1 hm with rfl | hm
    · exact hn.stays.kept
    · split at hm
      · have haccessor : Kotlin.isAccessor m = true := List.all_eq_true.1 List.all_takeWhile m hm
        refine isKept_of_kind fun hc => ?_
        rw [Kotlin.isAccessor_of_comment hc] at haccessor
        cases haccessor
      · cases hm
  change (itineraryTops (n.without (bs f.id).out)).flatMap visitsBelow =
    visitsLeft (bs f.id).out ((itineraryTops n).flatMap visitsBelow)
  rw [htops, visitsLeft_flatMap, List.flatMap_map]
  exact List.flatMap_congr fun m hm => visitsBelow_blanked h (hplaces m hm)

end Index

end Crossref.Usage
