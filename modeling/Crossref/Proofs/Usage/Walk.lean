import Mathlib.Data.List.Basic
import Crossref.Proofs.Tree.Below
import Crossref.Usage.Itinerary

/-!
# Proofs — usages — the nodes on the itinerary

The walk below a node is the node and the walks below the nodes it goes on with.  The bound on its
depth that the definition carries is the height of the tree, and since the walk only goes down, the
bound is never reached.  Everything visited lies below the node or below one of the accessors beside
it, so the itinerary of a place of a tree stays in the tree.  On its way down the walk passes over
some nodes without a visit: the member access that a call is made through, the target of an
assignment, the parts of supertype entries and of annotations.

* `passedOver_of_mem_nextNodes`: what stands between a node and one that the walk goes on with.
* `belowChild_of_mem_nextNodes`: what the walk goes on with lies below a child.
* `walk_eq`: the walk below a node, without a bound.
* `within_of_mem_itinerary`: the itinerary of a place of a tree visits places of the tree.
-/

namespace Crossref.Usage
open Node

/-! ### Where the walk goes on -/

/-- The nodes below what is called: the receiver of a member access, or a callee that is no plain
name. -/
def calleeNodes (n : Node) : List Node :=
  match n.namedChild? 0 with
  | some callee =>
    match callee.kind with
    | "simple_identifier" => []
    | "navigation_expression" => (callee.namedChild? 0).toList
    | _ => [callee]
  | none => []

theorem belowCall_eq (n : Node) : belowCall n = calleeNodes n ++ n.childrenOfKind "call_suffix" :=
  rfl

/-- The nodes that the walk passes over without a visit. -/
def passedKinds : List String :=
  ["navigation_expression", "directly_assignable_expression", "user_type",
   "constructor_invocation", "explicit_delegation"]

/-- Between the two nodes there stand only nodes that the walk passes over. -/
abbrev PassedOver (n m : Node) : Prop := Through passedKinds n m

/-- Between a call and the nodes below its callee only a member access is passed over. -/
theorem passedOver_of_mem_calleeNodes {n m : Node} (h : m ∈ calleeNodes n) : PassedOver n m := by
  unfold calleeNodes at h
  split at h
  · next callee hcallee =>
    have hc : PassedOver n callee := .child (mem_children_of_namedChild? hcallee)
    split at h
    · cases h
    · next hk =>
      exact hc.step (by simp [passedKinds, hk])
        (mem_children_of_namedChild? (Option.mem_toList.1 h))
    · obtain rfl := List.mem_singleton.1 h
      exact hc
  · cases h

/-- The parts of an assignment's target that are read. -/
def targetNodes (target : Node) : List Node :=
  if isIndexed target then target.namedChildren
  else if target.hasChildOfKind "navigation_suffix" then (target.namedChild? 0).toList
  else []

theorem mem_children_of_mem_targetNodes {target m : Node} (h : m ∈ targetNodes target) :
    m ∈ target.children := by
  unfold targetNodes at h
  split at h
  · exact (mem_namedChildren_iff.1 h).1
  · split at h
    · exact mem_children_of_namedChild? (Option.mem_toList.1 h)
    · cases h

/-- Below an assignment the walk goes to the parts of its target first. -/
theorem belowAssignment_eq {n target : Node} (h : assignmentTarget? n = some target) :
    belowAssignment n =
      targetNodes target ++ n.namedChildren.filter fun c => !c.isSame target := by
  rw [belowAssignment, h]
  rfl

/-- Between an assignment and where its walk goes on only the target is passed over. -/
theorem passedOver_of_mem_belowAssignment {n m : Node} (h : m ∈ belowAssignment n) :
    PassedOver n m := by
  cases ht : assignmentTarget? n with
  | none =>
      rw [belowAssignment, ht] at h
      exact .child (mem_namedChildren_iff.1 h).1
  | some target =>
      rw [belowAssignment_eq ht] at h
      rcases List.mem_append.1 h with h | h
      · exact .of_childOfKind? ht (by simp [passedKinds]) (mem_children_of_mem_targetNodes h)
      · exact .child (mem_namedChildren_iff.1 (List.mem_filter.1 h).1).1

theorem passedOver_of_specifierType? {n t : Node} (h : Kotlin.specifierType? n = some t) :
    PassedOver n t ∧ t.kind = "user_type" := by
  rcases Option.or_eq_some_iff.1 h with h | ⟨-, h⟩
  · rcases Option.or_eq_some_iff.1 h with h | ⟨-, h⟩
    · exact ⟨.child (mem_of_childOfKind? h).1, (mem_of_childOfKind? h).2⟩
    · obtain ⟨w, hw, h⟩ := Option.bind_eq_some_iff.1 h
      obtain ⟨ht, hk⟩ := mem_of_childOfKind? h
      exact ⟨.of_childOfKind? hw (by simp [passedKinds]) ht, hk⟩
  · obtain ⟨w, hw, h⟩ := Option.bind_eq_some_iff.1 h
    obtain ⟨ht, hk⟩ := mem_of_childOfKind? h
    exact ⟨.of_childOfKind? hw (by simp [passedKinds]) ht, hk⟩

/-- Between a specifier and where its walk goes on its type is passed over, and what stands around
it. -/
theorem passedOver_of_mem_belowSpecifier {n m : Node} (h : m ∈ belowSpecifier n) :
    PassedOver n m := by
  rw [belowSpecifier, List.mem_append, List.mem_append] at h
  rcases h with (h | h) | h
  · obtain ⟨t, ht, h⟩ := List.mem_flatMap.1 h
    obtain ⟨htype, hk⟩ := passedOver_of_specifierType? (Option.mem_toList.1 ht)
    exact htype.step (by simp [passedKinds, hk]) (mem_childrenOfKind_iff.1 h).1
  · obtain ⟨w, hw, h⟩ := List.mem_flatMap.1 h
    exact .of_childOfKind? (Option.mem_toList.1 hw) (by simp [passedKinds])
      (mem_childrenOfKind_iff.1 h).1
  · obtain ⟨d, hd, h⟩ := List.mem_flatMap.1 h
    exact .of_childOfKind? (Option.mem_toList.1 hd) (by simp [passedKinds])
      (mem_namedChildren_iff.1 (List.mem_filter.1 h).1).1

/-- **Between a node and one that the walk goes on with** there is nothing but what the walk passes
over. -/
theorem passedOver_of_mem_nextNodes {n m : Node} (h : m ∈ nextNodes n) : PassedOver n m := by
  have named : m ∈ n.namedChildren → PassedOver n m :=
    fun h => .child (mem_namedChildren_iff.1 h).1
  unfold nextNodes at h
  cases hc : Construct.ofNode n with
  | call =>
      rw [hc] at h
      rcases List.mem_append.1 ((belowCall_eq n) ▸ h) with h | h
      · exact passedOver_of_mem_calleeNodes h
      · exact .child (mem_childrenOfKind_iff.1 h).1
  | navigation =>
      rw [hc] at h
      exact .child (mem_children_of_namedChild? (Option.mem_toList.1 h))
  | identifier => rw [hc] at h; cases h
  | assignment => rw [hc] at h; exact passedOver_of_mem_belowAssignment h
  | operator => rw [hc] at h; exact named h
  | userType => rw [hc] at h; exact .child (mem_childrenOfKind_iff.1 h).1
  | delegationSpecifier => rw [hc] at h; exact passedOver_of_mem_belowSpecifier h
  | annotationEntry =>
      rw [hc] at h
      obtain ⟨w, hw, h⟩ := Option.bind_eq_some_iff.1 (Option.mem_toList.1 h)
      exact .of_childOfKind? hw (by simp [passedKinds]) (mem_of_childOfKind? h).1
  | propertyDelegate => rw [hc] at h; exact named h
  | callableReference => rw [hc] at h; cases h
  | other => rw [hc] at h; exact named h

/-- The node lies below a child of the other. -/
def BelowChild (n m : Node) : Prop := ∃ c ∈ n.children, Below c m

theorem BelowChild.below {n m : Node} (h : BelowChild n m) : Below n m := by
  obtain ⟨c, hc, hm⟩ := h
  exact (Below.of_mem_children hc).trans hm

theorem belowChild_of_mem_calleeNodes {n m : Node} (h : m ∈ calleeNodes n) : BelowChild n m :=
  (passedOver_of_mem_calleeNodes h).exists_child

/-- **What the walk goes on with lies below a child of the node.** -/
theorem belowChild_of_mem_nextNodes {n m : Node} (h : m ∈ nextNodes n) : BelowChild n m :=
  (passedOver_of_mem_nextNodes h).exists_child

/-- The walk goes down with every step. -/
theorem nextNodes_height_lt {n m : Node} (h : m ∈ nextNodes n) : m.tree.height < n.tree.height := by
  obtain ⟨c, hc, hm⟩ := belowChild_of_mem_nextNodes h
  exact Nat.lt_of_le_of_lt hm.height_le (height_lt_of_mem_children hc)

/-! ### The walk without its bound -/

/-- The nodes visited below a node, itself first. -/
def walk (n : Node) : List Node := (visitsBelow n).map Visit.node

/-- Bounds that are not reached make no difference, nor does standing in a delegate. -/
theorem map_node_visitsWith :
    ∀ {fuel fuel' : Nat} {v v' : Visit}, v.node = v'.node → v.node.tree.height ≤ fuel →
      v.node.tree.height ≤ fuel' →
      (visitsWith fuel v).map Visit.node = (visitsWith fuel' v').map Visit.node
  | 0, _, ⟨⟨.node _ _, _⟩, _⟩, _, _, h, _ => by simp [Tree.height] at h
  | _, 0, ⟨⟨.node _ _, _⟩, _⟩, _, _, _, h => by simp [Tree.height] at h
  | fuel + 1, fuel' + 1, ⟨n, b⟩, ⟨_, b'⟩, rfl, h, h' => by
      simp only [visitsWith, List.map_cons, List.map_flatMap, List.cons.injEq, true_and]
      refine List.flatMap_congr fun m hm => ?_
      have hlt := nextNodes_height_lt hm
      exact map_node_visitsWith rfl (Nat.le_of_lt_succ (Nat.lt_of_lt_of_le hlt h))
        (Nat.le_of_lt_succ (Nat.lt_of_lt_of_le hlt h'))

/-- **The walk below a node is the node and the walks below what it goes on with.** -/
theorem walk_eq (n : Node) : walk n = n :: (nextNodes n).flatMap walk := by
  have h : walk n = (visitsWith (n.tree.height + 1) ⟨n, false⟩).map Visit.node :=
    map_node_visitsWith rfl (Nat.le_refl _) (Nat.le_succ _)
  rw [h, visitsWith, List.map_cons, List.map_flatMap]
  -- each walk below has a bound that is higher than need be
  refine congrArg _ (List.flatMap_congr fun m hm => ?_)
  exact map_node_visitsWith rfl (Nat.le_of_lt (nextNodes_height_lt hm)) (Nat.le_refl _)

theorem mem_walk_self (n : Node) : n ∈ walk n := by
  rw [walk_eq]
  exact List.mem_cons_self

/-- A walk goes through the walks of the nodes where it goes on. -/
theorem mem_walk_of_mem_nextNodes {n m k : Node} (hm : m ∈ nextNodes n) (hk : k ∈ walk m) :
    k ∈ walk n := by
  rw [walk_eq]
  exact List.mem_cons_of_mem _ (List.mem_flatMap.2 ⟨m, hm, hk⟩)

/-- Induction along the walk: what goes on with everything is at every node met. -/
theorem walk_induction {P : Node → Prop} (step : ∀ n, P n → ∀ m ∈ nextNodes n, P m) :
    ∀ {fuel : Nat} {n m : Node}, n.tree.height ≤ fuel → P n → m ∈ walk n → P m
  | 0, ⟨.node _ _, _⟩, _, h, _, _ => by simp [Tree.height] at h
  | fuel + 1, n, m, h, hn, hm => by
      rw [walk_eq] at hm
      rcases List.mem_cons.1 hm with rfl | hm
      · exact hn
      · obtain ⟨k, hk, hm⟩ := List.mem_flatMap.1 hm
        have hlt := Nat.lt_of_lt_of_le (nextNodes_height_lt hk) h
        exact walk_induction step (Nat.le_of_lt_succ hlt) (step n hn k hk) hm

theorem below_of_mem_walk {n m : Node} (h : m ∈ walk n) : Below n m :=
  walk_induction (fun _ hn _ hm => hn.trans (belowChild_of_mem_nextNodes hm).below)
    (Nat.le_refl _) .refl h

/-! ### The itinerary -/

/-- The declaration and the accessors beside it. -/
def itineraryTops (n : Node) : List Node :=
  n :: if n.kind = "property_declaration" then Kotlin.siblingAccessors n else []

/-- An itinerary visits the nodes of the walks from its tops. -/
theorem map_node_itinerary (n : Node) :
    (itinerary n).map Visit.node = (itineraryTops n).flatMap walk := by
  rw [itinerary, List.map_flatMap]
  rfl

/-- The tops are the node itself and nodes beside it. -/
theorem mem_itineraryTops {n m : Node} (h : m ∈ itineraryTops n) : m = n ∨ m ∈ n.following := by
  rcases List.mem_cons.1 h with rfl | h
  · exact .inl rfl
  · split at h
    · exact .inr ((List.takeWhile_sublist _).subset h)
    · cases h

theorem within_of_mem_itineraryTops {t : Tree} {n m : Node} (hn : Within t n)
    (h : m ∈ itineraryTops n) : Within t m := by
  rcases mem_itineraryTops h with rfl | h
  · exact hn
  · exact hn.following h

/-- **The itinerary of a place of a tree visits places of the tree.** -/
theorem within_of_mem_itinerary {t : Tree} {n : Node} {v : Visit} (hn : Within t n)
    (h : v ∈ itinerary n) : Within t v.node := by
  have hv : v.node ∈ (itineraryTops n).flatMap walk := by
    rw [← map_node_itinerary]
    exact List.mem_map.2 ⟨v, h, rfl⟩
  obtain ⟨m, hm, hv⟩ := List.mem_flatMap.1 hv
  exact (below_of_mem_walk hv).within (within_of_mem_itineraryTops hn hm)

end Crossref.Usage
