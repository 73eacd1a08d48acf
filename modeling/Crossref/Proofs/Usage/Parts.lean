import Crossref.Usage.Record

/-!
# Proofs — usages — the parts of what a visit records

What is recorded at a visit is put together from parts, one for each question, and `Part` says which
there are: one case for each question that a sort of construct asks.  A property of lists that is
kept when lists are put together holds of all that is recorded once it holds of the parts.

* `Construct.ofKind_of_mem_kinds`, `Construct.mem_kinds_ofKind`: the kinds of nodes that write a
  sort of construct.
* `record_of_parts`: what is recorded at a visit are its parts, put together.
-/

namespace Crossref.Usage

/-! ### The kinds of nodes of a construct -/

/-- The kinds of nodes that write a sort of construct. -/
def Construct.kinds : Construct → List String
  | .call => ["call_expression"]
  | .navigation => ["navigation_expression"]
  | .identifier => ["simple_identifier", "interpolated_identifier"]
  | .assignment => ["assignment"]
  | .operator => ["prefix_expression", "postfix_expression", "indexing_expression"]
      ++ Resolve.binaryKinds
  | .userType => ["user_type"]
  | .delegationSpecifier => ["delegation_specifier"]
  | .annotationEntry => ["annotation"]
  | .propertyDelegate => ["property_delegate"]
  | .callableReference => ["callable_reference"]
  | .other => []

/-- A node of such a kind writes that sort of construct. -/
theorem Construct.ofKind_of_mem_kinds (c : Construct) : ∀ kind ∈ c.kinds, ofKind kind = c := by
  cases c <;> decide

/-- Every kind of node that writes a construct is listed with it. -/
theorem Construct.mem_kinds_ofKind {kind : String} (h : ofKind kind ≠ .other) :
    kind ∈ (ofKind kind).kinds := by
  unfold ofKind at h ⊢
  split
  case h_14 =>
    split
    · next hb => exact List.mem_append_right _ (List.contains_iff_mem.1 hb)
    · next hb => simp_all
  all_goals decide

theorem Construct.mem_kinds_ofNode {n : Node} (h : ofNode n ≠ .other) :
    n.kind ∈ (ofNode n).kinds :=
  mem_kinds_ofKind h

/-! ### The parts of a visit -/

variable {σ : Type}

/-- What one question of a visit leads to; an assignment refers to its target and is called
itself. -/
inductive Part (session : Session σ) (v : Visit) : List Usage → Prop where
  | reference (hc : Construct.ofNode v.node ∈
      [Construct.navigation, .identifier, .callableReference]) (s : σ) :
      Part session v (recordReference session v.node false s).1
  | target {target : Node} (hc : Construct.ofNode v.node = .assignment)
      (ht : assignmentTarget? v.node = some target) (s : σ) :
      Part session v (recordReference session target true s).1
  | call (hc : Construct.ofNode v.node ∈ [Construct.call, .operator, .assignment]) (s : σ) :
      Part session v (recordCall session v.node v.inDelegate s).1
  | type (hc : Construct.ofNode v.node = .userType) (s : σ) :
      Part session v (recordType session v.node .typeReference s).1
  | supertype (hc : Construct.ofNode v.node = .delegationSpecifier) (s : σ) :
      Part session v (recordType session v.node .supertype s).1
  | annotationUse (hc : Construct.ofNode v.node = .annotationEntry) (s : σ) :
      Part session v (recordType session v.node .annotationUse s).1
  | construction (hc : Construct.ofNode v.node ∈
      [Construct.delegationSpecifier, .annotationEntry]) (s : σ) :
      Part session v (recordCall session v.node false s).1
  | delegate (hc : Construct.ofNode v.node = .propertyDelegate) (s : σ) :
      Part session v (recordDelegate session v.node s).1

section Record

variable {session : Session σ} {v : Visit} {P : List Usage → Prop}
  (nil : P []) (append : ∀ us vs, P us → P vs → P (us ++ vs))
  (part : ∀ us, Part session v us → P us)
include nil append part

/-- An assignment records the reference to its target, the call, or both. -/
theorem recordAssignment_of_parts (hc : Construct.ofNode v.node = .assignment) (s : σ) :
    P (recordAssignment session v.node v.inDelegate s).1 := by
  unfold recordAssignment
  cases ht : assignmentTarget? v.node with
  | none => exact nil
  | some target =>
      have hcall : ∀ s, P (recordCall session v.node v.inDelegate s).1 :=
        fun s => part _ (.call (by simp [hc]) s)
      dsimp only
      cases isIndexed target with
      | true => exact append [] _ nil (hcall s)
      | false =>
          have htarget := part _ (.target hc ht s)
          cases isPlainAssignment session.file v.node with
          | true => exact append _ [] htarget nil
          | false => exact append _ _ htarget (hcall _)

/-- **What is recorded at a visit are its parts**, put together. -/
theorem record_of_parts (s : σ) : P (record session v s).1 := by
  have typeThenCall : ∀ (kind : Kind) (asks : Bool),
      (∀ s, P (recordType session v.node kind s).1) →
      (∀ s, P (recordCall session v.node false s).1) →
      P ((do
          let types ← recordType session v.node kind
          let calls ← if asks then recordCall session v.node false else pure []
          return types ++ calls : StateM σ (List Usage)) s).1 := by
    intro kind asks htype hcall
    cases asks with
    | true => exact append _ _ (htype s) (hcall _)
    | false => exact append _ [] (htype s) nil
  unfold record
  cases hc : Construct.ofNode v.node with
  | call => exact part _ (.call (by simp [hc]) s)
  | navigation => exact part _ (.reference (by simp [hc]) s)
  | identifier =>
      dsimp only
      split
      · exact part _ (.reference (by simp [hc]) s)
      · exact nil
  | assignment => exact recordAssignment_of_parts nil append part hc s
  | operator => exact part _ (.call (by simp [hc]) s)
  | userType => exact part _ (.type hc s)
  | delegationSpecifier =>
      exact typeThenCall .supertype _ (fun s => part _ (.supertype hc s))
        fun s => part _ (.construction (by simp [hc]) s)
  | annotationEntry =>
      exact typeThenCall .annotationUse _ (fun s => part _ (.annotationUse hc s))
        fun s => part _ (.construction (by simp [hc]) s)
  | propertyDelegate => exact part _ (.delegate hc s)
  | callableReference => exact part _ (.reference (by simp [hc]) s)
  | other => exact nil

end Record

end Crossref.Usage
