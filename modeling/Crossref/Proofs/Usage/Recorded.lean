import Crossref.Proofs.Resolve.Answers
import Crossref.Proofs.Usage.Collected
import Crossref.Proofs.Usage.Walk

/-!
# Proofs — usages — what a visit records

Each question of a visit is about one node, and what its answer leads to is recorded at that node:
the node visited, or the target of the assignment visited.  `siteStarts` lists where these nodes
start, in the order of the questions, and `Follows` says of a list of usages that it goes along such
a list of starts, any number of usages at each, and of the symbols that they have a property.

* `follows_record`: what is recorded at a visit goes along its starts, with symbols of the answers.
* `Follows.pairwise`: usages that go along starts in ascending order are in order.
-/

namespace Crossref.Usage
open Node

/-! ### Going along a list of starts -/

/-- The usages stand at the given bytes, in their order, and their symbols have the property. -/
inductive Follows (P : Symbol → Prop) : List Nat → List Usage → Prop where
  | nil : Follows P [] []
  | skip {a : Nat} {starts : List Nat} {us : List Usage} (h : Follows P starts us) :
      Follows P (a :: starts) us
  | keep {starts : List Nat} {u : Usage} {us : List Usage} (hu : P u.symbol)
      (h : Follows P (u.site.start :: starts) us) : Follows P (u.site.start :: starts) (u :: us)

namespace Follows

variable {P : Symbol → Prop} {starts : List Nat} {us : List Usage}

theorem of_nil (P : Symbol → Prop) : ∀ starts : List Nat, Follows P starts []
  | [] => .nil
  | _ :: starts => .skip (of_nil P starts)

/-- Usages at one byte. -/
theorem of_forall {a : Nat} :
    ∀ {us : List Usage}, (∀ u ∈ us, u.site.start = a ∧ P u.symbol) → Follows P [a] us
  | [], _ => of_nil P [a]
  | u :: us, h => by
      obtain ⟨rfl, hu⟩ := h u List.mem_cons_self
      exact .keep hu (of_forall fun v hv => h v (List.mem_cons_of_mem u hv))

/-- Uses that follow one list of starts and then another follow both. -/
theorem append {others : List Nat} {vs : List Usage} (h : Follows P starts us)
    (h' : Follows P others vs) : Follows P (starts ++ others) (us ++ vs) := by
  induction h with
  | nil => exact h'
  | skip _ ih => exact .skip ih
  | keep hu _ ih => exact .keep hu ih

/-- What holds of all answers holds of all symbols that are used. -/
theorem symbol (h : Follows P starts us) : ∀ u ∈ us, P u.symbol := by
  induction h with
  | nil => simp
  | skip _ ih => exact ih
  | keep hu _ ih =>
      intro v hv
      rcases List.mem_cons.1 hv with rfl | hv
      · exact hu
      · exact ih v hv

/-- Every use begins at one of the starts. -/
theorem start_mem (h : Follows P starts us) : ∀ u ∈ us, u.site.start ∈ starts := by
  induction h with
  | nil => simp
  | skip _ ih => exact fun u hu => List.mem_cons_of_mem _ (ih u hu)
  | keep _ _ ih =>
      intro v hv
      rcases List.mem_cons.1 hv with rfl | hv
      · exact List.mem_cons_self
      · exact ih v hv

/-- **Usages that go along starts in ascending order are in order.** -/
theorem pairwise (h : Follows P starts us) (hs : starts.Pairwise (· ≤ ·)) :
    us.Pairwise fun u v => u.site.start ≤ v.site.start := by
  induction h with
  | nil => exact .nil
  | skip _ ih => exact ih (List.pairwise_cons.1 hs).2
  | keep _ h ih =>
      refine List.pairwise_cons.2 ⟨fun v hv => ?_, ih hs⟩
      rcases List.mem_cons.1 (h.start_mem v hv) with hv | hv
      · exact Nat.le_of_eq hv.symm
      · exact (List.pairwise_cons.1 hs).1 _ hv

end Follows

/-! ### From answers to usages -/

/-- What is recorded of an answer is about its symbol, and stands at its node. -/
theorem mem_paired {s : Symbol} {kind : Kind} {site : Site} {extension : Bool} {u : Usage}
    (h : u ∈ paired s kind site extension) : u.symbol = s ∧ u.site = site := by
  rcases List.mem_cons.1 h with rfl | h
  · exact ⟨rfl, rfl⟩
  · split at h
    · obtain rfl := List.mem_singleton.1 h
      exact ⟨rfl, rfl⟩
    · cases h

section Answers

variable {σ : Type} {session : Session σ} {t : Tree} {P : Symbol → Prop}
  (hsat : session.Satisfy t P) {n : Node} (hn : Within t n)
include hsat hn

/-- A call is recorded at the start of its node. -/
theorem follows_recordCall (inDelegate : Bool) (s : σ) :
    Follows P [n.start] (recordCall session n inDelegate s).1 := by
  refine .of_forall fun u hu => ?_
  change u ∈ ofCall _ _ (session.call n s).1 at hu
  unfold ofCall at hu
  split at hu
  · next c hc =>
    obtain ⟨hs, hsite⟩ := mem_paired hu
    exact ⟨by rw [hsite]; rfl, hs ▸ hsat.call hn hc⟩
  · cases hu

theorem follows_recordType (kind : Kind) (s : σ) :
    Follows P [n.start] (recordType session n kind s).1 := by
  refine .of_forall fun u hu => ?_
  change u ∈ ofType _ _ (session.type n s).1 at hu
  unfold ofType at hu
  split at hu
  · next x hx =>
    obtain rfl := List.mem_singleton.1 hu
    exact ⟨rfl, hsat.type hn hx⟩
  · cases hu

theorem follows_recordReference (isTarget : Bool) (s : σ) :
    Follows P [n.start] (recordReference session n isTarget s).1 := by
  refine .of_forall fun u hu => ?_
  change u ∈ ofReference _ _ _ (session.reference n s).1 at hu
  unfold ofReference at hu
  split at hu
  · next x rest hx =>
    split at hu
    · obtain ⟨hs, hsite⟩ := mem_paired hu
      exact ⟨by rw [hsite]; rfl, hs ▸ hsat.reference hn hx x List.mem_cons_self⟩
    · cases hu
  · cases hu

theorem follows_recordDelegate (s : σ) :
    Follows P [n.start] (recordDelegate session n s).1 := by
  refine .of_forall fun u hu => ?_
  change u ∈ ofDelegate _ (session.delegate n s).1 at hu
  unfold ofDelegate at hu
  split at hu
  · next calls hcalls =>
    obtain ⟨c, hc, hu⟩ := List.mem_flatMap.1 hu
    obtain ⟨hs, hsite⟩ := mem_paired hu
    exact ⟨by rw [hsite]; rfl, hs ▸ hsat.delegate hn hcalls c hc⟩
  · cases hu

end Answers

/-! ### Where a visit records -/

/-- Where an assignment to the target records: at the target that is referred to, and at the
assignment that calls a function. -/
def assignmentStarts (f : SourceFile) (n target : Node) : List Nat :=
  (if isIndexed target then [] else [target.start])
    ++ if isIndexed target || !isPlainAssignment f n then [n.start] else []

/-- The starts of the nodes at which a visit records, in the order of its questions. -/
def siteStarts (f : SourceFile) (n : Node) : List Nat :=
  match Construct.ofNode n with
  | .identifier => if isReferencePosition f.text n then [n.start] else []
  | .assignment =>
    match assignmentTarget? n with
    | some target => assignmentStarts f n target
    | none => []
  | .other => []
  | _ => [n.start]

section Record

variable {σ : Type} {session : Session σ} {t : Tree} {P : Symbol → Prop}
  (hsat : session.Satisfy t P)
include hsat

/-- An assignment is recorded where its target begins, where it begins itself, or at both. -/
theorem follows_recordAssignment {n target : Node} (hn : Within t n)
    (ht : assignmentTarget? n = some target) (inDelegate : Bool) (s : σ) :
    Follows P (assignmentStarts session.file n target)
      (recordAssignment session n inDelegate s).1 := by
  have htw : Within t target := .child hn (mem_of_childOfKind? ht).1
  have hrefs := follows_recordReference hsat htw true s
  unfold recordAssignment assignmentStarts
  rw [ht]
  cases hi : isIndexed target with
  | true =>
      simp only [hi, Bool.true_or, if_true]
      exact follows_recordCall hsat hn inDelegate s
  | false =>
      cases hp : isPlainAssignment session.file n with
      | true =>
          simp only [hi, Bool.not_true, Bool.or_false, Bool.false_eq_true, if_false]
          exact hrefs.append .nil
      | false =>
          simp only [hi, Bool.not_false, Bool.or_true, Bool.false_eq_true, if_false, if_true]
          exact hrefs.append (follows_recordCall hsat hn inDelegate _)

/-- The questions of a node whose type is asked for first, and then what it calls. -/
theorem follows_typeThenCall {n : Node} (hn : Within t n) (kind : Kind) (asks : Bool) (s : σ) :
    Follows P [n.start]
      ((do
          let types ← recordType session n kind
          let calls ← if asks then recordCall session n false else pure []
          return types ++ calls : StateM σ (List Usage)) s).1 := by
  have htypes := follows_recordType hsat hn kind s
  have hcalls := follows_recordCall hsat hn false (recordType session n kind s).2
  cases asks with
  | true =>
      refine .of_forall fun u hu => ?_
      rcases List.mem_append.1 hu with hu | hu
      · exact ⟨List.mem_singleton.1 (htypes.start_mem u hu), htypes.symbol u hu⟩
      · exact ⟨List.mem_singleton.1 (hcalls.start_mem u hu), hcalls.symbol u hu⟩
  | false => exact htypes.append .nil

/-- **What is recorded at a visit goes along its starts**, with symbols that the session answers
with. -/
theorem follows_record {v : Visit} (hn : Within t v.node) (s : σ) :
    Follows P (siteStarts session.file v.node) (record session v s).1 := by
  unfold record siteStarts
  cases Construct.ofNode v.node with
  | call => exact follows_recordCall hsat hn v.inDelegate s
  | navigation => exact follows_recordReference hsat hn false s
  | identifier =>
      dsimp only
      split
      · exact follows_recordReference hsat hn false s
      · exact .nil
  | assignment =>
      dsimp only
      split
      · next target ht => exact follows_recordAssignment hsat hn ht v.inDelegate s
      · next ht =>
        unfold recordAssignment
        rw [ht]
        exact .nil
  | operator => exact follows_recordCall hsat hn v.inDelegate s
  | userType => exact follows_recordType hsat hn .typeReference s
  | delegationSpecifier => exact follows_typeThenCall hsat hn .supertype _ s
  | annotationEntry => exact follows_typeThenCall hsat hn .annotationUse _ s
  | propertyDelegate => exact follows_recordDelegate hsat hn s
  | callableReference => exact follows_recordReference hsat hn false s
  | other => exact .nil

/-- What is recorded along the visits goes along the starts of all of them. -/
theorem follows_recordedAlong :
    ∀ {vs : List Visit} (s : σ), (∀ v ∈ vs, Within t v.node) →
      Follows P ((vs.map Visit.node).flatMap (siteStarts session.file))
        (recordedAlong session vs s)
  | [], _, _ => .nil
  | v :: vs, s, hvs => by
      rw [recordedAlong_cons, List.map_cons, List.flatMap_cons]
      exact (follows_record hsat (hvs v List.mem_cons_self) s).append
        (follows_recordedAlong _ fun w hw => hvs w (List.mem_cons_of_mem v hw))

end Record

end Crossref.Usage
