import Crossref.Proofs.Usage.Cancellation
import Crossref.Proofs.Usage.Collected

/-!
# Proofs — usages — answers that are settled

Where the answers of a session are fixed, its state decides nothing but when a run is found
cancelled.  What is recorded at a visit is the same in every state, so all runs over a declaration
that are not cancelled collect the same usages: the first ones recorded along the itinerary that
pass the filter.

* `record_ofAnswers`: what is recorded at a visit does not depend on the state.
* `collect_ofAnswers`: a run collects the settled usages, or finds itself cancelled.
-/

namespace Crossref.Usage

variable {σ : Type}

section Answers

variable (f : SourceFile) (answers : Answers)

/-- An assignment records the same whatever state the questions move through. -/
theorem recordAssignment_ofAnswers (tick : σ → σ) (n : Node) (inDelegate : Bool) (s : σ) :
    (recordAssignment (.ofAnswers f answers tick) n inDelegate s).1 =
      (recordAssignment (.ofAnswers f answers id) n inDelegate ()).1 := by
  unfold recordAssignment
  cases assignmentTarget? n with
  | none => rfl
  | some target =>
      have hplain {τ : Type} (tick : τ → τ) : isPlainAssignment
          (Session.ofAnswers f answers tick).file n = isPlainAssignment f n := rfl
      simp only [hplain]
      cases isIndexed target <;> cases isPlainAssignment f n <;> rfl

theorem recordSpecifier_ofAnswers (tick : σ → σ) (n : Node) (s : σ) :
    (recordSpecifier (.ofAnswers f answers tick) n s).1 =
      (recordSpecifier (.ofAnswers f answers id) n ()).1 := by
  unfold recordSpecifier
  cases n.hasChildOfKind "constructor_invocation" <;> rfl

theorem recordAnnotationEntry_ofAnswers (tick : σ → σ) (n : Node) (s : σ) :
    (recordAnnotationEntry (.ofAnswers f answers tick) n s).1 =
      (recordAnnotationEntry (.ofAnswers f answers id) n ()).1 := by
  unfold recordAnnotationEntry
  cases (annotationArguments? n).isSome <;> rfl

/-- **What is recorded at a visit does not depend on the state**, nor on how questions move it. -/
theorem record_ofAnswers (tick : σ → σ) (v : Visit) (s : σ) :
    (record (.ofAnswers f answers tick) v s).1 = (record (.ofAnswers f answers id) v ()).1 := by
  unfold record
  cases Construct.ofNode v.node with
  | call => rfl
  | navigation => rfl
  | identifier =>
      have hposition {τ : Type} (tick : τ → τ) : isReferencePosition
          (Session.ofAnswers f answers tick).file.text v.node =
            isReferencePosition f.text v.node := rfl
      simp only [hposition]
      cases isReferencePosition f.text v.node <;> rfl
  | assignment => exact recordAssignment_ofAnswers f answers tick v.node v.inDelegate s
  | operator => rfl
  | userType => rfl
  | delegationSpecifier => exact recordSpecifier_ofAnswers f answers tick v.node s
  | annotationEntry => exact recordAnnotationEntry_ofAnswers f answers tick v.node s
  | propertyDelegate => rfl
  | callableReference => rfl
  | other => rfl

/-- So do all visits, one after the other. -/
theorem recordedAlong_ofAnswers (tick : σ → σ) :
    ∀ (vs : List Visit) (s : σ), recordedAlong (.ofAnswers f answers tick) vs s =
      recordedAlong (.ofAnswers f answers id) vs ()
  | [], _ => rfl
  | v :: vs, s => by
      rw [recordedAlong_cons, recordedAlong_cons, record_ofAnswers, recordedAlong_ofAnswers]

/-- The usages in the declaration at a node, for answers that are fixed. -/
def settled (l : Limits) (n : Node) : List Usage :=
  ((recordedAlong (.ofAnswers f answers id) (itinerary n) ()).filter l.keeps).take l.cap

/-- **A run over fixed answers collects the settled usages, or finds itself cancelled.** -/
theorem collect_ofAnswers (l : Limits) (w : Watch σ) (tick : σ → σ) (n : Node) (s : σ) :
    (collect (.ofAnswers f answers tick) l w n s).1 = .ok (settled f answers l n) ∨
      (collect (.ofAnswers f answers tick) l w n s).1 = .error .cancelled ∧
        ∃ s', w.cancelled s' = true := by
  unfold collect
  split
  · next hs => exact .inr ⟨rfl, s, hs⟩
  · split
    · next s' hrun =>
      rcases run_eq_handled (.ofAnswers f answers tick) l w (itinerary n) 0 [] s with h | ⟨-, h⟩
      · rw [h] at hrun
        cases hrun
      · exact .inr ⟨rfl, _, h⟩
    · next kept s' hrun =>
      by_cases hs' : w.cancelled s' = true
      · rw [if_pos hs']
        exact .inr ⟨rfl, s', hs'⟩
      · rw [if_neg hs']
        refine .inl (congrArg Except.ok ?_)
        rw [eq_extend_of_run (congrArg Prod.fst hrun), recordedAlong_ofAnswers, extend,
          List.nil_append, List.length_nil, Nat.sub_zero]
        rfl

end Answers

end Crossref.Usage
