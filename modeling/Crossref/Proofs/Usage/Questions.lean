import Crossref.Usage.Collect

/-!
# Proofs — usages — the questions of a visit

Which questions a visit asks follows from its node and the text of the file: no answer decides
whether another question is asked.  So the state that a visit leaves behind is found by asking its
questions one after the other.

* `record_state`: a visit moves the state as its questions do.
* `mem_moments_append_iff`: the moments of two lists of questions are those of the one, and then
  those of the other.
-/

namespace Crossref

variable {σ : Type}

/-- What a visit may ask, and about which node. -/
inductive Question where
  | reference (n : Node)
  | call (n : Node)
  | type (n : Node)
  | delegate (n : Node)

/-- The state after a question. -/
def Session.after (session : Session σ) (s : σ) : Question → σ
  | .reference n => (session.reference n s).2
  | .call n => (session.call n s).2
  | .type n => (session.type n s).2
  | .delegate n => (session.delegate n s).2

/-- The states that questions lead through: the one before the first of them, and the one after
each. -/
def Session.moments (session : Session σ) : List Question → σ → List σ
  | [], s => [s]
  | q :: qs, s => s :: session.moments qs (session.after s q)

namespace Session

variable {session : Session σ}

/-- The state before the questions is the first of their moments. -/
theorem start_mem_moments (qs : List Question) (s : σ) : s ∈ session.moments qs s := by
  cases qs <;> exact List.mem_cons_self

/-- The state after them is the last. -/
theorem foldl_mem_moments (qs : List Question) (s : σ) :
    qs.foldl session.after s ∈ session.moments qs s := by
  induction qs generalizing s with
  | nil => exact List.mem_singleton_self s
  | cons q qs ih => exact List.mem_cons_of_mem s (ih (session.after s q))

/-- Two lists of questions lead through the states of the one, and from where it ends through those
of the other. -/
theorem mem_moments_append_iff {qs others : List Question} {s s' : σ} :
    s' ∈ session.moments (qs ++ others) s ↔
      s' ∈ session.moments qs s ∨ s' ∈ session.moments others (qs.foldl session.after s) := by
  induction qs generalizing s with
  | nil =>
      -- the only moment of no question is the first one of the others
      constructor
      · exact .inr
      · rintro (h | h)
        · rw [List.mem_singleton.1 h]
          exact start_mem_moments others s
        · exact h
  | cons q qs ih =>
      simp only [List.cons_append, moments, List.mem_cons, List.foldl_cons, ih, or_assoc]

end Session

namespace Usage

/-! ### The questions of each construct -/

/-- An assignment asks about its target unless the target is indexed, and about a call when the
target is indexed or the assignment augmented. -/
def assignmentQuestions (f : SourceFile) (n : Node) : List Question :=
  match assignmentTarget? n with
  | none => []
  | some target =>
    (if isIndexed target then [] else [.reference target])
      ++ if isIndexed target || !isPlainAssignment f n then [.call n] else []

/-- The questions of a visit, in order. -/
def questions (f : SourceFile) (v : Visit) : List Question :=
  match Construct.ofNode v.node with
  | .call => [.call v.node]
  | .navigation => [.reference v.node]
  | .identifier => if isReferencePosition f.text v.node then [.reference v.node] else []
  | .assignment => assignmentQuestions f v.node
  | .operator => [.call v.node]
  | .userType => [.type v.node]
  | .delegationSpecifier =>
    .type v.node ::
      if v.node.hasChildOfKind "constructor_invocation" then [.call v.node] else []
  | .annotationEntry =>
    .type v.node :: if (annotationArguments? v.node).isSome then [.call v.node] else []
  | .propertyDelegate => [.delegate v.node]
  | .callableReference => [.reference v.node]
  | .other => []

/-- An assignment moves the state as its questions do, indexed or not, plain or not. -/
theorem recordAssignment_state (session : Session σ) (n : Node) (inDelegate : Bool) (s : σ) :
    (recordAssignment session n inDelegate s).2 =
      (assignmentQuestions session.file n).foldl session.after s := by
  unfold recordAssignment assignmentQuestions
  cases assignmentTarget? n with
  | none => rfl
  | some target =>
      dsimp only
      cases isIndexed target <;> cases isPlainAssignment session.file n <;> rfl

theorem recordSpecifier_state (session : Session σ) (n : Node) (s : σ) :
    (recordSpecifier session n s).2 =
      (.type n :: if n.hasChildOfKind "constructor_invocation" then [.call n] else [] :
        List Question).foldl session.after s := by
  unfold recordSpecifier
  cases n.hasChildOfKind "constructor_invocation" <;> rfl

theorem recordAnnotationEntry_state (session : Session σ) (n : Node) (s : σ) :
    (recordAnnotationEntry session n s).2 =
      (.type n :: if (annotationArguments? n).isSome then [.call n] else [] :
        List Question).foldl session.after s := by
  unfold recordAnnotationEntry
  cases (annotationArguments? n).isSome <;> rfl

/-- **A visit moves the state as its questions do**, whatever they are answered. -/
theorem record_state (session : Session σ) (v : Visit) (s : σ) :
    (record session v s).2 = (questions session.file v).foldl session.after s := by
  unfold record questions
  cases Construct.ofNode v.node with
  | call => rfl
  | navigation => rfl
  | identifier =>
      dsimp only
      cases isReferencePosition session.file.text v.node <;> rfl
  | assignment => exact recordAssignment_state session v.node v.inDelegate s
  | operator => rfl
  | userType => rfl
  | delegationSpecifier => exact recordSpecifier_state session v.node s
  | annotationEntry => exact recordAnnotationEntry_state session v.node s
  | propertyDelegate => rfl
  | callableReference => rfl
  | other => rfl

end Usage

end Crossref
