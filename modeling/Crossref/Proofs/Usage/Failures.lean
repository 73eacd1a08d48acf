import Mathlib.Data.Set.Defs
import Crossref.Proofs.Usage.Collected
import Crossref.Proofs.Usage.Questions
import Crossref.Proofs.Usage.Recorded

/-!
# Proofs — usages — questions that fail

A question that fails records nothing, and so does one that is answered with nothing; what else is
asked and recorded depends on no answer.  So a run does not tell an error from an answer without
symbols, and a session that loses some of its answers loses the usages at the nodes of these
questions and no other.  `Omits P` relates a list of usages to the one that it is made from by
leaving out usages with the property `P`.

* `collect_calm`: a run does not tell an error from an answer that says nothing.
* `omits_recordedAlong`: without some answers, only usages at the nodes of these are missing.
* `collect_contains_failures`: errors are contained at the nodes of their questions.
-/

namespace Crossref

variable {σ : Type}

/-- The node that a question is about. -/
def Question.node : Question → Node
  | .reference n => n
  | .call n => n
  | .type n => n
  | .delegate n => n

/-! ### Sessions with other answers -/

namespace Answers

/-- The answers that say nothing. -/
def silent : Answers where
  reference _ := .ok []
  call _ := .ok none
  type _ := .ok none
  delegate _ := .ok []

/-- Nothing but errors. -/
def failing (errors : Question → SessionError) : Answers where
  reference n := .error (errors (.reference n))
  call n := .error (errors (.call n))
  type n := .error (errors (.type n))
  delegate n := .error (errors (.delegate n))

end Answers

namespace Session

/-- The session with other answers to some questions.  These are still put to the session, so that
its state moves as before. -/
def instead (session : Session σ) (lost : Set Question) [DecidablePred (· ∈ lost)]
    (answers : Answers) : Session σ where
  file := session.file
  reference n := fun s =>
    (if .reference n ∈ lost then answers.reference n else (session.reference n s).1,
      (session.reference n s).2)
  call n := fun s =>
    (if .call n ∈ lost then answers.call n else (session.call n s).1, (session.call n s).2)
  type n := fun s =>
    (if .type n ∈ lost then answers.type n else (session.type n s).1, (session.type n s).2)
  delegate n := fun s =>
    (if .delegate n ∈ lost then answers.delegate n else (session.delegate n s).1,
      (session.delegate n s).2)

/-- The answer, or what is said instead of an error. -/
def answerOr {α : Type} (nothing : α) (answer : Except SessionError α) : Except SessionError α :=
  .ok (answer.toOption.getD nothing)

/-- The session that says nothing where it would fail. -/
def calm (session : Session σ) : Session σ where
  file := session.file
  reference n := fun s => (answerOr [] (session.reference n s).1, (session.reference n s).2)
  call n := fun s => (answerOr none (session.call n s).1, (session.call n s).2)
  type n := fun s => (answerOr none (session.type n s).1, (session.type n s).2)
  delegate n := fun s => (answerOr [] (session.delegate n s).1, (session.delegate n s).2)

/-- Errors and answers that say nothing differ only until the session is calm. -/
theorem calm_instead_failing (session : Session σ) (lost : Set Question)
    [DecidablePred (· ∈ lost)] (errors : Question → SessionError) :
    (session.instead lost (.failing errors)).calm = (session.instead lost .silent).calm := by
  have same : ∀ {α : Type} (c : Prop) [Decidable c] (e : SessionError) (nothing : α)
      (answer : Except SessionError α),
      answerOr nothing (if c then .error e else answer) =
        answerOr nothing (if c then .ok nothing else answer) := by
    intro α c _ e nothing answer
    by_cases hc : c
    · rw [if_pos hc, if_pos hc]; rfl
    · rw [if_neg hc, if_neg hc]
  simp only [calm, instead, Answers.failing, Answers.silent, same]

end Session

namespace Usage

/-! ### Errors that count as nothing -/

section Calm

variable (session : Session σ) (n : Node)

theorem recordCall_calm (inDelegate : Bool) :
    recordCall session.calm n inDelegate = recordCall session n inDelegate := by
  funext s
  change (ofCall _ _ (Session.answerOr none (session.call n s).1), _) = (ofCall _ _ _, _)
  cases (session.call n s).1 <;> rfl

theorem recordType_calm (kind : Kind) :
    recordType session.calm n kind = recordType session n kind := by
  funext s
  change (ofType _ _ (Session.answerOr none (session.type n s).1), _) = (ofType _ _ _, _)
  cases (session.type n s).1 <;> rfl

theorem recordReference_calm (isTarget : Bool) :
    recordReference session.calm n isTarget = recordReference session n isTarget := by
  funext s
  change (ofReference _ _ _ (Session.answerOr [] (session.reference n s).1), _) =
    (ofReference _ _ _ _, _)
  cases (session.reference n s).1 <;> rfl

theorem recordDelegate_calm : recordDelegate session.calm n = recordDelegate session n := by
  funext s
  change (ofDelegate _ (Session.answerOr [] (session.delegate n s).1), _) = (ofDelegate _ _, _)
  cases (session.delegate n s).1 <;> rfl

/-- **A visit does not tell an error from an answer that says nothing.** -/
theorem record_calm : record session.calm = record session := by
  funext v
  have hfile : session.calm.file = session.file := rfl
  simp only [record, recordAssignment, recordSpecifier, recordAnnotationEntry, recordCall_calm,
    recordType_calm, recordReference_calm, recordDelegate_calm, hfile]

/-- A run in which errors count as nothing comes to the same. -/
theorem run_calm (l : Limits) (w : Watch σ) (vs : List Visit) (visited : Nat) (kept : List Usage) :
    run session.calm l w vs visited kept = run session l w vs visited kept := by
  induction vs generalizing visited kept with
  | nil => rfl
  | cons v vs ih => simp only [run, record_calm, ih]

/-- **A run does not tell an error from an answer that says nothing.** -/
theorem collect_calm (l : Limits) (w : Watch σ) :
    collect session.calm l w n = collect session l w n := by
  funext s
  rw [collect, collect, run_calm]

end Calm

/-! ### Leaving out usages -/

/-- The first list is the second one without some usages that have the property. -/
inductive Omits (P : Usage → Prop) : List Usage → List Usage → Prop where
  | nil : Omits P [] []
  | keep (u : Usage) {us vs : List Usage} (h : Omits P us vs) : Omits P (u :: us) (u :: vs)
  | drop {u : Usage} {us vs : List Usage} (hu : P u) (h : Omits P us vs) : Omits P us (u :: vs)

namespace Omits

variable {P : Usage → Prop} {us vs : List Usage}

theorem refl : ∀ us : List Usage, Omits P us us
  | [] => .nil
  | u :: us => .keep u (refl us)

/-- All usages may be left out if all have the property. -/
theorem of_forall : ∀ {vs : List Usage}, (∀ v ∈ vs, P v) → Omits P [] vs
  | [], _ => .nil
  | v :: _, h =>
    .drop (h v List.mem_cons_self) (of_forall fun u hu => h u (List.mem_cons_of_mem v hu))

/-- Two lists may each leave something out. -/
theorem append {us' vs' : List Usage} (h : Omits P us vs) (h' : Omits P us' vs') :
    Omits P (us ++ us') (vs ++ vs') := by
  induction h with
  | nil => exact h'
  | keep u _ ih => exact .keep u ih
  | drop hu _ ih => exact .drop hu ih

/-- What is left out of a list is left out of every choice from it. -/
theorem filter (h : Omits P us vs) (keeps : Usage → Bool) :
    Omits P (us.filter keeps) (vs.filter keeps) := by
  induction h with
  | nil => exact .nil
  | keep u _ ih =>
      by_cases hk : keeps u = true
      · rw [List.filter_cons_of_pos hk, List.filter_cons_of_pos hk]
        exact .keep u ih
      · rw [List.filter_cons_of_neg hk, List.filter_cons_of_neg hk]
        exact ih
  | @drop u _ _ hu _ ih =>
      by_cases hk : keeps u = true
      · rw [List.filter_cons_of_pos hk]
        exact .drop hu ih
      · rw [List.filter_cons_of_neg hk]
        exact ih

/-- What is left after some are left out is in the same order. -/
theorem sublist (h : Omits P us vs) : us.Sublist vs := by
  induction h with
  | nil => exact .slnil
  | keep u _ ih => exact ih.cons_cons u
  | drop _ _ ih => exact ih.cons _

/-- A usage without the property is left as often as it was. -/
theorem count_eq (h : Omits P us vs) {u : Usage} (hu : ¬ P u) : us.count u = vs.count u := by
  induction h with
  | nil => rfl
  | keep v _ ih => rw [List.count_cons, List.count_cons, ih]
  | @drop v _ _ hv _ ih =>
      have hne : v ≠ u := fun e => hu (e ▸ hv)
      rw [List.count_cons_of_ne hne, ih]

end Omits

/-! ### Questions without an answer -/

/-- The usage stands at the span of a node that one of the questions is about. -/
def AtNodeOf (lost : Set Question) (u : Usage) : Prop :=
  ∃ q ∈ lost, u.site.start = q.node.start ∧ u.site.stop = q.node.stop

/-- A use at the node of a question is one that the question may lose. -/
theorem atNodeOf_of_site {lost : Set Question} {q : Question} (hq : q ∈ lost) {f : SourceFile}
    {u : Usage} (hu : u.site = .ofNode f q.node) : AtNodeOf lost u :=
  ⟨q, hq, by rw [hu]; rfl, by rw [hu]; rfl⟩

theorem site_of_mem_ofCall {site : Site} {inDelegate : Bool}
    {answer : Except SessionError (Option Resolve.Call)} {u : Usage}
    (h : u ∈ ofCall site inDelegate answer) : u.site = site := by
  unfold ofCall at h
  split at h
  · exact (mem_paired h).2
  · cases h

theorem site_of_mem_ofType {site : Site} {kind : Kind}
    {answer : Except SessionError (Option Symbol)} {u : Usage} (h : u ∈ ofType site kind answer) :
    u.site = site := by
  unfold ofType at h
  split at h
  · rw [List.mem_singleton.1 h]
  · cases h

theorem site_of_mem_ofDelegate {site : Site} {answer : Except SessionError (List Resolve.Call)}
    {u : Usage} (h : u ∈ ofDelegate site answer) : u.site = site := by
  unfold ofDelegate at h
  split at h
  · obtain ⟨c, -, h⟩ := List.mem_flatMap.1 h
    exact (mem_paired h).2
  · cases h

theorem site_of_mem_ofReference {f : SourceFile} {n : Node} {isTarget : Bool}
    {answer : Except SessionError (List Symbol)} {u : Usage}
    (h : u ∈ ofReference f n isTarget answer) : u.site = .ofNode f n := by
  unfold ofReference at h
  split at h
  · split at h
    · exact (mem_paired h).2
    · cases h
  · cases h

section Lost

variable (session : Session σ) (lost : Set Question) [DecidablePred (· ∈ lost)]

/-- The session that says nothing to the lost questions moves its state as before. -/
theorem after_instead (answers : Answers) (s : σ) (q : Question) :
    (session.instead lost answers).after s q = session.after s q := by
  cases q <;> rfl

/-- What one question records is left out if the question is lost. -/
theorem omits_of_ite {α : Type} {q : Question} {f : SourceFile} (read : α → List Usage)
    {nothing answer : α} (hnothing : read nothing = [])
    (hsite : ∀ u ∈ read answer, u.site = .ofNode f q.node) :
    Omits (AtNodeOf lost) (read (if q ∈ lost then nothing else answer)) (read answer) := by
  by_cases hq : q ∈ lost
  · rw [if_pos hq, hnothing]
    exact .of_forall fun u hu => atNodeOf_of_site hq (hsite u hu)
  · rw [if_neg hq]
    exact .refl _

variable (n : Node) (s : σ)

/-- Of a call whose question has no answer the call itself is all that may be left out. -/
theorem omits_recordCall (inDelegate : Bool) :
    Omits (AtNodeOf lost) (recordCall (session.instead lost .silent) n inDelegate s).1
      (recordCall session n inDelegate s).1 :=
  omits_of_ite lost (q := .call n) (ofCall (.ofNode session.file n) inDelegate) rfl
    fun _ => site_of_mem_ofCall

theorem omits_recordType (kind : Kind) :
    Omits (AtNodeOf lost) (recordType (session.instead lost .silent) n kind s).1
      (recordType session n kind s).1 :=
  omits_of_ite lost (q := .type n) (ofType (.ofNode session.file n) kind) rfl
    fun _ => site_of_mem_ofType

theorem omits_recordReference (isTarget : Bool) :
    Omits (AtNodeOf lost) (recordReference (session.instead lost .silent) n isTarget s).1
      (recordReference session n isTarget s).1 :=
  omits_of_ite lost (q := .reference n) (ofReference session.file n isTarget) rfl
    fun _ => site_of_mem_ofReference

theorem omits_recordDelegate :
    Omits (AtNodeOf lost) (recordDelegate (session.instead lost .silent) n s).1
      (recordDelegate session n s).1 :=
  omits_of_ite lost (q := .delegate n) (ofDelegate (.ofNode session.file n)) rfl
    fun _ => site_of_mem_ofDelegate

/-- An assignment asks at its target and at itself, and may lose either answer. -/
theorem omits_recordAssignment (inDelegate : Bool) :
    Omits (AtNodeOf lost) (recordAssignment (session.instead lost .silent) n inDelegate s).1
      (recordAssignment session n inDelegate s).1 := by
  unfold recordAssignment
  cases ht : assignmentTarget? n with
  | none => exact .nil
  | some target =>
      have hrefs := omits_recordReference session lost target s true
      have hfile : (session.instead lost .silent).file = session.file := rfl
      dsimp only
      rw [hfile]
      -- which questions are asked depends on the target and on the sign alone
      cases isIndexed target with
      | true => exact omits_recordCall session lost n s inDelegate
      | false =>
          cases isPlainAssignment session.file n with
          | true => exact hrefs.append .nil
          | false => exact hrefs.append (omits_recordCall session lost n _ inDelegate)

/-- The questions of a node whose type is asked for first, and then what it calls. -/
theorem omits_typeThenCall (kind : Kind) (asks : Bool) :
    Omits (AtNodeOf lost)
      ((do
          let types ← recordType (session.instead lost .silent) n kind
          let calls ←
            if asks then recordCall (session.instead lost .silent) n false else pure []
          return types ++ calls : StateM σ (List Usage)) s).1
      ((do
          let types ← recordType session n kind
          let calls ← if asks then recordCall session n false else pure []
          return types ++ calls : StateM σ (List Usage)) s).1 := by
  have htypes := omits_recordType session lost n s kind
  cases asks with
  | true => exact htypes.append (omits_recordCall session lost n _ false)
  | false => exact htypes.append .nil

/-- **What a visit records without some answers** is what it records with them, but for usages at
the nodes of these questions. -/
theorem omits_record (v : Visit) :
    Omits (AtNodeOf lost) (record (session.instead lost .silent) v s).1 (record session v s).1 := by
  have hfile : (session.instead lost .silent).file = session.file := rfl
  unfold record
  cases Construct.ofNode v.node with
  | call => exact omits_recordCall session lost v.node s v.inDelegate
  | navigation => exact omits_recordReference session lost v.node s false
  | identifier =>
      dsimp only
      rw [hfile]
      cases isReferencePosition session.file.text v.node with
      | true => exact omits_recordReference session lost v.node s false
      | false => exact .nil
  | assignment => exact omits_recordAssignment session lost v.node s v.inDelegate
  | operator => exact omits_recordCall session lost v.node s v.inDelegate
  | userType => exact omits_recordType session lost v.node s .typeReference
  | delegationSpecifier => exact omits_typeThenCall session lost v.node s .supertype _
  | annotationEntry => exact omits_typeThenCall session lost v.node s .annotationUse _
  | propertyDelegate => exact omits_recordDelegate session lost v.node s
  | callableReference => exact omits_recordReference session lost v.node s false
  | other => exact .nil

/-- The state that a visit leaves behind is the same without some answers. -/
theorem record_instead_state (answers : Answers) (v : Visit) :
    (record (session.instead lost answers) v s).2 = (record session v s).2 := by
  have hafter : (session.instead lost answers).after = session.after :=
    funext₂ (after_instead session lost answers)
  rw [record_state, record_state, hafter]
  rfl

/-- **Without some answers, only usages at the nodes of these are missing**: by induction along the
visits, which are the same ones. -/
theorem omits_recordedAlong (vs : List Visit) :
    Omits (AtNodeOf lost) (recordedAlong (session.instead lost .silent) vs s)
      (recordedAlong session vs s) := by
  induction vs generalizing s with
  | nil => exact .nil
  | cons v vs ih =>
      rw [recordedAlong_cons, recordedAlong_cons, record_instead_state]
      exact (omits_record session lost s v).append (ih _)

end Lost

/-! ### Errors in a run -/

/-- **Errors are contained at the nodes of their questions**, whatever the session answers and
however its state moves.  A session that fails on some questions is collected with like one that
answers them with nothing; without cancellation the run is never an error; and uncapped it gives
what the session gives without the errors, but for usages at the spans of the nodes of these
questions. -/
theorem collect_contains_failures (session : Session σ) (lost : Set Question)
    [DecidablePred (· ∈ lost)] (errors : Question → SessionError) (n : Node) (s : σ) :
    (∀ (l : Limits) (w : Watch σ),
      collect (session.instead lost (.failing errors)) l w n s =
        collect (session.instead lost .silent) l w n s) ∧
    ∀ interval : Nat,
      (∀ l : Limits, ∃ usages,
        (collect (session.instead lost (.failing errors)) l (.never interval) n s).1 =
          .ok usages) ∧
      ∀ keepLocalReads : Bool, ∃ all left : List Usage,
        (∀ cap, all.length ≤ cap →
          (collect session ⟨cap, keepLocalReads⟩ (.never interval) n s).1 = .ok all ∧
          (collect (session.instead lost (.failing errors)) ⟨cap, keepLocalReads⟩
            (.never interval) n s).1 = .ok left) ∧
        left.Sublist all ∧
        ∀ u : Usage,
          (∀ q ∈ lost, (u.site.start, u.site.stop) ≠ (q.node.start, q.node.stop)) →
            left.count u = all.count u := by
  have hsame : ∀ (l : Limits) (w : Watch σ),
      collect (session.instead lost (.failing errors)) l w n s =
        collect (session.instead lost .silent) l w n s := fun l w => by
    rw [← collect_calm, Session.calm_instead_failing, collect_calm]
  refine ⟨hsame, fun interval => ⟨fun l => ?_, fun keep => ?_⟩⟩
  · exact ⟨_, collect_uncancelled _ l interval n s⟩
  · have homits := (omits_recordedAlong session lost s (itinerary n)).filter
      (fun u => keep || !u.isLowSignal)
    refine ⟨_, _, fun cap hcap => ⟨?_, ?_⟩, homits.sublist, fun u hu => homits.count_eq ?_⟩
    · rw [collect_uncancelled]
      exact congrArg Except.ok (List.take_of_length_le hcap)
    · rw [hsame, collect_uncancelled]
      exact congrArg Except.ok
        (List.take_of_length_le (Nat.le_trans homits.sublist.length_le hcap))
    · rintro ⟨q, hq, hstart, hstop⟩
      exact hu q hq (Prod.ext hstart hstop)

end Usage

end Crossref
