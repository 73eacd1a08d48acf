import Crossref.Proofs.Resolve.Sources
import Crossref.Session

/-!
# Proofs — resolution — where the answers of a session come from

A session over an index answers with indexed symbols and with local bindings of its file.  Members
and qualified names are indexed; extensions are looked up like names, at the node that is asked
about, so a local function may be one of them.  What a call, an operator or a delegate leads to is
chosen among such symbols.

* `foundOn_operatorTarget`: what an operator calls is a function found on an operand's type.
* `cases_of_callTarget`, `cases_of_called`: among what the target of a call is chosen.
* `sourced_called`, `sourced_referenced`: what a node calls and what it refers to.
* `sourced_ofIndex`: every answer of a session over an index.
-/

namespace Crossref

open Resolve (Call)

/-- Every symbol that the session answers with about a place of the tree has the property. -/
structure Session.Satisfy {σ : Type} (session : Session σ) (t : Tree) (P : Symbol → Prop) :
    Prop where
  reference : ∀ {n : Node} {s : σ} {symbols : List Symbol}, Node.Within t n →
    (session.reference n s).1 = .ok symbols → ∀ x ∈ symbols, P x
  call : ∀ {n : Node} {s : σ} {c : Call}, Node.Within t n →
    (session.call n s).1 = .ok (some c) → P c.symbol
  type : ∀ {n : Node} {s : σ} {x : Symbol}, Node.Within t n →
    (session.type n s).1 = .ok (some x) → P x
  delegate : ∀ {n : Node} {s : σ} {calls : List Call}, Node.Within t n →
    (session.delegate n s).1 = .ok calls → ∀ c ∈ calls, P c.symbol

namespace Resolve
open Node

/-! ### Operators -/

section Operators

variable {index : Index} {ls : Levels} {f : SourceFile} {n : Node} {c : Call}

/-- The call is of a function that is found on the type of an operand; it goes to a receiver
exactly when the function is an extension. -/
def FoundOn (index : Index) (ls : Levels) (f : SourceFile) (n : Node) (c : Call) : Prop :=
  ∃ t name fits, functionOn? index ls f n t name fits = some c.symbol ∧
    (∀ s, fits s = true → s.kind = .function) ∧ c.extensionReceiver = c.symbol.isExtension

/-- What is found on a type is a function. -/
theorem FoundOn.kind_eq (h : FoundOn index ls f n c) : c.symbol.kind = .function := by
  obtain ⟨t, name, fits, hs, hfits, -⟩ := h
  exact hfits _ (fits_of_functionOn? hs)

theorem FoundOn.extensionReceiver_eq (h : FoundOn index ls f n c) :
    c.extensionReceiver = c.symbol.isExtension := by
  obtain ⟨t, name, fits, -, -, he⟩ := h
  exact he

theorem foundOn_operatorCall {t : ExprType} {name : String}
    (h : operatorCall index ls f n t name = some c) : FoundOn index ls f n c := by
  obtain ⟨s, hs, rfl⟩ := Option.map_eq_some_iff.1 h
  refine ⟨t, name, isOperatorFunction, hs, fun s hs => ?_, rfl⟩
  exact of_decide_eq_true (Bool.and_eq_true_iff.1 hs).1

theorem foundOn_namedInfixCall (h : namedInfixCall index ls f n = some c) :
    FoundOn index ls f n c := by
  obtain ⟨left, -, h⟩ := Option.bind_eq_some_iff.1 h
  obtain ⟨function, -, h⟩ := Option.bind_eq_some_iff.1 h
  obtain ⟨t, -, h⟩ := Option.bind_eq_some_iff.1 h
  obtain ⟨s, hs, rfl⟩ := Option.map_eq_some_iff.1 h
  exact ⟨t, _, _, hs, fun s hs => of_decide_eq_true hs, rfl⟩

theorem foundOn_binaryCall (h : binaryCall index ls f n = some c) :
    FoundOn index ls f n c := by
  obtain ⟨token, -, h⟩ := Option.bind_eq_some_iff.1 h
  obtain ⟨name, -, h⟩ := Option.bind_eq_some_iff.1 h
  obtain ⟨left, -, h⟩ := Option.bind_eq_some_iff.1 h
  obtain ⟨right, -, h⟩ := Option.bind_eq_some_iff.1 h
  obtain ⟨t, -, h⟩ := Option.bind_eq_some_iff.1 h
  exact foundOn_operatorCall h

theorem foundOn_unaryCall (h : unaryCall index ls f n = some c) :
    FoundOn index ls f n c := by
  simp only [unaryCall, Option.bind_eq_bind, Option.bind_none] at h
  obtain ⟨token, -, h⟩ := Option.bind_eq_some_iff.1 h
  obtain ⟨-, h⟩ := Option.ite_none_left_eq_some.1 h
  obtain ⟨name, -, h⟩ := Option.bind_eq_some_iff.1 h
  obtain ⟨operand, -, h⟩ := Option.bind_eq_some_iff.1 h
  obtain ⟨t, -, h⟩ := Option.bind_eq_some_iff.1 h
  exact foundOn_operatorCall h

theorem foundOn_postfixCall (h : postfixCall index ls f n = some c) :
    FoundOn index ls f n c := by
  obtain ⟨token, -, h⟩ := Option.bind_eq_some_iff.1 h
  obtain ⟨name, -, h⟩ := Option.bind_eq_some_iff.1 h
  obtain ⟨operand, -, h⟩ := Option.bind_eq_some_iff.1 h
  obtain ⟨t, -, h⟩ := Option.bind_eq_some_iff.1 h
  exact foundOn_operatorCall h

theorem foundOn_indexingCall (h : indexingCall index ls f n = some c) :
    FoundOn index ls f n c := by
  obtain ⟨receiver, -, h⟩ := Option.bind_eq_some_iff.1 h
  obtain ⟨t, -, h⟩ := Option.bind_eq_some_iff.1 h
  exact foundOn_operatorCall h

theorem foundOn_assignmentCall (h : assignmentCall index ls f n = some c) :
    FoundOn index ls f n c := by
  obtain ⟨target, -, h⟩ := Option.bind_eq_some_iff.1 h
  obtain ⟨token, -, h⟩ := Option.bind_eq_some_iff.1 h
  split at h
  · obtain ⟨suffix, -, h⟩ := Option.bind_eq_some_iff.1 h
    obtain ⟨receiver, -, h⟩ := Option.bind_eq_some_iff.1 h
    obtain ⟨t, -, h⟩ := Option.bind_eq_some_iff.1 h
    exact foundOn_operatorCall h
  · obtain ⟨t, -, h⟩ := Option.bind_eq_some_iff.1 h
    obtain ⟨name, -, h⟩ := Option.bind_eq_some_iff.1 h
    split at h
    · next assigning hassigning =>
      cases h
      exact foundOn_operatorCall hassigning
    · obtain ⟨operator, -, h⟩ := Option.bind_eq_some_iff.1 h
      exact foundOn_operatorCall h

/-- **Whatever an operator leads to is found on the type of an operand.** -/
theorem foundOn_operatorTarget (h : operatorTarget index ls f n = some c) :
    FoundOn index ls f n c := by
  unfold operatorTarget at h
  split at h
  · exact foundOn_namedInfixCall h
  · exact foundOn_unaryCall h
  · exact foundOn_postfixCall h
  · exact foundOn_indexingCall h
  · exact foundOn_assignmentCall h
  · split at h
    · exact foundOn_binaryCall h
    · cases h

/-- So is what a delegate calls, on the levels below. -/
theorem foundOn_of_mem_delegateCalls (h : c ∈ delegateCalls index ls f n) :
    FoundOn index ls.below f n c := by
  unfold delegateCalls at h
  split at h
  · cases h
  · rcases List.mem_append.1 h with h | h
    · exact foundOn_operatorCall (Option.mem_toList.1 h)
    · split at h
      · split at h
        · exact foundOn_operatorCall (Option.mem_toList.1 h)
        · cases h
      · cases h

/-! ### Calls -/

/-- What a call expression calls is chosen among what its callee denotes, as a name or behind a
receiver. -/
theorem cases_of_callTarget (h : callTarget index ls f n = some c) :
    ∃ callee ∈ n.children, ∃ access : Access,
      (access = ⟨ls.top.lookup f (f.textOf callee) callee .callable, false⟩ ∨
        access = accessNavigation index ls.below f callee .callable) ∧
      chooseCallable index ls access.symbols (callArgumentCount n) = some c.symbol ∧
      c.extensionReceiver = (c.symbol.isExtension || access.asExtension) := by
  obtain ⟨callee, hcallee, h⟩ := Option.bind_eq_some_iff.1 h
  have hmem : callee ∈ n.children := (mem_namedChildren_iff.1 (List.mem_of_getElem? hcallee)).1
  have chosen : ∀ access : Access,
      (chooseCallable index ls access.symbols (callArgumentCount n)).bind (fun s =>
        some ⟨s, s.isExtension || access.asExtension⟩) = some c →
      chooseCallable index ls access.symbols (callArgumentCount n) = some c.symbol ∧
        c.extensionReceiver = (c.symbol.isExtension || access.asExtension) := by
    intro access h
    obtain ⟨s, hs, h⟩ := Option.bind_eq_some_iff.1 h
    cases h
    exact ⟨hs, rfl⟩
  split at h
  · exact ⟨callee, hmem, _, .inl rfl, chosen ⟨_, false⟩ h⟩
  · exact ⟨callee, hmem, _, .inr rfl, chosen _ h⟩
  · cases h

/-- What a node calls is the target of a call or of the invocation of a constructor, or a function
that is found on a type. -/
theorem cases_of_called (h : Answers.called index ls f n = some c) :
    callTarget index ls f n = some c ∨ (∃ m, constructorTarget index ls f m = some c) ∨
      FoundOn index ls.below f n c ∨ FoundOn index ls f n c := by
  unfold Answers.called at h
  split at h
  · exact .inl h
  · exact .inr (.inl ⟨n, h⟩)
  · obtain ⟨invocation, -, h⟩ := Option.bind_eq_some_iff.1 h
    exact .inr (.inl ⟨invocation, h⟩)
  · obtain ⟨invocation, -, h⟩ := Option.bind_eq_some_iff.1 h
    exact .inr (.inl ⟨invocation, h⟩)
  · exact .inr (.inr (.inl (foundOn_of_mem_delegateCalls (List.mem_of_head? h))))
  · exact .inr (.inr (.inr (foundOn_operatorTarget h)))

end Operators

section Index

variable {index : Index} (hi : index.Consistent)
include hi

/-! ### Members and extensions -/

/-- A visible extension is indexed or bound locally. -/
theorem sourced_visibleExtensions {ls : Levels} (hls : Levels.Sourced index ls) {f : SourceFile}
    {n : Node} (hn : Within f.tree n) {name : String} {want : Want} {t : ExprType} {s : Symbol}
    (h : s ∈ visibleExtensions index ls f n name want t) : Sourced index f s := by
  obtain ⟨answer, hanswer, hs⟩ := mem_of_mem_firstFound h
  simp only [List.mem_cons, List.not_mem_nil, or_false] at hanswer
  rcases hanswer with rfl | rfl
  · exact hls.top.lookup hn (List.mem_filter.1 hs).1
  · exact .inl (hi.mem_of_findByName (List.mem_filter.1 (mem_of_mem_unambiguous hs)).1)

/-- The members of a type's classifier. -/
theorem mem_of_typeMembers {ls : Levels} {t : ExprType} {name : String} {want : Want} {s : Symbol}
    (h : s ∈ match t.classifier with
      | some c => membersNamed index ls c name want
      | none => []) : s ∈ index.symbols := by
  split at h
  · exact (offered_of_mem_membersNamed hi h).1
  · cases h

/-- So is whatever is found when a member is asked of a receiver. -/
theorem sourced_accessMember {ls : Levels} (hls : Levels.Sourced index ls) {f : SourceFile}
    {receiver n : Node} (hn : Within f.tree n) {name : String} {want : Want} {s : Symbol}
    (h : s ∈ (accessMember index ls f receiver name n want).symbols) : Sourced index f s := by
  simp only [accessMember, Option.bind_eq_bind] at h
  cases ht : ls.top.typeOfExpr f receiver with
  | none =>
      simp only [ht, Option.bind_none] at h
      exact .inl (offered_of_mem_qualified hi h).1
  | some t =>
      simp only [ht, Option.bind_some] at h
      split at h
      · split at h
        · exact .inl (offered_of_mem_qualified hi h).1
        · exact sourced_visibleExtensions hi hls.below hn h
      · exact .inl (mem_of_typeMembers hi h)

theorem sourced_accessNavigation {ls : Levels} (hls : Levels.Sourced index ls) {f : SourceFile}
    {n : Node} (hn : Within f.tree n) {want : Want} {s : Symbol}
    (h : s ∈ (accessNavigation index ls f n want).symbols) : Sourced index f s := by
  unfold accessNavigation at h
  split at h
  · exact sourced_accessMember hi hls hn h
  · cases h

theorem sourced_assignable {ls : Levels} (hls : Levels.Sourced index ls) {f : SourceFile}
    {target : Node} (hn : Within f.tree target) {s : Symbol}
    (h : s ∈ assignable index ls f target) : Sourced index f s := by
  unfold assignable at h
  split at h
  · split at h
    · exact sourced_accessMember hi hls.below hn h
    · cases h
  · split at h
    · cases h
    · split at h
      · next identifier hid => exact hls.top.lookup (hn.child (mem_of_childOfKind? hid).1) h
      · cases h

/-! ### Callees -/

/-- A callee is chosen among the candidates, or is an indexed constructor of one of them. -/
theorem mem_of_chooseCallable {ls : Levels} {candidates : List Symbol} {arguments : Nat}
    {s : Symbol} (h : chooseCallable index ls candidates arguments = some s) :
    s ∈ candidates ∨ s ∈ index.symbols := by
  unfold chooseCallable at h
  split at h
  · dsimp only at h
    split at h
    · exact .inl (List.mem_of_find?_eq_some h)
    · right
      have hs := mem_of_narrow h
      split at hs
      · exact mem_of_mem_constructorsOf hi hs
      · cases hs
  · exact .inl (List.mem_filter.1 (mem_of_narrow h)).1

/-- So is the callee of a call. -/
theorem sourced_callTarget {ls : Levels} (hls : Levels.Sourced index ls) {f : SourceFile}
    {call : Node} (hn : Within f.tree call) {c : Call}
    (h : callTarget index ls f call = some c) : Sourced index f c.symbol := by
  obtain ⟨callee, hmem, access, haccess, hchosen, -⟩ := cases_of_callTarget h
  rcases mem_of_chooseCallable hi hchosen with hs | hs
  · rcases haccess with rfl | rfl
    · exact hls.top.lookup (hn.child hmem) hs
    · exact sourced_accessNavigation hi hls.below (hn.child hmem) hs
  · exact .inl hs

theorem sourced_constructorTarget {ls : Levels} {f : SourceFile} {n : Node} {c : Call}
    (h : constructorTarget index ls f n = some c) : c.symbol ∈ index.symbols := by
  obtain ⟨written, -, h⟩ := Option.bind_eq_some_iff.1 h
  obtain ⟨cls, -, h⟩ := Option.bind_eq_some_iff.1 h
  obtain ⟨s, hs, h⟩ := Option.bind_eq_some_iff.1 h
  cases h
  exact (mem_of_chooseCallable hi hs).elim (mem_of_mem_constructorsOf hi) id

/-- So is a function that is found on a type. -/
theorem FoundOn.sourced {ls : Levels} (hls : Levels.Sourced index ls) {f : SourceFile} {n : Node}
    (hn : Within f.tree n) {c : Call} (h : FoundOn index ls f n c) : Sourced index f c.symbol := by
  obtain ⟨t, name, fits, h, -⟩ := h
  unfold functionOn? at h
  split at h
  · next m hm =>
    obtain rfl := Option.some.inj h
    obtain ⟨d, -, hm⟩ := Option.bind_eq_some_iff.1 hm
    exact .inl (offered_of_mem_membersNamed hi (List.mem_of_find?_eq_some hm)).1
  · exact sourced_visibleExtensions hi hls.below hn (List.mem_of_find?_eq_some h)

/-! ### Answers -/

section Answers

variable {ls : Levels} (hls : Levels.Sourced index ls) {f : SourceFile} {n : Node}
  (hn : Within f.tree n)
include hls hn

/-- **What a node calls is indexed or bound locally.** -/
theorem sourced_called {c : Call} (h : Answers.called index ls f n = some c) :
    Sourced index f c.symbol := by
  rcases cases_of_called h with h | ⟨m, h⟩ | h | h
  · exact sourced_callTarget hi hls hn h
  · exact .inl (sourced_constructorTarget hi h)
  · exact h.sourced hi hls.below hn
  · exact h.sourced hi hls hn

theorem sourced_callableReference {s : Symbol}
    (h : s ∈ Answers.callableReference index ls f n) : Sourced index f s := by
  unfold Answers.callableReference at h
  split at h
  · cases h
  · dsimp only at h
    split at h
    · split at h
      · obtain ⟨answer, hanswer, hs⟩ := mem_of_mem_firstFound h
        simp only [List.mem_cons, List.not_mem_nil, or_false] at hanswer
        rcases hanswer with rfl | rfl
        · exact .inl (offered_of_mem_membersNamed hi hs).1
        · exact sourced_visibleExtensions hi hls.below hn hs
      · cases h
    · exact hls.top.lookup hn h

/-- **What a node refers to is indexed or bound locally.** -/
theorem sourced_referenced {s : Symbol} (h : s ∈ Answers.referenced index ls f n) :
    Sourced index f s := by
  unfold Answers.referenced at h
  split at h
  · exact hls.top.lookup hn h
  · exact hls.top.lookup hn h
  · exact sourced_accessNavigation hi hls.below hn h
  · exact sourced_assignable hi hls.below hn h
  · exact sourced_callableReference hi hls.below hn h
  · cases h

end Answers

omit hi in
/-- An answer that is given is given about a node of the file's text. -/
theorem eq_of_guard_eq_ok {α : Type} {f : SourceFile} {n : Node} {answer : Unit → α} {a : α}
    (h : Answers.guard f n answer = .ok a) : answer () = a := by
  unfold Answers.guard at h
  split at h
  · cases h
  · exact Except.ok.inj h

/-- **Every answer of a session over an index is an indexed symbol or a local binding of its
file.** -/
theorem sourced_ofIndex {σ : Type} (f : SourceFile) (tick : σ → σ) :
    (Session.ofAnswers f (.ofIndex index f) tick).Satisfy f.tree (Sourced index f) := by
  have hls := sourced_levels hi (maxDepth + 1)
  refine ⟨?_, ?_, ?_, ?_⟩
  · intro n s symbols hn h x hx
    simp only [Session.ofAnswers, Answers.ofIndex] at h
    cases hg : Answers.guard f n fun _ => Answers.referenced index (levels index (maxDepth + 1)) f n
      with
    | error e => rw [hg] at h; cases h
    | ok found =>
        rw [hg] at h
        change (match found.find? (Answers.isStale index) with
          | some s => Except.error (SessionError.staleSymbol s.declaration)
          | none => .ok found) = .ok symbols at h
        split at h
        · cases h
        · cases h
          rw [← eq_of_guard_eq_ok hg] at hx
          exact sourced_referenced hi hls hn hx
  · intro n s c hn h
    simp only [Session.ofAnswers, Answers.ofIndex] at h
    exact sourced_called hi hls.below hn (eq_of_guard_eq_ok h)
  · intro n s x hn h
    simp only [Session.ofAnswers, Answers.ofIndex] at h
    obtain ⟨t, -, h⟩ := Option.bind_eq_some_iff.1 (eq_of_guard_eq_ok h)
    exact .inl (hls.top.classifierNamed h).1
  · intro n s calls hn h c hc
    simp only [Session.ofAnswers, Answers.ofIndex] at h
    rw [← eq_of_guard_eq_ok h] at hc
    exact (foundOn_of_mem_delegateCalls hc).sourced hi hls.below.below hn

end Index

end Resolve

end Crossref
