import Crossref.Proofs.Index.Reachable
import Crossref.Proofs.Resolve.Answers

/-!
# Proofs — resolution — the sorts of answers

What a session over an index answers is of the sort that was asked for.  A type is a classifier.
What a call, an operator or a delegate calls is a function, a constructor or a variable, and the
answer says that it is called on a receiver exactly when the symbol is an extension: an access that
leads to extensions leads to nothing else, and a class is no extension, so no constructor is called
through one.  Only functions and properties are extensions at all.

* `wellSorted_of_sourced`: every symbol that an answer can lead to is well sorted.
* `sorted_ofIndex`: every answer of a session over an index is of the sort asked for.
-/

namespace Crossref

open Resolve (Call)

/-! ### Sorts of symbols and calls -/

/-- A symbol that extends a receiver is a function or a property, and no property that a constructor
declares. -/
def Symbol.WellSorted (s : Symbol) : Prop :=
  s.isExtension = true → (s.kind = .function ∨ s.kind = .property) ∧ s.declaredInConstructor = false

namespace Symbol

variable {s : Symbol}

/-- What extends nothing is well sorted. -/
theorem WellSorted.of_receiverType (h : s.receiverType = none) : s.WellSorted := by
  intro he
  rw [isExtension, h] at he
  cases he

theorem WellSorted.isExtension_of_isClassifier (h : s.WellSorted)
    (hk : s.kind.isClassifier = true) : s.isExtension = false := by
  refine Bool.eq_false_iff.2 fun he => ?_
  rcases (h he).1 with hf | hp
  · rw [hf] at hk; cases hk
  · rw [hp] at hk; cases hk

/-- Every kind is that of a classifier, of something invoked or of something that holds a value. -/
theorem Kind.trichotomy (k : Kind) :
    k.isClassifier = true ∨ k.isCallable = true ∨ k.isVariable = true := by
  cases k <;> decide

end Symbol

/-- The call is of a function, a constructor or a variable, and is one on a receiver exactly when
its symbol is an extension. -/
structure Resolve.Call.WellSorted (c : Call) : Prop where
  invocable : c.symbol.kind.isCallable = true ∨ c.symbol.kind.isVariable = true
  extensionReceiver_eq : c.extensionReceiver = c.symbol.isExtension

/-! ### The symbols of a file -/

theorem SourceFile.Introduces.wellSorted {f : SourceFile} {n : Node} {s : Symbol}
    (h : f.Introduces n s) : s.WellSorted := by
  unfold SourceFile.Introduces at h
  cases hl : f.language with
  | kotlin =>
      rw [hl] at h
      rcases (Kotlin.Introduces.traits h).receiver with hnone | hkind
      · exact .of_receiverType hnone
      · exact fun _ => hkind
  | java =>
      rw [hl] at h
      exact .of_receiverType (Java.Introduces.traits h).receiver

namespace Resolve
open Node

/-- A local binding extends a receiver only as a function. -/
theorem wellSorted_localSymbol (f : SourceFile) (n : Node) (kind : Symbol.Kind) (name : String) :
    (localSymbol f n kind name).WellSorted := by
  by_cases hk : kind = .function
  · rw [localSymbol, if_pos hk]
    exact fun _ => ⟨.inl hk, rfl⟩
  · rw [localSymbol, if_neg hk]
    exact .of_receiverType rfl

/-! ### Extensions -/

variable {index : Index}

theorem isExtension_of_mem_visibleExtensions {ls : Levels} {f : SourceFile} {n : Node}
    {name : String} {want : Want} {t : ExprType} {s : Symbol}
    (h : s ∈ visibleExtensions index ls f n name want t) : s.isExtension = true := by
  have hext : extendsOneOf (receiverNames index ls t) s = true := by
    obtain ⟨answer, hanswer, hs⟩ := mem_of_mem_firstFound h
    simp only [List.mem_cons, List.not_mem_nil, or_false] at hanswer
    rcases hanswer with rfl | rfl
    · exact (List.mem_filter.1 hs).2
    · have hfits := (List.mem_filter.1 (mem_of_mem_unambiguous hs)).2
      exact (Bool.and_eq_true_iff.1 hfits).2
  unfold extendsOneOf at hext
  split at hext
  · next r hr => rw [Symbol.isExtension, hr]; rfl
  · cases hext

/-- An access that leads to extensions leads to nothing else. -/
theorem isExtension_of_asExtension {ls : Levels} {f : SourceFile} {n : Node} {want : Want}
    (h : (accessNavigation index ls f n want).asExtension = true) :
    ∀ s ∈ (accessNavigation index ls f n want).symbols, s.isExtension = true := by
  unfold accessNavigation at h ⊢
  split at h
  · next receiver name _ _ =>
    simp only [accessMember, Option.bind_eq_bind] at h ⊢
    cases ht : ls.top.typeOfExpr f receiver with
    | none => rw [ht] at h; cases h
    | some t =>
        simp only [ht, Option.bind_some] at h ⊢
        split at h
        · split at h
          · cases h
          · exact fun s hs => isExtension_of_mem_visibleExtensions hs
        · cases h
  · cases h

/-! ### Callees -/

theorem kind_of_mem_constructorsOf {ls : Levels} {c s : Symbol}
    (h : s ∈ constructorsOf index ls c) : s.kind = .constructor := by
  unfold constructorsOf at h
  split at h
  · exact of_decide_eq_true (List.mem_filter.1 h).2
  · cases h

/-- What is called is a function or a constructor among the candidates, a constructor of a
classifier among them, or a variable among them. -/
theorem cases_of_chooseCallable {ls : Levels} {candidates : List Symbol} {arguments : Nat}
    {s : Symbol} (h : chooseCallable index ls candidates arguments = some s) :
    (s ∈ candidates ∧ (s.kind.isCallable = true ∨ s.kind.isVariable = true)) ∨
      (s.kind = .constructor ∧ ∃ c ∈ candidates, c.kind.isClassifier = true) := by
  unfold chooseCallable at h
  split at h
  · dsimp only at h
    split at h
    · have hk := List.find?_some h
      exact .inl ⟨List.mem_of_find?_eq_some h, .inr hk⟩
    · have hs := mem_of_narrow h
      split at hs
      · next c hc =>
        have hck := List.find?_some hc
        exact .inr ⟨kind_of_mem_constructorsOf hs, c, List.mem_of_find?_eq_some hc, hck⟩
      · cases hs
  · obtain ⟨hs, hk⟩ := List.mem_filter.1 (mem_of_narrow h)
    exact .inl ⟨hs, .inl hk⟩

theorem wellSorted_constructorTarget {ls : Levels} {f : SourceFile} {n : Node} {c : Call}
    (h : constructorTarget index ls f n = some c) : c.WellSorted := by
  obtain ⟨written, -, h⟩ := Option.bind_eq_some_iff.1 h
  obtain ⟨cls, -, h⟩ := Option.bind_eq_some_iff.1 h
  obtain ⟨s, hs, h⟩ := Option.bind_eq_some_iff.1 h
  cases h
  rcases cases_of_chooseCallable hs with ⟨-, hk⟩ | ⟨hk, -⟩
  · exact ⟨hk, rfl⟩
  · exact ⟨.inl (by rw [Call.ofSymbol, hk]; rfl), rfl⟩

theorem FoundOn.wellSorted {ls : Levels} {f : SourceFile} {n : Node} {c : Call}
    (h : FoundOn index ls f n c) : c.WellSorted :=
  ⟨.inl (by rw [h.kind_eq]; rfl), h.extensionReceiver_eq⟩

section Called

variable (hi : index.Consistent)
include hi

/-- **Every symbol that an answer can lead to is well sorted.** -/
theorem wellSorted_of_sourced {f : SourceFile} {s : Symbol} (h : Sourced index f s) :
    s.WellSorted := by
  rcases h with h | ⟨name, n, hn, h⟩
  · obtain ⟨g, -, hs⟩ := hi.sourced s h
    obtain ⟨m, -, hintro⟩ := SourceFile.exists_introduces hs
    exact hintro.wellSorted
  · obtain ⟨m, kind, bound, -, -, rfl⟩ := exists_canBind_of_mem_localBindings hn h
    exact wellSorted_localSymbol f m kind bound

variable {ls : Levels} (hls : Levels.Sourced index ls) {f : SourceFile} {n : Node}
  (hn : Within f.tree n) {c : Call}
include hls hn

/-- The callee of a call expression is chosen among what a name or a member access denotes. -/
theorem wellSorted_callTarget (h : callTarget index ls f n = some c) : c.WellSorted := by
  obtain ⟨callee, hmem, access, haccess, hchosen, hreceiver⟩ := cases_of_callTarget h
  have hcw : Within f.tree callee := hn.child hmem
  have hsourced : ∀ s ∈ access.symbols, Sourced index f s := by
    rcases haccess with rfl | rfl
    · exact fun s hs => hls.top.lookup hcw hs
    · exact fun s hs => sourced_accessNavigation hi hls.below hcw hs
  have hext : access.asExtension = true → ∀ s ∈ access.symbols, s.isExtension = true := by
    rcases haccess with rfl | rfl
    · exact fun he => by cases he
    · exact isExtension_of_asExtension
  rcases cases_of_chooseCallable hchosen with ⟨hs, hk⟩ | ⟨hk, d, hd, hdk⟩
  · refine ⟨hk, hreceiver.trans ?_⟩
    cases he : access.asExtension with
    | false => exact Bool.or_false _
    | true => rw [hext he _ hs, Bool.or_true]
  · -- a constructor is called because of a class among the candidates, which is no extension
    refine ⟨.inl (by rw [hk]; rfl), hreceiver.trans ?_⟩
    cases he : access.asExtension with
    | false => exact Bool.or_false _
    | true =>
        have hd' := (wellSorted_of_sourced hi (hsourced d hd)).isExtension_of_isClassifier hdk
        rw [hext he d hd] at hd'
        cases hd'

/-- **What a node calls is well sorted.** -/
theorem wellSorted_called (h : Answers.called index ls f n = some c) : c.WellSorted := by
  rcases cases_of_called h with h | ⟨m, h⟩ | h | h
  · exact wellSorted_callTarget hi hls hn h
  · exact wellSorted_constructorTarget h
  · exact h.wellSorted
  · exact h.wellSorted

end Called

end Resolve

/-! ### Sessions -/

/-- The session answers about places of the tree with well sorted symbols, calls what can be called
and takes only classifiers for types. -/
structure Session.Sorted {σ : Type} (session : Session σ) (t : Tree) : Prop where
  symbols : session.Satisfy t Symbol.WellSorted
  call : ∀ {n : Node} {s : σ} {c : Call}, Node.Within t n →
    (session.call n s).1 = .ok (some c) → c.WellSorted
  type : ∀ {n : Node} {s : σ} {x : Symbol}, Node.Within t n →
    (session.type n s).1 = .ok (some x) → x.kind.isClassifier = true
  delegate : ∀ {n : Node} {s : σ} {calls : List Call}, Node.Within t n →
    (session.delegate n s).1 = .ok calls → ∀ c ∈ calls, c.WellSorted

theorem Session.Satisfy.mono {σ : Type} {session : Session σ} {t : Tree} {P Q : Symbol → Prop}
    (h : session.Satisfy t P) (hPQ : ∀ s, P s → Q s) : session.Satisfy t Q where
  reference hn hs x hx := hPQ x (h.reference hn hs x hx)
  call hn hs := hPQ _ (h.call hn hs)
  type hn hs := hPQ _ (h.type hn hs)
  delegate hn hs c hc := hPQ _ (h.delegate hn hs c hc)

/-- **Every answer of a session over an index is of the sort asked for.** -/
theorem Session.sorted_ofIndex {index : Index} (hi : index.Consistent) (f : SourceFile) :
    (Session.ofIndex index f).Sorted f.tree := by
  have hls := Resolve.sourced_levels hi (Resolve.maxDepth + 1)
  refine ⟨(Resolve.sourced_ofIndex hi f id).mono fun _ => Resolve.wellSorted_of_sourced hi,
    ?_, ?_, ?_⟩
  · intro n s c hn h
    simp only [Session.ofIndex, Session.ofAnswers, Answers.ofIndex] at h
    exact Resolve.wellSorted_called hi hls.below hn (Resolve.eq_of_guard_eq_ok h)
  · intro n s x hn h
    simp only [Session.ofIndex, Session.ofAnswers, Answers.ofIndex] at h
    obtain ⟨t, -, h⟩ := Option.bind_eq_some_iff.1 (Resolve.eq_of_guard_eq_ok h)
    exact (hls.top.classifierNamed h).2
  · intro n s calls hn h c hc
    simp only [Session.ofIndex, Session.ofAnswers, Answers.ofIndex] at h
    rw [← Resolve.eq_of_guard_eq_ok h] at hc
    exact (Resolve.foundOn_of_mem_delegateCalls hc).wellSorted

end Crossref
