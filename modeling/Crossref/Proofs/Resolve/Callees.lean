import Crossref.Proofs.Index.Reachable
import Crossref.Resolve.Member

/-!
# Proofs — resolution — which of several candidates is called

A callee is the first of the callables with the right number of parameters, or else the first of
all.  Two lists of callables that are picked from the same symbols, in their order, lead to the same
callee when each of the two callees is in the other list.  So two lists of candidates, of which one
adds only constructors to the other, lead to the same callee exactly when each callee can be called
from the other list, too.

* `narrow_eq`: the first that fits, or the first.
* `eq_of_narrow`: callees from two parts of one list.
* `chooseCallable_eq_iff`: when constructors among the candidates make no difference.
-/

namespace Crossref.Resolve

/-! ### The first that fits -/

/-- Of what two properties pick first, each has the other property as well only if it is the
same. -/
theorem eq_of_find? {α : Type} {p q : α → Bool} {xs : List α} {x y : α}
    (hx : xs.find? p = some x) (hy : xs.find? q = some y) (hqx : q x = true) (hpy : p y = true) :
    x = y := by
  induction xs with
  | nil => cases hx
  | cons z zs ih =>
      rw [List.find?_cons] at hx hy
      cases hpz : p z with
      | true =>
          obtain rfl : z = x := by simpa [hpz] using hx
          simpa [hqx] using hy
      | false =>
          cases hqz : q z with
          | true =>
              obtain rfl : z = y := by simpa [hqz] using hy
              rw [hpy] at hpz
              cases hpz
          | false => exact ih (by simpa [hpz] using hx) (by simpa [hqz] using hy)

/-- Of several callables one is called. -/
theorem exists_narrow {callables : List Symbol} (h : callables ≠ []) (arguments : Nat) :
    ∃ s, narrow callables arguments = some s := by
  rcases callables with _ | ⟨first, _ | ⟨second, rest⟩⟩
  · exact absurd rfl h
  · exact ⟨first, rfl⟩
  · exact ⟨_, rfl⟩

theorem narrow_eq (callables : List Symbol) (arguments : Nat) :
    narrow callables arguments =
      (callables.find? (·.parameterCount = some arguments)).or callables.head? := by
  rcases callables with _ | ⟨first, _ | ⟨second, rest⟩⟩
  · rfl
  · cases h : decide (first.parameterCount = some arguments) <;> simp [narrow, h]
  · cases h : (first :: second :: rest).find? (·.parameterCount = some arguments) <;>
      simp [narrow, h]

/-- The callee among the symbols with a property. -/
theorem narrow_filter_eq_some_iff {symbols : List Symbol} {p : Symbol → Bool} {arguments : Nat}
    {s : Symbol} :
    narrow (symbols.filter p) arguments = some s ↔
      symbols.find? (fun u => p u && u.parameterCount = some arguments) = some s ∨
        (∀ u ∈ symbols, p u = true → u.parameterCount ≠ some arguments) ∧
          symbols.find? p = some s := by
  rw [narrow_eq, List.find?_filter, List.head?_filter, Option.or_eq_some_iff, List.find?_eq_none]
  simp

theorem parameterCount_of_find? {symbols : List Symbol} {p : Symbol → Bool} {arguments : Nat}
    {s : Symbol} (h : symbols.find? (fun u => p u && u.parameterCount = some arguments) = some s) :
    s.parameterCount = some arguments := by
  have hs := List.find?_some h
  simp only [Bool.and_eq_true, decide_eq_true_eq] at hs
  exact hs.2

/-- **Callees from two parts of one list** are the same when each is in the other part. -/
theorem eq_of_narrow {symbols : List Symbol} {p q : Symbol → Bool} {arguments : Nat} {s t : Symbol}
    (hs : narrow (symbols.filter p) arguments = some s)
    (ht : narrow (symbols.filter q) arguments = some t) (hqs : q s = true) (hpt : p t = true) :
    s = t := by
  rcases narrow_filter_eq_some_iff.1 hs with hs | ⟨hsnone, hs⟩ <;>
    rcases narrow_filter_eq_some_iff.1 ht with ht | ⟨htnone, ht⟩
  · exact eq_of_find? hs ht (by simp [hqs, parameterCount_of_find? hs])
      (by simp [hpt, parameterCount_of_find? ht])
  · -- a callee that fits would have been found among the others, too
    exact absurd (parameterCount_of_find? hs) (htnone s (List.mem_of_find?_eq_some hs) hqs)
  · exact absurd (parameterCount_of_find? ht) (hsnone t (List.mem_of_find?_eq_some ht) hpt)
  · exact eq_of_find? hs ht hqs hpt

/-! ### Callables, constructors, variables -/

section Choosing

variable {i : Index} {ls : Levels} {candidates : List Symbol}

/-- The constructors of the first classifier among the candidates. -/
def constructorsAmong (i : Index) (ls : Levels) (candidates : List Symbol) : List Symbol :=
  match candidates.find? (·.kind.isClassifier) with
  | some c => constructorsOf i ls.below c
  | none => []

theorem chooseCallable_of_no_callables (h : candidates.filter (·.kind.isCallable) = [])
    (arguments : Nat) :
    chooseCallable i ls candidates arguments =
      match constructorsAmong i ls candidates with
      | [] => candidates.find? (·.kind.isVariable)
      | found => narrow found arguments := by
  rw [chooseCallable, h]
  rfl

theorem chooseCallable_of_callables (h : candidates.filter (·.kind.isCallable) ≠ [])
    (arguments : Nat) :
    chooseCallable i ls candidates arguments =
      narrow (candidates.filter (·.kind.isCallable)) arguments := by
  rw [chooseCallable]
  split
  · next e => exact absurd e h
  · rfl

/-- The constructors of a class are picked from all symbols. -/
theorem constructorsOf_eq_filter (hi : i.Consistent) (ls : Levels) {c : Symbol}
    (hc : c.kind ≠ .typeAlias) :
    constructorsOf i ls c =
      i.symbols.filter fun s => s.kind = .constructor && s.parent == some c.handle := by
  have hmembers : i.membersOf c.handle = i.symbols.filter (·.parent == some c.handle) :=
    (congrArg (·.membersOf c.handle) hi.tables).trans (Index.membersOf_ofParts _ _ _)
  rw [constructorsOf, followAlias, if_neg hc]
  change (i.membersOf c.handle).filter _ = _
  rw [hmembers, List.filter_filter]

/-- The constructors of the first classifier, too. -/
theorem exists_constructorsAmong_eq_filter (hi : i.Consistent) (ls : Levels)
    (candidates : List Symbol) :
    ∃ p, constructorsAmong i ls candidates = i.symbols.filter p := by
  have hnone : ([] : List Symbol) = i.symbols.filter fun _ => false := by simp
  unfold constructorsAmong constructorsOf
  split
  · split
    · next c _ =>
      rw [hi.tables, Index.membersOf_ofParts, List.filter_filter]
      exact ⟨_, rfl⟩
    · exact ⟨_, hnone⟩
  · exact ⟨_, hnone⟩

/-- A function or a constructor is called only if it is a constructor of the first classifier, where
no candidate is a function or a constructor. -/
theorem mem_constructorsAmong_of_chooseCallable
    (h : candidates.filter (·.kind.isCallable) = []) {arguments : Nat} {s : Symbol}
    (hs : chooseCallable i ls candidates arguments = some s)
    (hcallable : s.kind.isCallable = true) : s ∈ constructorsAmong i ls candidates := by
  rw [chooseCallable_of_no_callables h] at hs
  split at hs
  · exact absurd hcallable (List.filter_eq_nil_iff.1 h s (List.mem_of_find?_eq_some hs))
  · exact mem_of_narrow hs

end Choosing

/-! ### Constructors among the candidates -/

section Adding

variable {i : Index} (hi : i.Consistent) {ls : Levels} {p q : Symbol → Bool}
  (hsub : ∀ s ∈ i.symbols, p s = true → q s = true)
  (hadded : ∀ s ∈ i.symbols, q s = true → p s = false → s.kind = .constructor)

include hsub hadded in
/-- Without callables nothing is added. -/
theorem filter_eq_filter_of_no_callables
    (h : (i.symbols.filter q).filter (·.kind.isCallable) = []) :
    i.symbols.filter p = i.symbols.filter q := by
  refine List.filter_congr fun s hs => ?_
  cases hp : p s with
  | true => exact (hsub s hs hp).symm
  | false =>
      cases hq : q s with
      | true =>
          have hcallable : s.kind.isCallable = true := by
            rw [hadded s hs hq hp]
            rfl
          exact absurd hcallable (List.filter_eq_nil_iff.1 h s (List.mem_filter.2 ⟨hs, hq⟩))
      | false => rfl

include hi hsub hadded in
/-- **When constructors among the candidates make no difference**: when what is called on either
side can be called on the other one, with some number of arguments. -/
theorem chooseCallable_eq_iff (arguments : Nat) :
    chooseCallable i ls (i.symbols.filter p) arguments =
        chooseCallable i ls (i.symbols.filter q) arguments ↔
      (∀ s, chooseCallable i ls (i.symbols.filter p) arguments = some s →
        ∃ m, chooseCallable i ls (i.symbols.filter q) m = some s) ∧
      ∀ s, chooseCallable i ls (i.symbols.filter q) arguments = some s →
        ∃ m, chooseCallable i ls (i.symbols.filter p) m = some s := by
  refine ⟨fun h => ⟨fun s hs => ⟨arguments, h ▸ hs⟩, fun s hs => ⟨arguments, h ▸ hs⟩⟩, ?_⟩
  rintro ⟨hthere, hhere⟩
  by_cases hq : (i.symbols.filter q).filter (·.kind.isCallable) = []
  · rw [filter_eq_filter_of_no_callables hsub hadded hq]
  obtain ⟨t, ht⟩ := exists_narrow hq arguments
  obtain ⟨m, hm⟩ := hhere t ((chooseCallable_of_callables hq arguments).trans ht)
  have hcallable := (List.mem_filter.1 (mem_of_narrow ht)).2
  -- what is called on this side is narrowed from symbols with some property, and `t` is one of them
  obtain ⟨r, hr, htr⟩ : ∃ r, (∀ k, chooseCallable i ls (i.symbols.filter p) k =
      narrow (i.symbols.filter r) k) ∧ t ∈ i.symbols.filter r := by
    by_cases hp : (i.symbols.filter p).filter (·.kind.isCallable) = []
    · have hmem := mem_constructorsAmong_of_chooseCallable hp hm hcallable
      obtain ⟨r, hr⟩ := exists_constructorsAmong_eq_filter hi ls (i.symbols.filter p)
      refine ⟨r, fun k => ?_, hr ▸ hmem⟩
      rw [← hr, chooseCallable_of_no_callables hp]
      split
      · next e => rw [e] at hmem; cases hmem
      · rfl
    · rw [chooseCallable_of_callables hp, List.filter_filter] at hm
      refine ⟨_, fun k => ?_, mem_of_narrow hm⟩
      rw [chooseCallable_of_callables hp, List.filter_filter]
  obtain ⟨s, hs⟩ := exists_narrow (List.ne_nil_of_mem htr) arguments
  obtain ⟨k, hk⟩ := hthere s ((hr arguments).trans hs)
  rw [chooseCallable_of_callables hq, List.filter_filter] at hk
  rw [List.filter_filter] at ht
  have hqs := (List.mem_filter.1 (mem_of_narrow hk)).2
  have heq : s = t := eq_of_narrow hs ht hqs (List.mem_filter.1 htr).2
  rw [hr, hs, chooseCallable_of_callables hq, List.filter_filter, ht, heq]

include hsub in
/-- **Constructors beside functions** make no difference when a function is called. -/
theorem chooseCallable_eq_iff_of_callables
    (hcallables : (i.symbols.filter p).filter (·.kind.isCallable) ≠ []) (arguments : Nat) :
    chooseCallable i ls (i.symbols.filter p) arguments =
        chooseCallable i ls (i.symbols.filter q) arguments ↔
      ∀ s, chooseCallable i ls (i.symbols.filter q) arguments = some s → p s = true := by
  have hothers : (i.symbols.filter q).filter (·.kind.isCallable) ≠ [] := by
    obtain ⟨s, hs⟩ := List.exists_mem_of_ne_nil _ hcallables
    obtain ⟨hmem, hcallable⟩ := List.mem_filter.1 hs
    obtain ⟨hindexed, hps⟩ := List.mem_filter.1 hmem
    exact List.ne_nil_of_mem
      (List.mem_filter.2 ⟨List.mem_filter.2 ⟨hindexed, hsub s hindexed hps⟩, hcallable⟩)
  rw [chooseCallable_of_callables hcallables, chooseCallable_of_callables hothers]
  obtain ⟨s, hs⟩ := exists_narrow hcallables arguments
  obtain ⟨t, ht⟩ := exists_narrow hothers arguments
  obtain ⟨hsmem, hscallable⟩ := List.mem_filter.1 (mem_of_narrow hs)
  obtain ⟨hsindexed, hps⟩ := List.mem_filter.1 hsmem
  have htcallable := (List.mem_filter.1 (mem_of_narrow ht)).2
  rw [hs, ht]
  constructor
  · rintro h u hu
    cases h
    cases hu
    exact hps
  · intro h
    rw [List.filter_filter] at hs ht
    rw [eq_of_narrow hs ht (by simp [hsub s hsindexed hps, hscallable])
      (by simp [h t rfl, htcallable])]

include hsub hadded in
/-- **Constructors of a class** make no difference where they are the only callables. -/
theorem chooseCallable_eq_of_constructors {c : Symbol}
    (hcallables : (i.symbols.filter p).filter (·.kind.isCallable) = [])
    (hfirst : (i.symbols.filter p).find? (·.kind.isClassifier) = some c)
    (hconstructors : (i.symbols.filter q).filter (·.kind.isCallable) = constructorsOf i ls.below c)
    (arguments : Nat) :
    chooseCallable i ls (i.symbols.filter p) arguments =
      chooseCallable i ls (i.symbols.filter q) arguments := by
  by_cases hq : (i.symbols.filter q).filter (·.kind.isCallable) = []
  · rw [filter_eq_filter_of_no_callables hsub hadded hq]
  · have hamong : constructorsAmong i ls (i.symbols.filter p) =
        (i.symbols.filter q).filter (·.kind.isCallable) := by
      rw [constructorsAmong, hfirst, hconstructors]
    rw [chooseCallable_of_no_callables hcallables, chooseCallable_of_callables hq, hamong]
    split
    · next e => exact absurd e hq
    · rfl

end Adding

end Crossref.Resolve
