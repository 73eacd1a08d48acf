import Crossref.Proofs.Tree.Below
import Crossref.QualifiedName
import Crossref.Symbol

/-!
# Proofs — source files — the names of members

A qualified name lists the package, the classes around a declaration and the declaration itself.  So
the name of a member is that of its class with one name behind it, provided that nothing on the way
from the class to the member is a class or a local scope.

* `QualifiedName.ofParts?_concat`: one name more is one name behind a dot.
* `Node.namesAround?_of_way`: around a member there is its class, and what is around that.
-/

namespace Crossref

/-! ### Qualified names -/

/-- The text before the last dot, when no dot comes behind it. -/
theorem Text.beforeLast?_append {before name : String} (h : '.' ∉ name.toList) :
    beforeLast? (before ++ "." ++ name) '.' = some before := by
  have htext : (before ++ "." ++ name).toList = before.toList ++ '.' :: name.toList := by
    simp [String.toList_append]
  have hskip : ∀ c ∈ name.toList.reverse, (c != '.') = true := by
    intro c hc
    simpa using fun e : c = '.' => h (e ▸ List.mem_reverse.1 hc)
  rw [beforeLast?, htext, if_pos (by simp), List.reverse_append, List.reverse_cons,
    List.append_assoc, List.dropWhile_append_of_pos hskip]
  simp

theorem QualifiedName.ofParts?_of_ne_nil {parts : List String} (h : parts ≠ []) :
    ofParts? parts = some (".".intercalate parts) := by
  cases parts with
  | nil => exact absurd rfl h
  | cons p parts => rfl

theorem QualifiedName.ofParts?_concat {parts : List String} (h : parts ≠ []) (name : String) :
    ofParts? (parts ++ [name]) = some (".".intercalate parts ++ "." ++ name) := by
  rw [← String.intercalate_singleton (s := ".") (t := name),
    ← String.intercalate_append_of_ne_nil h (by simp), String.intercalate_singleton]
  exact ofParts?_of_ne_nil (by simp)

/-- The name of what has the containers and, unless it is a constructor, a name of its own. -/
def QualifiedName.inside? (package : Option String) (containers own : Option (List String)) :
    Option String :=
  containers.bind fun around => own.bind fun last =>
    ofParts? (packageParts package ++ around ++ last)

/-- What stands in a class is named after the class: a constructor like it, and anything else with
its own name behind. -/
theorem QualifiedName.inside?_member {package : Option String} {above : List String}
    {name q : String} {constructor : Bool} {ownName : Option String}
    (hq : inside? package (some (above ++ [name]))
      (if constructor then some [] else ownName.map ([·])) = some q) :
    ∃ o, inside? package (some above) (some [name]) = some o ∧ (constructor = true → q = o) ∧
      (constructor = false → ∃ own, ownName = some own ∧ q = o ++ "." ++ own) := by
  have hne : packageParts package ++ (above ++ [name]) ≠ [] := by simp
  have hclass : inside? package (some above) (some [name]) =
      some (".".intercalate (packageParts package ++ (above ++ [name]))) := by
    rw [inside?, Option.bind_some, Option.bind_some, List.append_assoc]
    exact ofParts?_of_ne_nil hne
  refine ⟨_, hclass, ?_, ?_⟩
  · rintro rfl
    rw [if_pos rfl, inside?, Option.bind_some, Option.bind_some, List.append_nil,
      ofParts?_of_ne_nil hne] at hq
    exact (Option.some.inj hq).symm
  · rintro rfl
    rw [if_neg (by simp), inside?, Option.bind_some] at hq
    obtain ⟨_, hlast, hq⟩ := Option.bind_eq_some_iff.1 hq
    obtain ⟨own, hown, rfl⟩ := Option.map_eq_some_iff.1 hlast
    rw [ofParts?_concat hne] at hq
    exact ⟨own, hown, (Option.some.inj hq).symm⟩

/-! ### Members of classes -/

/-- When the symbol has a qualified name so has the class: a constructor the same one, any other
member that name with its own behind it. -/
def Symbol.NamedAfter (s cls : Symbol) : Prop :=
  ∀ q, s.qualifiedName = some q → ∃ o, cls.qualifiedName = some o ∧
    q = if s.kind = .constructor then o else o ++ "." ++ s.name

/-- What has the names of its declaration is named after a class that the declaration is named
after: a constructor like it, and anything else with its own name behind. -/
theorem Symbol.NamedAfter.of_declaration {s cls : Symbol} {constructor : Bool}
    {ownName : Option String}
    (h : ∀ q, s.qualifiedName = some q → ∃ o, cls.qualifiedName = some o ∧
      (constructor = true → q = o) ∧
      (constructor = false → ∃ own, ownName = some own ∧ q = o ++ "." ++ own))
    (hconstructor : s.kind = .constructor → constructor = true)
    (hplain : s.kind ≠ .constructor → constructor = false ∧ ownName = some s.name) :
    s.NamedAfter cls := by
  intro q hq
  obtain ⟨o, ho, hlike, hown⟩ := h q hq
  refine ⟨o, ho, ?_⟩
  split
  · next hs => exact hlike (hconstructor hs)
  · next hs =>
    obtain ⟨hkind, hname⟩ := hplain hs
    obtain ⟨own, hdeclared, rfl⟩ := hown hkind
    rw [hname] at hdeclared
    rw [Option.some.inj hdeclared]

namespace Node

/-- The names of the nodes of some kinds around a node, outermost first; none within a scope. -/
def namesAround? (scopes classes : List String) (name? : Node → Option String) (n : Node) :
    Option (List String) :=
  if n.ancestors.any fun a => scopes.contains a.kind then none
  else (n.ancestors.reverse.filter fun a => classes.contains a.kind).mapM name?

/-- The way up from a node reached from `n`: nodes of the kinds gone through, then `n`. -/
theorem Through.exists_way {kinds : List String} {n m : Node} (h : Through kinds n m) :
    ∃ way, m.ancestors = way ++ n :: n.ancestors ∧ ∀ a ∈ way, a.kind ∈ kinds := by
  induction h with
  | child hc => exact ⟨[], ancestors_of_mem_children hc, by simp⟩
  | @step c m _ hk hm ih =>
      obtain ⟨way, hway, hkinds⟩ := ih
      refine ⟨c :: way, by rw [ancestors_of_mem_children hm, hway, List.cons_append], ?_⟩
      exact List.forall_mem_cons.2 ⟨hk, hkinds⟩

/-- On a way up that goes through no other class there is the class, and what is around it, unless
one of them is a scope. -/
theorem namesAround?_of_way (scopes : List String) {classes : List String}
    (name? : Node → Option String) {n m : Node} {way : List Node} {name : String}
    (hway : m.ancestors = way ++ n :: n.ancestors) (hclasses : ∀ a ∈ way, a.kind ∉ classes)
    (hk : n.kind ∈ classes) (hname : name? n = some name) :
    namesAround? scopes classes name? m =
      if (way ++ [n]).any fun a => scopes.contains a.kind then none
      else (namesAround? scopes classes name? n).map (· ++ [name]) := by
  have hnone : (way.reverse.filter fun a => classes.contains a.kind) = [] :=
    List.filter_eq_nil_iff.2 fun a ha hc =>
      hclasses a (List.mem_reverse.1 ha) (List.contains_iff_mem.1 hc)
  have hfilter : (m.ancestors.reverse.filter fun a => classes.contains a.kind) =
      (n.ancestors.reverse.filter fun a => classes.contains a.kind) ++ [n] := by
    rw [hway, List.reverse_append, List.reverse_cons, List.filter_append, List.filter_append, hnone,
      List.append_nil, List.filter_cons_of_pos (by simpa using hk), List.filter_nil]
  have hany : (m.ancestors.any fun a => scopes.contains a.kind) =
      (((way ++ [n]).any fun a => scopes.contains a.kind) ||
        n.ancestors.any fun a => scopes.contains a.kind) := by
    rw [hway, List.append_cons, List.any_append]
  rw [namesAround?, namesAround?, hany, hfilter, List.mapM_append]
  cases (way ++ [n]).any fun a => scopes.contains a.kind with
  | true => rfl
  | false =>
      rw [Bool.false_or, if_neg Bool.false_ne_true]
      split
      · rfl
      · cases (n.ancestors.reverse.filter fun a => classes.contains a.kind).mapM name? <;>
          simp [hname]

/-- **Around a member there is its class, and what is around that**, when the way to the member goes
through no other class. -/
theorem namesAround?_of_through {scopes classes kinds : List String} (name? : Node → Option String)
    {n m : Node} {name : String} {names : List String} (h : Through kinds n m)
    (hkinds : ∀ k ∈ kinds, k ∉ classes) (hk : n.kind ∈ classes) (hname : name? n = some name)
    (hm : namesAround? scopes classes name? m = some names) :
    ∃ above, namesAround? scopes classes name? n = some above ∧ names = above ++ [name] := by
  obtain ⟨way, hway, hin⟩ := h.exists_way
  rw [namesAround?_of_way scopes name? hway (fun a ha => hkinds a.kind (hin a ha)) hk hname] at hm
  obtain ⟨-, hm⟩ := Option.ite_none_left_eq_some.1 hm
  obtain ⟨above, habove, rfl⟩ := Option.map_eq_some_iff.1 hm
  exact ⟨above, habove, rfl⟩

end Node

end Crossref
