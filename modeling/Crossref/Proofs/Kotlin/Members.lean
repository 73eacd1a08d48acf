import Crossref.Proofs.Kotlin.Scopes
import Crossref.Proofs.SourceFile.Names

/-!
# Proofs — Kotlin — members and their classes

A member takes its parent from the walk over the file and its qualified name from the nodes around
it.  Both tell the same class: the parts of a class are the parameters of its head and what is
written in its body, there is no class on the way to them, and on the way to a body that was read
as a lambda there is a local scope, so that nothing in it is qualified.  What a class has without
writing it is named after the class directly.

* `declaredAt_cases`: what a declaration introduces is written there, or is a member of the class
  that is.
* `exists_class_of_parent`: a symbol with a parent is a member of a class of the file.
-/

namespace Crossref.Kotlin
open Node

/-! ### The parts of a class -/

/-- The node is a parameter in the head of the class at `n`, or is written in its body. -/
inductive PartOf (n : Node) : Node → Prop where
  | parameter {p : Node} (hp : p ∈ classParameters n) : PartOf n p
  | member {misread : Bool} {body c : Node} (hbody : BodyOf n misread body)
      (hc : c ∈ body.children) : PartOf n c

theorem PartOf.through {n m : Node} (h : PartOf n m) :
    ∃ misread, Through (wayKinds misread) n m := by
  cases h with
  | parameter hp => exact ⟨false, through_of_parameter hp⟩
  | @member misread _ _ hbody hc => exact ⟨misread, through_of_bodyOf hbody hc⟩

theorem PartOf.below {n m : Node} (h : PartOf n m) : Below n m := by
  obtain ⟨_, h⟩ := h.through
  exact h.toBelow

/-- What has an owner is a part of a class that is met. -/
theorem Met.exists_class {f : SourceFile} {misread : Bool} {o : Owner} {m : Node}
    (h : Met f misread (some o) m) :
    ∃ outer owner n name, Met f outer owner n ∧ n.kind ∈ classKinds ∧
      declarationName? n f.text = some name ∧ o = ownerAt f n name ∧ PartOf n m := by
  cases h with
  | @parameter _ owner n _ name hn hk hname hp =>
      exact ⟨misread, owner, n, name, hn, hk, hname, rfl, .parameter hp⟩
  | @member outer _ owner n _ _ name hn hk hname hbody hc _ =>
      exact ⟨outer, owner, n, name, hn, hk, hname, rfl, .member hbody hc⟩

theorem Met.within {f : SourceFile} {misread : Bool} {owner : Option Owner} {n : Node}
    (h : Met f misread owner n) : Within f.tree n := by
  induction h with
  | top hn hc _ => exact hn.within.child hc
  | parameter _ _ _ hp ih => exact (PartOf.parameter hp).below.within ih
  | member _ _ _ hbody hc _ ih => exact (PartOf.member hbody hc).below.within ih

theorem Met.file_owner {f : SourceFile} {misread : Bool} {owner : Option Owner} {n : Node}
    (h : Met f misread owner n) : ∀ o ∈ owner, o.handle.file = f.id := by
  cases h with
  | top _ _ _ => exact fun _ ho => nomatch ho
  | parameter _ _ _ _ => rintro _ ⟨⟩; rfl
  | member _ _ _ _ _ _ => rintro _ ⟨⟩; rfl

/-! ### What a declaration introduces -/

/-- The symbol is the one that is written at the node: the class of its parent is given, its names
are those of the node. -/
structure WrittenAt (f : SourceFile) (parent : Option Handle) (n : Node) (s : Symbol) : Prop where
  parent : ∀ h ∈ s.parent, parent = some h
  qualified : s.qualifiedName = qualifiedName? f.package n f.text
  constructor : s.kind = .constructor → isConstructorNode n = true
  named : s.kind ≠ .constructor →
    isConstructorNode n = false ∧ declarationName? n f.text = some s.name

/-- What is no constructor is named by its node. -/
theorem WrittenAt.plain {f : SourceFile} {parent : Option Handle} {n : Node} {s : Symbol}
    (kind : Symbol.Kind) (hk : s.kind = kind) (hne : kind ≠ .constructor)
    (hp : ∀ h ∈ s.parent, parent = some h)
    (hq : s.qualifiedName = qualifiedName? f.package n f.text)
    (hn : isConstructorNode n = false) (hname : declarationName? n f.text = some s.name) :
    WrittenAt f parent n s :=
  ⟨hp, hq, fun h => absurd (hk.symm.trans h) hne, fun _ => ⟨hn, hname⟩⟩

/-- The symbol is a member of the class. -/
structure MemberOf (cls s : Symbol) : Prop where
  parent : s.parent = some cls.handle
  named : s.NamedAfter cls

theorem memberOf_addedMember (f : SourceFile) (cls : Symbol) (name : String)
    (slot parameters : Nat) (typeText : Option String) :
    MemberOf cls (addedMember f cls name slot parameters typeText) := by
  refine ⟨rfl, fun q hq => ?_⟩
  obtain ⟨o, ho, rfl⟩ := Option.map_eq_some_iff.1 hq
  exact ⟨o, ho, rfl⟩

/-- What a class introduces besides itself are members of it. -/
theorem memberOf_of_mem_classOwn {f : SourceFile} {cls s : Symbol} {n : Node}
    (h : s ∈ classOwn f cls n) : s = cls ∨ MemberOf cls s := by
  simp only [classOwn, List.mem_append, List.mem_singleton] at h
  rcases h with ((h | h) | h) | rfl
  · have h := Option.mem_toList.1 h
    unfold headConstructor? at h
    obtain ⟨-, h⟩ := Option.ite_none_right_eq_some.1 h
    cases h
    exact .inr ⟨rfl, fun q hq => ⟨q, hq, rfl⟩⟩
  · split at h
    · rcases List.mem_append.1 h with h | h
      · obtain ⟨⟨p, i⟩, -, rfl⟩ := List.mem_map.1 h
        have hadded := memberOf_addedMember f cls ("component" ++ toString (i + 1)) (i + 1) 0
          p.typeText
        exact .inr ⟨hadded.parent, hadded.named⟩
      · obtain rfl := List.mem_singleton.1 h
        exact .inr (memberOf_addedMember f cls _ _ _ _)
    · cases h
  · split at h
    · simp only [enumMembers, List.mem_cons, List.not_mem_nil, or_false] at h
      rcases h with rfl | rfl
      · exact .inr (memberOf_addedMember f cls _ _ _ _)
      · exact .inr (memberOf_addedMember f cls _ _ _ _)
    · cases h
  · exact .inl rfl

theorem introduces_of_mem_classOwn {f : SourceFile} {parent : Option Handle} {name : String}
    {n : Node} {s : Symbol} (hp : ∀ h ∈ parent, h.file = f.id) (hk : n.kind ∈ classKinds)
    (hname : declarationName? n f.text = some name)
    (h : s ∈ classOwn f (classSymbol f parent name n) n) : Introduces f n s := by
  simp only [classOwn, List.mem_append, List.mem_singleton] at h
  rcases h with ((h | h) | h) | rfl
  · exact .headConstructor hk (Option.mem_toList.1 h)
  · split at h
    · exact .dataMember hk h
    · cases h
  · split at h
    · exact .enumMember hk h
    · cases h
  · exact .classifier hp hk hname

/-- What a class introduces at its node is the class, or a member of it. -/
theorem cases_of_mem_ofClass {f : SourceFile} {parent : Option Handle} {n : Node} {s : Symbol}
    (hp : ∀ h ∈ parent, h.file = f.id) (hk : n.kind ∈ classKinds)
    (h : s ∈ declaredAt.ofClass f n parent) :
    Introduces f n s ∧ (WrittenAt f parent n s ∨
      ∃ name, n.kind ∈ classKinds ∧ declarationName? n f.text = some name ∧
        MemberOf (classSymbol f parent name n) s) := by
  unfold declaredAt.ofClass at h
  split at h
  · next name hname =>
    refine ⟨introduces_of_mem_classOwn hp hk hname h, ?_⟩
    rcases memberOf_of_mem_classOwn h with rfl | hmember
    · refine .inl (.plain _ rfl ?_ (fun _ hh => hh) rfl (kind_of_mem_classKinds hk).1 hname)
      intro hc
      have hclass := (isClass_classSymbol f parent name n).1
      rw [hc] at hclass
      cases hclass
    · exact .inr ⟨name, hk, hname, hmember⟩
  · cases h

/-- **What a declaration introduces** is written there, or is a member of the class that is. -/
theorem declaredAt_cases {f : SourceFile} {owner : Option Owner} {n : Node} {s : Symbol}
    (howner : ∀ o ∈ owner, o.handle.file = f.id) (h : s ∈ declaredAt f owner n) :
    Introduces f n s ∧ (WrittenAt f (owner.map Owner.handle) n s ∨
      ∃ name, n.kind ∈ classKinds ∧ declarationName? n f.text = some name ∧
        MemberOf (classSymbol f (owner.map Owner.handle) name n) s) := by
  have hp : ∀ h ∈ owner.map Owner.handle, h.file = f.id := by
    intro h hh
    obtain ⟨o, ho, rfl⟩ := Option.map_eq_some_iff.1 hh
    exact howner o ho
  unfold declaredAt at h
  dsimp only at h
  split at h
  iterate 3
    · next hk => exact cases_of_mem_ofClass hp (by simp [classKinds, hk]) h
  · next hk =>
    have h := Option.mem_toList.1 h
    refine ⟨.function hp hk h, .inl ?_⟩
    obtain ⟨name, hname, rfl⟩ := Option.map_eq_some_iff.1 h
    exact .plain .function rfl (by decide) (fun _ hh => hh) rfl
      (by simp [isConstructorNode, hk]) hname
  · next hk =>
    have h := Option.mem_toList.1 h
    refine ⟨.property hp hk h, .inl ?_⟩
    obtain ⟨_, -, h⟩ := Option.bind_eq_some_iff.1 h
    obtain ⟨name, hname, h⟩ := Option.bind_eq_some_iff.1 h
    cases h
    exact .plain .property rfl (by decide) (fun _ hh => hh) rfl
      (by simp [isConstructorNode, hk]) hname
  · next hk =>
    have h := Option.mem_toList.1 h
    refine ⟨.typeAlias hk h, .inl ?_⟩
    obtain ⟨name, hname, rfl⟩ := Option.map_eq_some_iff.1 h
    exact .plain .typeAlias rfl (by decide) (fun _ hh => nomatch hh) rfl
      (by simp [isConstructorNode, hk]) hname
  · next o hk =>
    obtain rfl := List.mem_singleton.1 h
    exact ⟨.secondaryConstructor (howner o rfl) hk, .inl ⟨fun _ hh => hh, rfl,
      fun _ => by simp [isConstructorNode, hk], fun hc => absurd rfl hc⟩⟩
  · next o hk =>
    have h := Option.mem_toList.1 h
    refine ⟨.enumEntry (howner o rfl) hk h, .inl ?_⟩
    obtain ⟨name, hname, rfl⟩ := Option.map_eq_some_iff.1 h
    exact .plain .enumEntry rfl (by decide) (fun _ hh => hh) rfl
      (by simp [isConstructorNode, hk]) hname
  · next o hk =>
    have h := Option.mem_toList.1 h
    refine ⟨.boundParameter (howner o rfl) hk h, .inl ?_⟩
    obtain ⟨_, -, h⟩ := Option.bind_eq_some_iff.1 h
    obtain ⟨name, hname, h⟩ := Option.bind_eq_some_iff.1 h
    cases h
    exact .plain .property rfl (by decide) (fun _ hh => hh) rfl
      (by simp [isConstructorNode, hk]) hname
  · cases h

/-! ### The class of a member -/

theorem qualifiedName?_eq {package : Option String} {n : Node} {source : String}
    (h : ¬ (n.kind = "class_parameter" ∧ binding? n source = none)) :
    qualifiedName? package n source = QualifiedName.inside? package (containerNames? n source)
      (if isConstructorNode n then some [] else (declarationName? n source).map ([·])) := by
  rw [qualifiedName?, if_neg h]
  unfold QualifiedName.inside?
  split <;> rfl

/-- A part of a class is named after the class: a constructor like it, and anything else with its
own name behind. -/
theorem qualifiedName?_of_partOf {package : Option String} {source name q : String} {n m : Node}
    (h : PartOf n m) (hk : n.kind ∈ classKinds) (hname : declarationName? n source = some name)
    (hq : qualifiedName? package m source = some q) :
    ∃ o, qualifiedName? package n source = some o ∧
      (isConstructorNode m = true → q = o) ∧
      (isConstructorNode m = false →
        ∃ own, declarationName? m source = some own ∧ q = o ++ "." ++ own) := by
  obtain ⟨misread, hthrough⟩ := h.through
  obtain ⟨hconstructor, hparameter⟩ := kind_of_mem_classKinds hk
  have hbound : ¬ (m.kind = "class_parameter" ∧ binding? m source = none) := by
    intro h
    rw [qualifiedName?, if_pos h] at hq
    cases hq
  rw [qualifiedName?_eq hbound] at hq
  obtain ⟨names, hnames, -⟩ := Option.bind_eq_some_iff.1 hq
  obtain ⟨above, habove, rfl⟩ := namesAround?_of_through (declarationName? · source)
    hthrough (fun _ hin => (of_mem_wayKinds hin).1) hk hname hnames
  have habove : containerNames? n source = some above := habove
  rw [hnames] at hq
  rw [qualifiedName?_eq (fun h => hparameter h.1), habove, hconstructor, hname]
  exact QualifiedName.inside?_member hq

/-- What is written at a part of a class is a member of the class. -/
theorem WrittenAt.memberOf {f : SourceFile} {outer : Option Handle} {n m : Node} {name : String}
    {s : Symbol} (h : WrittenAt f (some (ownerAt f n name).handle) m s) (hpart : PartOf n m)
    (hk : n.kind ∈ classKinds) (hname : declarationName? n f.text = some name)
    (hp : s.parent ≠ none) : MemberOf (classSymbol f outer name n) s := by
  obtain ⟨p, hp⟩ := Option.ne_none_iff_exists'.1 hp
  refine ⟨hp.trans (h.parent p hp).symm, .of_declaration ?_ h.constructor h.named⟩
  exact fun q hq => qualifiedName?_of_partOf hpart hk hname (h.qualified.symm.trans hq)

/-- **A symbol with a parent is a member of a class of the file**: it is introduced by the node of
the class, or by one of its parts. -/
theorem exists_class_of_parent {f : SourceFile} {s : Symbol} (hs : s ∈ symbols f)
    (hp : s.parent ≠ none) :
    ∃ n m c, Within f.tree n ∧ n.kind ∈ classKinds ∧ Introduces f n c ∧ c ∈ symbols f ∧
      c.kind.isClassifier = true ∧ Introduces f m s ∧ (m = n ∨ PartOf n m) ∧
      s.parent = some c.handle ∧ s.NamedAfter c := by
  obtain ⟨misread, owner, m, hm, hdeclared⟩ := ofMet_of_mem_symbols hs
  obtain ⟨hintro, hwritten | ⟨name, hk, hname, hmember⟩⟩ :=
    declaredAt_cases hm.file_owner hdeclared
  · cases owner with
    | none =>
        obtain ⟨p, hp⟩ := Option.ne_none_iff_exists'.1 hp
        cases hwritten.parent p hp
    | some o =>
        obtain ⟨outer, owner, n, name, hn, hk, hname, rfl, hpart⟩ := hm.exists_class
        have hcls : classSymbol f (owner.map Owner.handle) name n ∈ declaredAt f owner n := by
          simp [declaredAt_class hk hname, classOwn]
        have hmember : MemberOf (classSymbol f (owner.map Owner.handle) name n) s :=
          hwritten.memberOf hpart hk hname hp
        exact ⟨n, m, _, hn.within, hk, (declaredAt_cases hn.file_owner hcls).1,
          mem_symbols_of_ofMet ⟨outer, owner, n, hn, hcls⟩, (isClass_classSymbol f _ name n).1,
          hintro, .inr hpart, hmember.parent, hmember.named⟩
  · have hcls : classSymbol f (owner.map Owner.handle) name m ∈ declaredAt f owner m := by
      simp [declaredAt_class hk hname, classOwn]
    exact ⟨m, m, _, hm.within, hk, (declaredAt_cases hm.file_owner hcls).1,
      mem_symbols_of_ofMet ⟨misread, owner, m, hm, hcls⟩, (isClass_classSymbol f _ name m).1,
      hintro, .inl rfl, hmember.parent, hmember.named⟩

end Crossref.Kotlin
