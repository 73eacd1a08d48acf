import Crossref.Proofs.Java.Walk
import Crossref.Proofs.SourceFile.Names

/-!
# Proofs — Java — members and their classes

A member takes its parent from the walk over the file and its qualified name from the nodes around
it.  Both tell the same class as long as the body of a class is no class itself.  The fields of one
declaration are qualified like the first of them, up to the name behind the last dot, so they are
qualified rightly when no variable has a dot in its name.

* `exists_class_of_parent`: a symbol with a parent is a member of a class of the file.
-/

namespace Crossref.Java
open Node

/-- The tree is as the language has it: the body of a class is no class itself, and no variable has
a dot in its name. -/
structure Regular (t : Tree) (source : String) : Prop where
  body : ∀ n, Within t n → n.kind ∈ classKinds → ∀ body ∈ n.childInField? "body",
    body.kind ∉ classKinds
  undotted : ∀ n, Within t n → n.kind = "variable_declarator" → ∀ name ∈ nameField? n source,
    '.' ∉ name.toList

instance (t : Tree) (source : String) : Decidable (Regular t source) :=
  decidable_of_iff
    ((∀ n ∈ (ofTree t).preorder, n.kind ∈ classKinds → ∀ body ∈ n.childInField? "body",
        body.kind ∉ classKinds) ∧
      ∀ n ∈ (ofTree t).preorder, n.kind = "variable_declarator" → ∀ name ∈ nameField? n source,
        '.' ∉ name.toList)
    ⟨fun h => ⟨fun n hn => h.1 n (within_iff_mem_preorder.1 hn),
        fun n hn => h.2 n (within_iff_mem_preorder.1 hn)⟩,
      fun h => ⟨fun n hn => h.body n (within_iff_mem_preorder.2 hn),
        fun n hn => h.undotted n (within_iff_mem_preorder.2 hn)⟩⟩

/-! ### The parts of a class -/

/-- The node is a constant of the class at `n` or is written in its body. -/
inductive PartOf (n : Node) : Node → Prop where
  | constant {c : Node} (hc : c ∈ constantsOf n) : PartOf n c
  | member {m : Node} (hm : m ∈ membersOf n) : PartOf n m

/-- The way from a class to what is written in its body. -/
theorem PartOf.through {n m : Node} (h : PartOf n m) :
    ∃ body, n.childInField? "body" = some body ∧
      Through [body.kind, "enum_body_declarations"] n m := by
  cases h with
  | constant hc =>
      unfold constantsOf at hc
      cases hb : n.childInField? "body" with
      | none => simp [hb] at hc
      | some body =>
          rw [hb] at hc
          exact ⟨body, rfl, .step (.child (mem_of_childInField? hb)) (by simp)
            (mem_childrenOfKind_iff.1 hc).1⟩
  | member hm =>
      unfold membersOf at hm
      cases hb : n.childInField? "body" with
      | none => simp [hb] at hm
      | some body =>
          rw [hb] at hm
          refine ⟨body, rfl, ?_⟩
          obtain ⟨c, hc, hm⟩ := List.mem_flatMap.1 hm
          have hthrough : Through [body.kind, "enum_body_declarations"] n c :=
            .step (.child (mem_of_childInField? hb)) (by simp) hc
          split at hm
          · next hk => exact .step hthrough (by simp [hk]) hm
          · obtain rfl := List.mem_singleton.1 hm
            exact hthrough

theorem PartOf.below {n m : Node} (h : PartOf n m) : Below n m := by
  obtain ⟨_, -, h⟩ := h.through
  exact h.toBelow

theorem Met.within {f : SourceFile} {owner : Option Symbol} {n : Node} (h : Met f owner n) :
    Within f.tree n := by
  induction h with
  | top hc _ => exact .child .top hc
  | constant _ _ _ hc ih => exact (PartOf.constant hc).below.within ih
  | member _ _ _ hm _ ih => exact (PartOf.member hm).below.within ih

/-- What belongs to a class is a part of a class that is met. -/
theorem Met.exists_class {f : SourceFile} {cls : Symbol} {m : Node} (h : Met f (some cls) m) :
    ∃ owner n name, Met f owner n ∧ n.kind ∈ classKinds ∧
      declarationName? n f.text = some name ∧
      cls = classSymbol f (owner.map Symbol.handle) name n ∧ PartOf n m := by
  cases h with
  | @constant owner n _ name hn hk hname hc =>
      exact ⟨owner, n, name, hn, hk, hname, rfl, .constant hc⟩
  | @member owner n _ name hn hk hname hm _ =>
      exact ⟨owner, n, name, hn, hk, hname, rfl, .member hm⟩

/-! ### Qualified names -/

/-- A class is neither a constructor nor a field. -/
theorem kind_of_mem_classKinds {n : Node} (h : n.kind ∈ classKinds) :
    constructorKinds.contains n.kind = false ∧ fieldKinds.contains n.kind = false := by
  simp only [classKinds, List.mem_cons, List.not_mem_nil, or_false] at h
  rcases h with h | h | h | h | h <;> rw [h] <;> decide

theorem qualifiedName?_eq (package : Option String) (n : Node) (source : String) :
    qualifiedName? package n source = QualifiedName.inside? package (containerNames? n source)
      (if constructorKinds.contains n.kind then some []
        else (declarationName? n source).map ([·])) := by
  unfold qualifiedName? QualifiedName.inside?
  split <;> rfl

/-- A part of a class is named after the class: a constructor like it, and anything else with its
own name behind. -/
theorem qualifiedName?_of_partOf {package : Option String} {source name q : String} {n m : Node}
    (h : PartOf n m) (hk : n.kind ∈ classKinds)
    (hbody : ∀ body, n.childInField? "body" = some body → body.kind ∉ classKinds)
    (hname : declarationName? n source = some name)
    (hq : qualifiedName? package m source = some q) :
    ∃ o, qualifiedName? package n source = some o ∧
      (constructorKinds.contains m.kind = true → q = o) ∧
      (constructorKinds.contains m.kind = false →
        ∃ own, declarationName? m source = some own ∧ q = o ++ "." ++ own) := by
  obtain ⟨body, hb, hthrough⟩ := h.through
  have hway : ∀ k ∈ [body.kind, "enum_body_declarations"], k ∉ classKinds := by
    intro k hin
    rcases List.mem_cons.1 hin with rfl | hin
    · exact hbody body hb
    · obtain rfl := List.mem_singleton.1 hin
      decide
  rw [qualifiedName?_eq] at hq
  obtain ⟨names, hnames, -⟩ := Option.bind_eq_some_iff.1 hq
  obtain ⟨above, habove, rfl⟩ := namesAround?_of_through (declarationName? · source)
    hthrough hway hk hname hnames
  have habove : containerNames? n source = some above := habove
  rw [hnames] at hq
  rw [qualifiedName?_eq, habove, (kind_of_mem_classKinds hk).1, hname]
  exact QualifiedName.inside?_member hq

/-! ### What a declaration introduces -/

/-- The symbol is a member of the class; in a regular tree it is named after it. -/
structure MemberOf (f : SourceFile) (cls s : Symbol) : Prop where
  parent : s.parent = some cls.handle
  named : Regular f.tree f.text → s.NamedAfter cls

/-- What a class introduces besides itself is its constructor. -/
theorem memberOf_of_mem_classOwn {f : SourceFile} {cls s : Symbol} {n : Node}
    (h : s ∈ classOwn f cls n) : s = cls ∨ MemberOf f cls s := by
  rcases List.mem_append.1 h with h | h
  · have h := Option.mem_toList.1 h
    unfold implicitConstructor? at h
    obtain ⟨-, h⟩ := Option.ite_none_right_eq_some.1 h
    cases h
    exact .inr ⟨rfl, fun _ q hq => ⟨q, hq, rfl⟩⟩
  · exact .inl (List.mem_singleton.1 h)

theorem isClassifier_classSymbol (f : SourceFile) (parent : Option Handle) (name : String)
    (n : Node) : (classSymbol f parent name n).kind.isClassifier = true := by
  have hkind : (classSymbol f parent name n).kind = classKind n := rfl
  rw [hkind, classKind]
  split <;> rfl

section Parts

variable {f : SourceFile} {parent : Option Handle} {n m : Node} {name : String} {s : Symbol}
  (hn : Within f.tree n) (hk : n.kind ∈ classKinds) (hname : declarationName? n f.text = some name)
  (hpart : PartOf n m)
include hn hk hname hpart

/-- The fields of one declaration are members of its class, the later ones too. -/
theorem memberOf_of_mem_fieldSymbols (hmk : m.kind ∈ fieldKinds)
    (h : s ∈ fieldSymbols f (classSymbol f parent name n) m) :
    MemberOf f (classSymbol f parent name n) s := by
  obtain ⟨⟨declarator, slot⟩, -, h⟩ := List.mem_filterMap.1 h
  obtain ⟨own, -, rfl⟩ := Option.map_eq_some_iff.1 h
  refine ⟨rfl, fun hf q hq => ?_⟩
  obtain ⟨cut, hcut, rfl⟩ := Option.map_eq_some_iff.1 hq
  obtain ⟨first, hfirst, hcut⟩ := Option.bind_eq_some_iff.1 hcut
  obtain ⟨o, ho, -, hown⟩ := qualifiedName?_of_partOf hpart hk (hf.body n hn hk) hname hfirst
  have hconstructor : constructorKinds.contains m.kind = false := by
    simp only [fieldKinds, List.mem_cons, List.not_mem_nil, or_false] at hmk
    rcases hmk with hmk | hmk <;> rw [hmk] <;> decide
  obtain ⟨firstName, hdeclared, rfl⟩ := hown hconstructor
  -- the declaration is named by its first variable, and that is what the last dot cuts off
  have hdot : '.' ∉ firstName.toList := by
    rw [declarationName?, if_pos (List.contains_iff_mem.2 hmk)] at hdeclared
    obtain ⟨d, hd, hdname⟩ := Option.bind_eq_some_iff.1 hdeclared
    obtain ⟨hdmem, hdk⟩ := mem_of_childOfKind? hd
    exact hf.undotted d ((hpart.below.within hn).child hdmem) hdk _ hdname
  rw [Text.beforeLast?_append hdot] at hcut
  cases hcut
  exact ⟨_, ho, rfl⟩

/-- What has the names of a part of a class is named after the class. -/
theorem namedAfter_of_partOf (hq : s.qualifiedName = qualifiedName? f.package m f.text)
    (hconstructor : s.kind = .constructor → constructorKinds.contains m.kind = true)
    (hplain : s.kind ≠ .constructor → constructorKinds.contains m.kind = false ∧
      declarationName? m f.text = some s.name) (hf : Regular f.tree f.text) :
    s.NamedAfter (classSymbol f parent name n) := by
  refine .of_declaration (fun q hs => ?_) hconstructor hplain
  exact qualifiedName?_of_partOf hpart hk (hf.body n hn hk) hname (hq.symm.trans hs)

theorem memberOf_of_enumConstant (hmk : m.kind = "enum_constant")
    (h : enumConstantSymbol? f (classSymbol f parent name n) m = some s) :
    Introduces f m s ∧ MemberOf f (classSymbol f parent name n) s := by
  refine ⟨.enumConstant rfl hmk h, ?_⟩
  obtain ⟨own, hown, rfl⟩ := Option.map_eq_some_iff.1 h
  refine ⟨rfl, namedAfter_of_partOf hn hk hname hpart rfl (fun hs => nomatch hs) fun _ => ?_⟩
  exact ⟨by rw [hmk]; decide, hown⟩

/-- A class in the body of a class is a member of it. -/
theorem memberOf_of_class {own : String} (hmk : m.kind ∈ classKinds)
    (hown : declarationName? m f.text = some own) :
    MemberOf f (classSymbol f parent name n)
      (classSymbol f (some (classSymbol f parent name n).handle) own m) := by
  refine ⟨rfl, namedAfter_of_partOf hn hk hname hpart rfl (fun hs => ?_) fun _ => ?_⟩
  · have hclass := isClassifier_classSymbol f (some (classSymbol f parent name n).handle) own m
    rw [hs] at hclass
    cases hclass
  · exact ⟨(kind_of_mem_classKinds hmk).1, hown⟩

/-- What is written in the body of a class are members of the class. -/
theorem memberOf_of_mem_leafSymbols (h : s ∈ leafSymbols f (classSymbol f parent name n) m) :
    Introduces f m s ∧ MemberOf f (classSymbol f parent name n) s := by
  unfold leafSymbols at h
  split at h
  · next hmk =>
    have h := Option.mem_toList.1 h
    refine ⟨.method rfl hmk h, ?_⟩
    obtain ⟨own, hown, rfl⟩ := Option.map_eq_some_iff.1 h
    refine ⟨rfl, namedAfter_of_partOf hn hk hname hpart rfl (fun hs => nomatch hs) fun _ => ?_⟩
    exact ⟨by rw [hmk]; decide, hown⟩
  · split at h
    · next hmk =>
      obtain rfl := List.mem_singleton.1 h
      refine ⟨.constructor rfl (List.contains_iff_mem.1 hmk), rfl, ?_⟩
      exact namedAfter_of_partOf hn hk hname hpart rfl (fun _ => hmk) fun hs => absurd rfl hs
    · split at h
      · next hmk =>
        have hmk := List.contains_iff_mem.1 hmk
        have hup : n ∈ m.ancestors := by
          obtain ⟨_, -, hthrough⟩ := hpart.through
          obtain ⟨c, hc, hb⟩ := hthrough.exists_child
          exact mem_ancestors_of_below hc hb
        exact ⟨.field rfl hmk hup hk h, memberOf_of_mem_fieldSymbols hn hk hname hpart hmk h⟩
      · cases h

end Parts

/-! ### The class of a member -/

theorem Met.file_owner {f : SourceFile} {owner : Option Symbol} {n : Node} (h : Met f owner n) :
    ∀ p ∈ owner.map Symbol.handle, p.file = f.id := by
  cases h with
  | top _ _ => exact fun _ hp => nomatch hp
  | constant _ _ _ _ => rintro _ ⟨⟩; rfl
  | member _ _ _ _ _ => rintro _ ⟨⟩; rfl

theorem introduces_of_mem_classOwn {f : SourceFile} {parent : Option Handle} {name : String}
    {n : Node} {s : Symbol} (hp : ∀ h ∈ parent, h.file = f.id) (hk : n.kind ∈ classKinds)
    (hname : declarationName? n f.text = some name)
    (h : s ∈ classOwn f (classSymbol f parent name n) n) : Introduces f n s := by
  rcases List.mem_append.1 h with h | h
  · exact .implicitConstructor hk (Option.mem_toList.1 h)
  · obtain rfl := List.mem_singleton.1 h
    exact .classifier hp hk hname

/-- The symbol of a class that is met is one of the file. -/
theorem Met.mem_symbols {f : SourceFile} {owner : Option Symbol} {n : Node} {name : String}
    (hn : Met f owner n) (hk : n.kind ∈ classKinds)
    (hname : declarationName? n f.text = some name) :
    Introduces f n (classSymbol f (owner.map Symbol.handle) name n) ∧
      classSymbol f (owner.map Symbol.handle) name n ∈ symbols f := by
  have hmem : classSymbol f (owner.map Symbol.handle) name n ∈
      classOwn f (classSymbol f (owner.map Symbol.handle) name n) n :=
    List.mem_append_right _ (List.mem_singleton_self _)
  refine ⟨introduces_of_mem_classOwn hn.file_owner hk hname hmem, mem_symbols_of_ofMet ?_⟩
  exact ⟨owner, n, hn, by rwa [declaredAt_class hk hname]⟩

/-- What belongs to a class and is no class is a member of it. -/
theorem Met.memberOf {f : SourceFile} {owner : Option Symbol} {n m : Node} {name : String}
    {s : Symbol} (hn : Met f owner n) (hk : n.kind ∈ classKinds)
    (hname : declarationName? n f.text = some name) (hpart : PartOf n m) (hmk : m.kind ∉ classKinds)
    (h : s ∈ declaredAt f (some (classSymbol f (owner.map Symbol.handle) name n)) m) :
    Introduces f m s ∧ MemberOf f (classSymbol f (owner.map Symbol.handle) name n) s := by
  by_cases hconstant : m.kind = "enum_constant"
  · rw [declaredAt_constant hconstant] at h
    exact memberOf_of_enumConstant hn.within hk hname hpart hconstant (Option.mem_toList.1 h)
  · rw [declaredAt_leaf hmk hconstant] at h
    exact memberOf_of_mem_leafSymbols hn.within hk hname hpart h

/-- **A symbol with a parent is a member of a class of the file**: it is introduced by the node of
the class, or by one of its parts. -/
theorem exists_class_of_parent {f : SourceFile} {s : Symbol} (hs : s ∈ symbols f)
    (hp : s.parent ≠ none) :
    ∃ n m c, Within f.tree n ∧ n.kind ∈ classKinds ∧ Introduces f n c ∧ c ∈ symbols f ∧
      c.kind.isClassifier = true ∧ Introduces f m s ∧ (m = n ∨ PartOf n m) ∧
      s.parent = some c.handle ∧ (Regular f.tree f.text → s.NamedAfter c) := by
  obtain ⟨owner, m, hm, hdeclared⟩ := ofMet_of_mem_symbols hs
  by_cases hmk : m.kind ∈ classKinds
  · cases hown : declarationName? m f.text with
    | none => simp [declaredAt, hmk, hown] at hdeclared
    | some own =>
        rw [declaredAt_class hmk hown] at hdeclared
        have hintro := introduces_of_mem_classOwn hm.file_owner hmk hown hdeclared
        rcases memberOf_of_mem_classOwn hdeclared with rfl | hmember
        · -- the class itself is a member of the class around it
          cases owner with
          | none => exact absurd rfl hp
          | some cls =>
              obtain ⟨owner, n, name, hn, hk, hname, rfl, hpart⟩ := hm.exists_class
              obtain ⟨hclass, hmem⟩ := hn.mem_symbols hk hname
              have hmember : MemberOf f (classSymbol f (owner.map Symbol.handle) name n) _ :=
                memberOf_of_class hn.within hk hname hpart hmk hown
              exact ⟨n, m, _, hn.within, hk, hclass, hmem, isClassifier_classSymbol f _ name n,
                hintro, .inr hpart, hmember.parent, hmember.named⟩
        · obtain ⟨hclass, hmem⟩ := hm.mem_symbols hmk hown
          exact ⟨m, m, _, hm.within, hmk, hclass, hmem, isClassifier_classSymbol f _ own m, hintro,
            .inl rfl, hmember.parent, hmember.named⟩
  · cases owner with
    | none => simp [declaredAt, hmk] at hdeclared
    | some cls =>
        obtain ⟨owner, n, name, hn, hk, hname, rfl, hpart⟩ := hm.exists_class
        obtain ⟨hintro, hmember⟩ := hn.memberOf hk hname hpart hmk hdeclared
        obtain ⟨hclass, hmem⟩ := hn.mem_symbols hk hname
        exact ⟨n, m, _, hn.within, hk, hclass, hmem, isClassifier_classSymbol f _ name n, hintro,
          .inr hpart, hmember.parent, hmember.named⟩

end Crossref.Java
