import Crossref.Proofs.Kotlin.Symbols
import Crossref.Proofs.SourceFile.Names

/-!
# Proofs — Kotlin — constructors and the names of their classes

A constructor is known by the qualified name of its class.  The one in the head of a class takes the
class's name as it is, and one that is written in the body has the same name, because the body lies
directly below the class.  In a body that was read as a delegate's lambda nothing has a qualified
name.  So a constructor that has one belongs to a class of the file that has it, too.

* `qualifiedName?_secondaryConstructor`: a constructor in a body is named like the class.
* `owned_of_mem_symbols`: a constructor with a qualified name shares it with its class.
-/

namespace Crossref.Kotlin
open Node

/-! ### The name of a constructor in a body -/

/-- A class does not make what it holds local. -/
theorem localScope_of_mem_classKinds {kind : String} (h : kind ∈ classKinds) :
    localScopeKinds.contains kind = false := by
  simp only [classKinds, List.mem_cons, List.not_mem_nil, or_false] at h
  rcases h with rfl | rfl | rfl <;> decide

/-- A class is neither a constructor nor a parameter of one. -/
theorem kind_of_mem_classKinds {n : Node} (h : n.kind ∈ classKinds) :
    isConstructorNode n = false ∧ n.kind ≠ "class_parameter" := by
  simp only [classKinds, List.mem_cons, List.not_mem_nil, or_false] at h
  rcases h with h | h | h <;> simp [isConstructorNode, h]

/-- The body of a class is a child of one of two kinds. -/
theorem kind_of_classBody? {n body : Node} (h : classBody? n = some body) :
    body ∈ n.children ∧ (body.kind = "class_body" ∨ body.kind = "enum_class_body") := by
  rcases Option.or_eq_some_iff.1 h with h | ⟨-, h⟩
  · exact ⟨(mem_of_childOfKind? h).1, .inl (mem_of_childOfKind? h).2⟩
  · exact ⟨(mem_of_childOfKind? h).1, .inr (mem_of_childOfKind? h).2⟩

/-- Around what is written in the body of a class there is the class, and what is around it. -/
theorem containerNames?_of_classBody? {source name : String} {n body c : Node}
    (hbody : classBody? n = some body) (hc : c ∈ body.children) (hk : n.kind ∈ classKinds)
    (hname : declarationName? n source = some name) :
    containerNames? c source = (containerNames? n source).map (· ++ [name]) := by
  obtain ⟨hchild, hbodyKind⟩ := kind_of_classBody? hbody
  have hway : c.ancestors = [body] ++ n :: n.ancestors := by
    rw [ancestors_of_mem_children hc, ancestors_of_mem_children hchild, List.singleton_append]
  have hclasses : ∀ a ∈ [body], a.kind ∉ classKinds := by
    intro a ha
    obtain rfl := List.mem_singleton.1 ha
    rcases hbodyKind with h | h <;> rw [h] <;> decide
  have hscopes : ([body] ++ [n]).any (fun a => localScopeKinds.contains a.kind) = false := by
    rw [List.singleton_append, List.any_cons, List.any_cons, localScope_of_mem_classKinds hk]
    rcases hbodyKind with h | h <;> rw [h] <;> decide
  have hnames :=
    namesAround?_of_way localScopeKinds (declarationName? · source) hway hclasses hk hname
  rw [hscopes, if_neg Bool.false_ne_true] at hnames
  exact hnames

/-- A constructor in the body of a class has the class's qualified name. -/
theorem qualifiedName?_secondaryConstructor {package : Option String} {source name : String}
    {n body c : Node} (hbody : classBody? n = some body) (hc : c ∈ body.children)
    (hk : n.kind ∈ classKinds) (hname : declarationName? n source = some name)
    (hck : c.kind = "secondary_constructor") :
    qualifiedName? package c source = qualifiedName? package n source := by
  obtain ⟨hconstructor, hparameter⟩ := kind_of_mem_classKinds hk
  have hown : isConstructorNode c = true := by simp [isConstructorNode, hck]
  rw [qualifiedName?, qualifiedName?, containerNames?_of_classBody? hbody hc hk hname]
  cases containerNames? n source <;> simp [hck, hparameter, hconstructor, hown, hname]

/-- What is written in a local scope has no qualified name. -/
theorem qualifiedName?_of_localScope {package : Option String} {source : String} {n c : Node}
    (hn : n ∈ c.ancestors) (hk : n.kind ∈ localScopeKinds) :
    qualifiedName? package c source = none := by
  have hlocal : (c.ancestors.any fun a => localScopeKinds.contains a.kind) = true :=
    List.any_eq_true.2 ⟨n, hn, List.contains_iff_mem.2 hk⟩
  rw [qualifiedName?, containerNames?, if_pos hlocal]
  split <;> rfl

/-! ### Constructors and their classes -/

theorem subset_flatMap_of_mem {α β : Type} {g : α → List β} {xs : List α} {x : α} (h : x ∈ xs) :
    g x ⊆ xs.flatMap g :=
  fun _ hy => List.mem_flatMap.2 ⟨x, h, hy⟩

/-- The symbol is a class or an object. -/
def IsClass (c : Symbol) : Prop := c.kind.isClassifier = true ∧ c.kind ≠ .typeAlias

/-- A constructor with a qualified name is one of a class among the symbols, and has its name from
it. -/
def OwnedIn (symbols : List Symbol) (s : Symbol) : Prop :=
  s.kind = .constructor → s.qualifiedName ≠ none →
    ∃ c ∈ symbols, IsClass c ∧ s.parent = some c.handle ∧ s.qualifiedName = c.qualifiedName

namespace OwnedIn

variable {symbols others : List Symbol} {s : Symbol}

/-- More symbols own what fewer own. -/
theorem mono (h : OwnedIn symbols s) (hsub : symbols ⊆ others) : OwnedIn others s := by
  intro hk hq
  obtain ⟨c, hc, howner⟩ := h hk hq
  exact ⟨c, hsub hc, howner⟩

/-- Only constructors are owned by a class. -/
theorem of_kind_ne (h : s.kind ≠ .constructor) : OwnedIn symbols s := fun hk => absurd hk h

end OwnedIn

/-- The symbol of a class is a classifier and no alias. -/
theorem isClass_classSymbol (f : SourceFile) (parent : Option Handle) (name : String) (n : Node) :
    IsClass (classSymbol f parent name n) := by
  have hkind : (classSymbol f parent name n).kind = classKind n f.text := rfl
  rw [IsClass, hkind, classKind]
  (repeat' split) <;> exact ⟨rfl, by decide⟩

/-! ### The walk over a file -/

section Walk

variable {f : SourceFile} {s : Symbol}

theorem kind_of_functionSymbol? {parent : Option Handle} {n : Node}
    (h : functionSymbol? f parent n = some s) : s.kind = .function := by
  obtain ⟨_, -, rfl⟩ := Option.map_eq_some_iff.1 h
  rfl

theorem kind_of_propertySymbol? {parent : Option Handle} {n : Node}
    (h : propertySymbol? f parent n = some s) : s.kind = .property := by
  obtain ⟨_, -, h⟩ := Option.bind_eq_some_iff.1 h
  obtain ⟨_, -, h⟩ := Option.bind_eq_some_iff.1 h
  cases h
  rfl

theorem kind_of_aliasSymbol? {n : Node} (h : aliasSymbol? f n = some s) : s.kind = .typeAlias := by
  obtain ⟨_, -, rfl⟩ := Option.map_eq_some_iff.1 h
  rfl

theorem kind_of_enumEntrySymbol? {cls : Handle} {name : String} {n : Node}
    (h : enumEntrySymbol? f cls name n = some s) : s.kind = .enumEntry := by
  obtain ⟨_, -, rfl⟩ := Option.map_eq_some_iff.1 h
  rfl

/-- A parameter in the head of a class is indexed as a property. -/
theorem kind_of_boundParameterSymbol? {cls : Handle} {n : Node}
    (h : boundParameterSymbol? f cls n = some s) : s.kind = .property := by
  obtain ⟨_, -, h⟩ := Option.bind_eq_some_iff.1 h
  obtain ⟨_, -, h⟩ := Option.bind_eq_some_iff.1 h
  cases h
  rfl

theorem kind_of_mem_dataMembers {cls : Symbol} {properties : List Symbol}
    (h : s ∈ dataMembers f cls properties) : s.kind = .function := by
  rcases List.mem_append.1 h with h | h
  · obtain ⟨_, -, rfl⟩ := List.mem_map.1 h
    rfl
  · obtain rfl := List.mem_singleton.1 h
    rfl

theorem kind_of_mem_enumMembers {cls : Symbol} (h : s ∈ enumMembers f cls) :
    s.kind = .function := by
  simp only [enumMembers, List.mem_cons, List.not_mem_nil, or_false] at h
  rcases h with rfl | rfl <;> rfl

/-- The constructor in the head of a class is owned by the class. -/
theorem owned_of_mem_headSymbols {parent : Option Handle} {name : String} {n : Node}
    (h : s ∈ headSymbols f (classSymbol f parent name n) n) :
    OwnedIn (headSymbols f (classSymbol f parent name n) n) s := by
  have hcls : classSymbol f parent name n ∈ headSymbols f (classSymbol f parent name n) n := by
    simp [headSymbols]
  have hclass := isClass_classSymbol f parent name n
  have hmem := h
  simp only [headSymbols, List.mem_append, List.mem_singleton] at hmem
  rcases hmem with (((h | h) | h) | h) | rfl
  · obtain ⟨p, -, hp⟩ := List.mem_filterMap.1 h
    exact .of_kind_ne (by simp [kind_of_boundParameterSymbol? hp])
  · intro _ _
    have hconstructor := Option.mem_toList.1 h
    unfold headConstructor? at hconstructor
    obtain ⟨-, hconstructor⟩ := Option.ite_none_right_eq_some.1 hconstructor
    cases hconstructor
    exact ⟨_, hcls, hclass, rfl, rfl⟩
  · split at h
    · exact .of_kind_ne (by simp [kind_of_mem_dataMembers h])
    · cases h
  · split at h
    · exact .of_kind_ne (by simp [kind_of_mem_enumMembers h])
    · cases h
  · refine .of_kind_ne fun hk => ?_
    rw [IsClass, hk] at hclass
    cases hclass.1

/-- A constructor in a body belongs to the class around it, from which it has its name when it has
one. -/
theorem owned_secondaryConstructor {cls : Symbol} {name : String} {c : Node} (hcls : IsClass cls)
    (hq : qualifiedName? f.package c f.text = none ∨
      qualifiedName? f.package c f.text = cls.qualifiedName) :
    OwnedIn [cls] (secondaryConstructorSymbol f cls.handle name c) := by
  intro _ hne
  rcases hq with hq | hq
  · exact absurd hq hne
  · exact ⟨cls, List.mem_singleton_self _, hcls, rfl, hq⟩

mutual

/-- Every constructor that a class introduces is one of a class among what it introduces. -/
theorem owned_of_mem_classSymbols : ∀ {fuel : Nat} {parent : Option Handle} {n : Node},
    n.kind ∈ classKinds → s ∈ classSymbols f fuel parent n →
      OwnedIn (classSymbols f fuel parent n) s
  | 0, _, _, _, h => by cases h
  | fuel + 1, parent, n, hk, h => by
      unfold classSymbols at h ⊢
      split at h
      · cases h
      · next name hname =>
        have hclass := isClass_classSymbol f parent name n
        have hcls : classSymbol f parent name n ∈
            headSymbols f (classSymbol f parent name n) n := by
          simp [headSymbols]
        rcases List.mem_append.1 h with h | h
        · exact (owned_of_mem_headSymbols h).mono (List.subset_append_left _ _)
        · revert h
          split
          · next body hbody =>
            intro h
            have howned := owned_of_mem_memberSymbols hclass (fun c hc hck =>
              .inr (qualifiedName?_secondaryConstructor hbody hc hk hname hck)) h
            refine howned.mono (List.cons_subset.2 ⟨List.mem_append_left _ hcls, ?_⟩)
            exact List.subset_append_right _ _
          · intro h
            obtain ⟨d, hd, h⟩ := List.mem_flatMap.1 h
            have howned := owned_of_mem_misplacedSymbols hclass h
            refine howned.mono (List.cons_subset.2 ⟨List.mem_append_left _ hcls, ?_⟩)
            exact List.Subset.trans (subset_flatMap_of_mem hd) (List.subset_append_right _ _)

/-- Every constructor in a body is one of the class around the body, or of a class in it. -/
theorem owned_of_mem_memberSymbols : ∀ {fuel : Nat} {cls : Symbol} {name : String} {body : Node},
    IsClass cls →
    (∀ c ∈ body.children, c.kind = "secondary_constructor" →
      qualifiedName? f.package c f.text = none ∨
        qualifiedName? f.package c f.text = cls.qualifiedName) →
    s ∈ memberSymbols f fuel cls.handle name body →
      OwnedIn (cls :: memberSymbols f fuel cls.handle name body) s
  | 0, _, _, _, _, _, h => by cases h
  | fuel + 1, cls, name, body, hcls, hq, h => by
      rw [memberSymbols] at h ⊢
      obtain ⟨c, hc, h⟩ := List.mem_flatMap.1 h
      -- it is enough to look at what this one member introduces
      refine OwnedIn.mono ?_ (List.cons_subset_cons _ (subset_flatMap_of_mem hc))
      have howned {parent : Option Handle} (hk : c.kind ∈ classKinds)
          (h : s ∈ classSymbols f fuel parent c) :
          OwnedIn (cls :: classSymbols f fuel parent c) s :=
        (owned_of_mem_classSymbols hk h).mono (List.subset_cons_self _ _)
      revert h
      split
      · next hk => exact howned (by simp [classKinds, hk])
      · next hk => exact howned (by simp [classKinds, hk])
      · next hk => exact howned (by simp [classKinds, hk])
      · intro h
        exact .of_kind_ne (by simp [kind_of_functionSymbol? (Option.mem_toList.1 h)])
      · intro h
        exact .of_kind_ne (by simp [kind_of_propertySymbol? (Option.mem_toList.1 h)])
      · next hk =>
        intro h
        obtain rfl := List.mem_singleton.1 h
        exact (owned_secondaryConstructor hcls (hq c hc hk)).mono (by simp)
      · intro h
        exact .of_kind_ne (by simp [kind_of_enumEntrySymbol? (Option.mem_toList.1 h)])
      · intro h
        cases h

/-- So is every constructor below a supertype. -/
theorem owned_of_mem_misplacedSymbols : ∀ {fuel : Nat} {cls : Symbol} {name : String} {n : Node},
    IsClass cls → s ∈ misplacedSymbols f fuel cls.handle name n →
      OwnedIn (cls :: misplacedSymbols f fuel cls.handle name n) s
  | 0, _, _, _, _, h => by cases h
  | fuel + 1, cls, name, n, hcls, h => by
      rw [misplacedSymbols] at h ⊢
      obtain ⟨c, hc, h⟩ := List.mem_flatMap.1 h
      refine OwnedIn.mono ?_ (List.cons_subset_cons _ (subset_flatMap_of_mem hc))
      revert h
      split
      · next hk =>
        split
        · next body hbody =>
          intro h
          have hstatements := (mem_of_childOfKind? hbody).1
          refine owned_of_mem_memberSymbols hcls (fun d hd _ => .inl ?_) h
          refine qualifiedName?_of_localScope (n := c) ?_ (by rw [hk]; decide)
          rw [ancestors_of_mem_children hd, ancestors_of_mem_children hstatements]
          simp
        · intro h
          cases h
      · split
        · exact owned_of_mem_misplacedSymbols hcls
        · intro h
          cases h

end

/-- Every constructor at the top of a file, or deeper, is one of a class of the file. -/
theorem owned_of_mem_topLevelSymbols : ∀ {fuel : Nat} {n : Node},
    s ∈ topLevelSymbols f fuel n → OwnedIn (topLevelSymbols f fuel n) s
  | 0, _, h => by cases h
  | fuel + 1, n, h => by
      rw [topLevelSymbols] at h ⊢
      obtain ⟨c, hc, h⟩ := List.mem_flatMap.1 h
      refine OwnedIn.mono ?_ (subset_flatMap_of_mem hc)
      revert h
      split
      · next hk => exact owned_of_mem_classSymbols (by simp [classKinds, hk])
      · next hk => exact owned_of_mem_classSymbols (by simp [classKinds, hk])
      · intro h
        exact .of_kind_ne (by simp [kind_of_functionSymbol? (Option.mem_toList.1 h)])
      · intro h
        exact .of_kind_ne (by simp [kind_of_propertySymbol? (Option.mem_toList.1 h)])
      · intro h
        exact .of_kind_ne (by simp [kind_of_aliasSymbol? (Option.mem_toList.1 h)])
      · intro h
        cases h
      · intro h
        cases h
      · intro h
        cases h
      · exact owned_of_mem_topLevelSymbols

/-- **A constructor with a qualified name** belongs to a class of the file that has the same. -/
theorem owned_of_mem_symbols (h : s ∈ symbols f) : OwnedIn (symbols f) s :=
  owned_of_mem_topLevelSymbols h

end Walk

end Crossref.Kotlin
