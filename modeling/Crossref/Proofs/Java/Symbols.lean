import Crossref.Java.Symbols
import Crossref.Proofs.Tree.Below

/-!
# Proofs — Java — which node introduces a symbol

Every symbol of a Java file is introduced by one node of its tree, and `Introduces` says how: one
case for each sort of declaration, with the kind of the node.  Members stand below the body of their
class, those behind the constants of an enum one node lower; the constructor of a class that writes
none is introduced by the node of the class, and the fields of one declaration all by its node.

* `Introduces.traits`: what the node tells of the symbol that it introduces; the symbol's
  declaration is the key of the node.
* `exists_introduces`: every symbol of the file is introduced by a place of its tree.
-/

namespace Crossref.Java
open Node

/-- The symbol of the class that a node declares. -/
def classSymbol (f : SourceFile) (parent : Option Handle) (name : String) (n : Node) : Symbol :=
  { symbolOf f n (classKind n) name with
    parent := parent
    superTypes := superTypes n f.text }

/-- The members written in the body of a class. -/
def membersOf (n : Node) : List Node := ((n.childInField? "body").map memberNodes).getD []

/-- The node introduces the symbol, which is a member of a class of the file or of none; a field
is written in a class. -/
inductive Introduces (f : SourceFile) : Node → Symbol → Prop where
  | classifier {parent : Option Handle} {name : String} {n : Node}
      (hp : ∀ h ∈ parent, h.file = f.id) (hk : n.kind ∈ classKinds)
      (h : declarationName? n f.text = some name) :
      Introduces f n (classSymbol f parent name n)
  | implicitConstructor {parent : Option Handle} {name : String} {members : List Node} {n : Node}
      {s : Symbol} (hk : n.kind ∈ classKinds)
      (h : implicitConstructor? f (classSymbol f parent name n) members n = some s) :
      Introduces f n s
  | enumConstant {cls : Symbol} {n : Node} {s : Symbol} (hcls : cls.handle.file = f.id)
      (hk : n.kind = "enum_constant") (h : enumConstantSymbol? f cls n = some s) :
      Introduces f n s
  | method {cls : Symbol} {n : Node} {s : Symbol} (hcls : cls.handle.file = f.id)
      (hk : n.kind = "method_declaration") (h : methodSymbol? f cls n = some s) :
      Introduces f n s
  | constructor {cls : Symbol} {n : Node} (hcls : cls.handle.file = f.id)
      (hk : n.kind ∈ constructorKinds) : Introduces f n (constructorSymbol f cls n)
  | field {cls : Symbol} {n c : Node} {s : Symbol} (hcls : cls.handle.file = f.id)
      (hk : n.kind ∈ fieldKinds) (hc : c ∈ n.ancestors) (hck : c.kind ∈ classKinds)
      (h : s ∈ fieldSymbols f cls n) : Introduces f n s

/-! ### What is introduced -/

/-- The symbol is declared by the node and belongs to the file, as does its class. -/
structure DeclaredBy (f : SourceFile) (n : Node) (s : Symbol) : Prop where
  declaration : s.declaration = ⟨f.id, n.start, n.stop⟩
  file : s.handle.file = f.id
  parent : ∀ h ∈ s.parent, h.file = f.id

/-- The member of a class is declared by its node. -/
theorem DeclaredBy.member {f : SourceFile} {n : Node} {s : Symbol} {cls : Handle}
    (hd : s.declaration = ⟨f.id, n.start, n.stop⟩) (hf : s.handle.file = f.id)
    (hp : s.parent = some cls) (hcls : cls.file = f.id) : DeclaredBy f n s :=
  ⟨hd, hf, fun h hh => by cases hp ▸ hh; exact hcls⟩

/-- What every sort of declaration tells of the symbol that it introduces. -/
structure Traits (f : SourceFile) (n : Node) (s : Symbol) : Prop extends DeclaredBy f n s where
  origin : s.origin = f.origin ∨ s.origin = .synthetic
  /-- Nothing extends a receiver. -/
  receiver : s.receiverType = none

/-- **What is introduced** has these traits, whatever the sort of its declaration. -/
theorem Introduces.traits {f : SourceFile} {n : Node} {s : Symbol} (h : Introduces f n s) :
    Traits f n s := by
  cases h with
  | classifier hp => exact ⟨⟨rfl, rfl, hp⟩, .inl rfl, rfl⟩
  | implicitConstructor _ h =>
      unfold implicitConstructor? at h
      obtain ⟨-, h⟩ := Option.ite_none_right_eq_some.1 h
      cases h
      exact ⟨.member rfl rfl rfl rfl, .inr rfl, rfl⟩
  | enumConstant hcls _ h =>
      obtain ⟨_, -, rfl⟩ := Option.map_eq_some_iff.1 h
      exact ⟨.member rfl rfl rfl hcls, .inl rfl, rfl⟩
  | method hcls _ h =>
      obtain ⟨_, -, rfl⟩ := Option.map_eq_some_iff.1 h
      exact ⟨.member rfl rfl rfl hcls, .inl rfl, rfl⟩
  | constructor hcls => exact ⟨.member rfl rfl rfl hcls, .inl rfl, rfl⟩
  | field hcls _ _ _ h =>
      obtain ⟨⟨declarator, slot⟩, -, h⟩ := List.mem_filterMap.1 h
      obtain ⟨_, -, rfl⟩ := Option.map_eq_some_iff.1 h
      exact ⟨.member rfl rfl rfl hcls, .inl rfl, rfl⟩

/-! ### The walk over a file -/

/-- The symbol is introduced by the node or by one below it. -/
def IntroducedBelow (f : SourceFile) (n : Node) (s : Symbol) : Prop :=
  ∃ m, Below n m ∧ Introduces f m s

theorem IntroducedBelow.self {f : SourceFile} {n : Node} {s : Symbol} (h : Introduces f n s) :
    IntroducedBelow f n s := ⟨n, .refl, h⟩

theorem IntroducedBelow.of_below {f : SourceFile} {n m : Node} {s : Symbol} (hm : Below n m)
    (h : IntroducedBelow f m s) : IntroducedBelow f n s := by
  obtain ⟨k, hk, hi⟩ := h
  exact ⟨k, hm.trans hk, hi⟩

theorem below_of_mem_memberNodes {body m : Node} (h : m ∈ memberNodes body) : Below body m := by
  obtain ⟨c, hc, h⟩ := List.mem_flatMap.1 h
  have hb : Below body c := .of_mem_children hc
  split at h
  · exact hb.child h
  · obtain rfl := List.mem_singleton.1 h
    exact hb

/-- The members of a class lie below its body. -/
theorem exists_body_of_mem_membersOf {n m : Node} (h : m ∈ membersOf n) :
    ∃ body ∈ n.children, Below body m := by
  unfold membersOf at h
  cases hb : n.childInField? "body" with
  | none => simp [hb] at h
  | some body =>
      rw [hb] at h
      exact ⟨body, mem_of_childInField? hb, below_of_mem_memberNodes h⟩

theorem below_of_mem_enumConstants {n c : Node}
    (h : c ∈ ((n.childInField? "body").map (·.childrenOfKind "enum_constant")).getD []) :
    Below n c ∧ c.kind = "enum_constant" := by
  cases hb : n.childInField? "body" with
  | none => simp [hb] at h
  | some body =>
      rw [hb] at h
      obtain ⟨hc, hk⟩ := mem_childrenOfKind_iff.1 h
      exact ⟨(Below.of_mem_children (mem_of_childInField? hb)).child hc, hk⟩

theorem introduces_of_mem_classSymbols {f : SourceFile} {s : Symbol} :
    ∀ {fuel : Nat} {parent : Option Handle} {n : Node}, (∀ h ∈ parent, h.file = f.id) →
      n.kind ∈ classKinds → s ∈ classSymbols f fuel parent n → IntroducedBelow f n s
  | 0, _, _, _, _, h => by cases h
  | fuel + 1, parent, n, hp, hk, h => by
      unfold classSymbols at h
      split at h
      · cases h
      · next name hn =>
        simp only [List.mem_append, List.mem_singleton] at h
        rcases h with ((h | rfl) | h) | h
        · have hi : Introduces f n s :=
            @Introduces.implicitConstructor f parent name _ n s hk (Option.mem_toList.1 h)
          exact .self hi
        · have hi : Introduces f n (classSymbol f parent name n) := .classifier hp hk hn
          exact .self hi
        · obtain ⟨c, hc, h⟩ := List.mem_filterMap.1 h
          obtain ⟨hb, hck⟩ := below_of_mem_enumConstants hc
          exact .of_below hb (.self (.enumConstant rfl hck h))
        · obtain ⟨m, hm, h⟩ := List.mem_flatMap.1 h
          obtain ⟨body, hbody, hmb⟩ := exists_body_of_mem_membersOf hm
          have hb : Below n m := (Below.of_mem_children hbody).trans hmb
          split at h
          · next hmk =>
            have hown : ∀ h ∈ some (classSymbol f parent name n).handle, h.file = f.id := by
              simp [classSymbol, symbolOf, Symbol.ofHandle]
            exact .of_below hb (introduces_of_mem_classSymbols hown (by simpa using hmk) h)
          · split at h
            · next hmk => exact .of_below hb (.self (.method rfl hmk (Option.mem_toList.1 h)))
            · split at h
              · next hmk =>
                obtain rfl := List.mem_singleton.1 h
                exact .of_below hb (.self (.constructor rfl (by simpa using hmk)))
              · split at h
                · next hmk =>
                  have hup : n ∈ m.ancestors := mem_ancestors_of_below hbody hmb
                  exact .of_below hb (.self (.field rfl (by simpa using hmk) hup hk h))
                · cases h

/-- **Every symbol of a file is introduced by a place of its tree.** -/
theorem exists_introduces {f : SourceFile} {s : Symbol} (h : s ∈ symbols f) :
    ∃ n, Within f.tree n ∧ Introduces f n s := by
  obtain ⟨c, hc, h⟩ := List.mem_flatMap.1 h
  obtain ⟨hc, hk⟩ := List.mem_filter.1 hc
  obtain ⟨m, hm, hi⟩ := introduces_of_mem_classSymbols (by simp) (by simpa using hk) h
  exact ⟨m, hm.within (.child .top hc), hi⟩

end Crossref.Java
