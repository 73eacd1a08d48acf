import Crossref.Kotlin.Symbols
import Crossref.Proofs.Tree.Below

/-!
# Proofs — Kotlin — which node introduces a symbol

Every symbol of a Kotlin file is introduced by one node of its tree, and `Introduces` says how: one
case for each sort of declaration, with the kind of the node.  The walk over the file goes to
children only, so the node is a place of the tree; the members that a class has without writing
them, and its constructor, are introduced by the node of the class.

* `Introduces.traits`: what the node tells of the symbol that it introduces; the symbol's
  declaration is the key of the node.
* `exists_introduces`: every symbol of the file is introduced by a place of its tree.
-/

namespace Crossref.Kotlin
open Node

/-- The node introduces the symbol, which is a member of a class of the file or of none. -/
inductive Introduces (f : SourceFile) : Node → Symbol → Prop where
  | function {parent : Option Handle} {n : Node} {s : Symbol} (hp : ∀ h ∈ parent, h.file = f.id)
      (hk : n.kind = "function_declaration") (h : functionSymbol? f parent n = some s) :
      Introduces f n s
  | property {parent : Option Handle} {n : Node} {s : Symbol} (hp : ∀ h ∈ parent, h.file = f.id)
      (hk : n.kind = "property_declaration") (h : propertySymbol? f parent n = some s) :
      Introduces f n s
  | typeAlias {n : Node} {s : Symbol} (hk : n.kind = "type_alias")
      (h : aliasSymbol? f n = some s) : Introduces f n s
  | secondaryConstructor {cls : Handle} {name : String} {n : Node} (hcls : cls.file = f.id)
      (hk : n.kind = "secondary_constructor") :
      Introduces f n (secondaryConstructorSymbol f cls name n)
  | enumEntry {cls : Handle} {name : String} {n : Node} {s : Symbol} (hcls : cls.file = f.id)
      (hk : n.kind = "enum_entry") (h : enumEntrySymbol? f cls name n = some s) :
      Introduces f n s
  | boundParameter {cls : Handle} {n : Node} {s : Symbol} (hcls : cls.file = f.id)
      (hk : n.kind = "class_parameter") (h : boundParameterSymbol? f cls n = some s) :
      Introduces f n s
  | classifier {parent : Option Handle} {name : String} {n : Node}
      (hp : ∀ h ∈ parent, h.file = f.id) (hk : n.kind ∈ classKinds)
      (h : declarationName? n f.text = some name) :
      Introduces f n (classSymbol f parent name n)
  | headConstructor {parent : Option Handle} {name : String} {n : Node} {s : Symbol}
      (hk : n.kind ∈ classKinds) (h : headConstructor? f (classSymbol f parent name n) n = some s) :
      Introduces f n s
  | dataMember {parent : Option Handle} {name : String} {n : Node} {properties : List Symbol}
      {s : Symbol} (hk : n.kind ∈ classKinds)
      (h : s ∈ dataMembers f (classSymbol f parent name n) properties) : Introduces f n s
  | enumMember {parent : Option Handle} {name : String} {n : Node} {s : Symbol}
      (hk : n.kind ∈ classKinds) (h : s ∈ enumMembers f (classSymbol f parent name n)) :
      Introduces f n s

/-! ### What is introduced -/

/-- The symbol is declared by the node and belongs to the file, as does its class. -/
structure DeclaredBy (f : SourceFile) (n : Node) (s : Symbol) : Prop where
  declaration : s.declaration = ⟨f.id, n.start, spanStop n⟩
  file : s.handle.file = f.id
  parent : ∀ h ∈ s.parent, h.file = f.id

/-- The member of a class is declared by its node. -/
theorem DeclaredBy.member {f : SourceFile} {n : Node} {s : Symbol} {cls : Handle}
    (hd : s.declaration = ⟨f.id, n.start, spanStop n⟩) (hf : s.handle.file = f.id)
    (hp : s.parent = some cls) (hcls : cls.file = f.id) : DeclaredBy f n s :=
  ⟨hd, hf, fun h hh => by cases hp ▸ hh; exact hcls⟩

/-- What every sort of declaration tells of the symbol that it introduces. -/
structure Traits (f : SourceFile) (n : Node) (s : Symbol) : Prop extends DeclaredBy f n s where
  /-- The symbol has the names of its node, or is a constructor, or the compiler adds it. -/
  names : (declarationName? n f.text = some s.name ∧
      qualifiedName? f.package n f.text = s.qualifiedName) ∨
    s.kind = .constructor ∨ s.origin = .synthetic
  origin : s.origin = f.origin ∨ s.origin = .synthetic
  /-- Only functions and properties extend a receiver, and no property of a constructor does. -/
  receiver : s.receiverType = none ∨
    (s.kind = .function ∨ s.kind = .property) ∧ s.declaredInConstructor = false

namespace Traits

variable {f : SourceFile} {n : Node} {s : Symbol}

/-- What has a name of its own. -/
theorem named (hd : DeclaredBy f n s) (hname : declarationName? n f.text = some s.name)
    (hqualified : qualifiedName? f.package n f.text = s.qualifiedName) (ho : s.origin = f.origin)
    (hr : s.receiverType = none ∨
      (s.kind = .function ∨ s.kind = .property) ∧ s.declaredInConstructor = false) :
    Traits f n s :=
  ⟨hd, .inl ⟨hname, hqualified⟩, .inl ho, hr⟩

/-- A constructor, which needs no name from its node. -/
theorem constructor (hd : DeclaredBy f n s) (hk : s.kind = .constructor)
    (ho : s.origin = f.origin ∨ s.origin = .synthetic) (hr : s.receiverType = none) :
    Traits f n s :=
  ⟨hd, .inr (.inl hk), ho, .inl hr⟩

/-- What the compiler adds. -/
theorem added (hd : DeclaredBy f n s) (ho : s.origin = .synthetic) (hr : s.receiverType = none) :
    Traits f n s :=
  ⟨hd, .inr (.inr ho), .inr ho, .inl hr⟩

end Traits

/-- **What is introduced** has these traits, whatever the sort of its declaration. -/
theorem Introduces.traits {f : SourceFile} {n : Node} {s : Symbol} (h : Introduces f n s) :
    Traits f n s := by
  cases h with
  | function hp _ h =>
      obtain ⟨_, hname, rfl⟩ := Option.map_eq_some_iff.1 h
      exact .named ⟨rfl, rfl, hp⟩ hname rfl rfl (.inr ⟨.inl rfl, rfl⟩)
  | property hp _ h =>
      obtain ⟨_, -, h⟩ := Option.bind_eq_some_iff.1 h
      obtain ⟨_, hname, h⟩ := Option.bind_eq_some_iff.1 h
      cases h
      exact .named ⟨rfl, rfl, hp⟩ hname rfl rfl (.inr ⟨.inr rfl, rfl⟩)
  | typeAlias _ h =>
      obtain ⟨_, hname, rfl⟩ := Option.map_eq_some_iff.1 h
      exact .named ⟨rfl, rfl, fun _ hh => nomatch hh⟩ hname rfl rfl (.inl rfl)
  | secondaryConstructor hcls => exact .constructor (.member rfl rfl rfl hcls) rfl (.inl rfl) rfl
  | enumEntry hcls _ h =>
      obtain ⟨_, hname, rfl⟩ := Option.map_eq_some_iff.1 h
      exact .named (.member rfl rfl rfl hcls) hname rfl rfl (.inl rfl)
  | boundParameter hcls _ h =>
      obtain ⟨_, -, h⟩ := Option.bind_eq_some_iff.1 h
      obtain ⟨_, hname, h⟩ := Option.bind_eq_some_iff.1 h
      cases h
      exact .named (.member rfl rfl rfl hcls) hname rfl rfl (.inl rfl)
  | classifier hp _ hname => exact .named ⟨rfl, rfl, hp⟩ hname rfl rfl (.inl rfl)
  | headConstructor _ h =>
      unfold headConstructor? at h
      obtain ⟨-, h⟩ := Option.ite_none_right_eq_some.1 h
      cases h
      refine .constructor (.member rfl rfl rfl rfl) rfl ?_ rfl
      -- the constructor is one of the file if its head is written
      cases n.childOfKind? "primary_constructor" with
      | none => exact .inr rfl
      | some _ => exact .inl rfl
  | dataMember _ h =>
      rcases List.mem_append.1 h with h | h
      · obtain ⟨_, -, rfl⟩ := List.mem_map.1 h
        exact .added (.member rfl rfl rfl rfl) rfl rfl
      · obtain rfl := List.mem_singleton.1 h
        exact .added (.member rfl rfl rfl rfl) rfl rfl
  | enumMember _ h =>
      simp only [enumMembers, List.mem_cons, List.not_mem_nil, or_false] at h
      rcases h with rfl | rfl
      · exact .added (.member rfl rfl rfl rfl) rfl rfl
      · exact .added (.member rfl rfl rfl rfl) rfl rfl

/-! ### The walk over a file -/

/-- The symbol is introduced by the node or by one below it. -/
def IntroducedBelow (f : SourceFile) (n : Node) (s : Symbol) : Prop :=
  ∃ m, Below n m ∧ Introduces f m s

theorem IntroducedBelow.self {f : SourceFile} {n : Node} {s : Symbol} (h : Introduces f n s) :
    IntroducedBelow f n s := ⟨n, .refl, h⟩

/-- What is introduced deeper down is introduced below a node further up, too. -/
theorem IntroducedBelow.of_below {f : SourceFile} {n m : Node} {s : Symbol} (hm : Below n m)
    (h : IntroducedBelow f m s) : IntroducedBelow f n s := by
  obtain ⟨k, hk, hi⟩ := h
  exact ⟨k, hm.trans hk, hi⟩

/-- The nodes between a class and the parameters of its constructor. -/
def parameterWay : List String := ["primary_constructor", "class_parameters"]

/-- The parameters in the head of a class, on the way through it. -/
theorem through_of_mem_classParameters {n p : Node} (h : p ∈ classParameters n) :
    Through parameterWay n p ∧ p.kind = "class_parameter" := by
  unfold classParameters at h
  split at h
  · next primary hp =>
    rcases List.mem_append.1 h with h | h
    · obtain ⟨hc, hk⟩ := mem_childrenOfKind_iff.1 h
      exact ⟨.of_childOfKind? hp (by decide) hc, hk⟩
    · obtain ⟨list, hl, h⟩ := List.mem_flatMap.1 h
      obtain ⟨hl, hlk⟩ := mem_childrenOfKind_iff.1 hl
      obtain ⟨hc, hk⟩ := mem_childrenOfKind_iff.1 h
      exact ⟨.step (.of_childOfKind? hp (by decide) hl) (by rw [hlk]; decide) hc, hk⟩
  · split at h
    · next list hl =>
      obtain ⟨hc, hk⟩ := mem_childrenOfKind_iff.1 h
      exact ⟨.of_childOfKind? hl (by decide) hc, hk⟩
    · cases h

theorem below_of_mem_classParameters {n p : Node} (h : p ∈ classParameters n) :
    Below n p ∧ p.kind = "class_parameter" :=
  (through_of_mem_classParameters h).imp_left Through.toBelow

theorem below_of_classBody? {n body : Node} (h : classBody? n = some body) : Below n body := by
  rcases Option.or_eq_some_iff.1 h with h | ⟨-, h⟩
  · exact .of_mem_children (mem_of_childOfKind? h).1
  · exact .of_mem_children (mem_of_childOfKind? h).1

theorem below_of_mem_delegationSpecifiers {n d : Node} (h : d ∈ delegationSpecifiers n) :
    Below n d := by
  rcases List.mem_append.1 h with h | h
  · exact .of_mem_children (mem_childrenOfKind_iff.1 h).1
  · obtain ⟨list, hl, h⟩ := List.mem_flatMap.1 h
    exact (Below.of_mem_children (mem_childrenOfKind_iff.1 hl).1).child
      (mem_childrenOfKind_iff.1 h).1

/-- What a class introduces besides its members: from its parameters, its constructor and its own
node. -/
theorem introduces_of_mem_headSymbols {f : SourceFile} {parent : Option Handle} {name : String}
    {n : Node} {s : Symbol} (hparent : ∀ h ∈ parent, h.file = f.id) (hk : n.kind ∈ classKinds)
    (hn : declarationName? n f.text = some name)
    (h : s ∈ headSymbols f (classSymbol f parent name n) n) : IntroducedBelow f n s := by
  simp only [headSymbols, List.mem_append, List.mem_singleton] at h
  rcases h with (((h | h) | h) | h) | rfl
  · obtain ⟨p, hp, hs⟩ := List.mem_filterMap.1 h
    obtain ⟨hb, hpk⟩ := below_of_mem_classParameters hp
    exact .of_below hb (.self (.boundParameter rfl hpk hs))
  · exact .self (.headConstructor hk (Option.mem_toList.1 h))
  · split at h
    · exact .self (.dataMember hk h)
    · cases h
  · split at h
    · exact .self (.enumMember hk h)
    · cases h
  · exact .self (.classifier hparent hk hn)

mutual

/-- Induction over the fuel of the walks over a class, its body and what is misplaced below it. -/
theorem introduces_of_mem_classSymbols {f : SourceFile} {s : Symbol} :
    ∀ {fuel : Nat} {parent : Option Handle} {n : Node}, (∀ h ∈ parent, h.file = f.id) →
      n.kind ∈ classKinds → s ∈ classSymbols f fuel parent n → IntroducedBelow f n s
  | 0, _, _, _, _, h => by cases h
  | fuel + 1, parent, n, hp, hk, h => by
      unfold classSymbols at h
      split at h
      · cases h
      · next name hn =>
        rcases List.mem_append.1 h with h | h
        · exact introduces_of_mem_headSymbols hp hk hn h
        · split at h
          · next body hb =>
            exact .of_below (below_of_classBody? hb) (introduces_of_mem_memberSymbols rfl h)
          · obtain ⟨d, hd, h⟩ := List.mem_flatMap.1 h
            exact .of_below (below_of_mem_delegationSpecifiers hd)
              (introduces_of_mem_misplacedSymbols rfl h)

theorem introduces_of_mem_memberSymbols {f : SourceFile} {s : Symbol} :
    ∀ {fuel : Nat} {cls : Handle} {name : String} {body : Node}, cls.file = f.id →
      s ∈ memberSymbols f fuel cls name body → IntroducedBelow f body s
  | 0, _, _, _, _, h => by cases h
  | fuel + 1, cls, name, body, hcls, h => by
      rw [memberSymbols] at h
      obtain ⟨c, hc, h⟩ := List.mem_flatMap.1 h
      have hb : Below body c := .of_mem_children hc
      have hp : ∀ h ∈ some cls, h.file = f.id := by simpa using hcls
      split at h
      · next hk =>
        exact .of_below hb (introduces_of_mem_classSymbols hp (by simp [classKinds, hk]) h)
      · next hk =>
        exact .of_below hb (introduces_of_mem_classSymbols hp (by simp [classKinds, hk]) h)
      · next hk =>
        exact .of_below hb (introduces_of_mem_classSymbols hp (by simp [classKinds, hk]) h)
      · next hk => exact .of_below hb (.self (.function hp hk (Option.mem_toList.1 h)))
      · next hk => exact .of_below hb (.self (.property hp hk (Option.mem_toList.1 h)))
      · next hk =>
        obtain rfl := List.mem_singleton.1 h
        exact .of_below hb (.self (.secondaryConstructor hcls hk))
      · next hk => exact .of_below hb (.self (.enumEntry hcls hk (Option.mem_toList.1 h)))
      · cases h

theorem introduces_of_mem_misplacedSymbols {f : SourceFile} {s : Symbol} :
    ∀ {fuel : Nat} {cls : Handle} {name : String} {n : Node}, cls.file = f.id →
      s ∈ misplacedSymbols f fuel cls name n → IntroducedBelow f n s
  | 0, _, _, _, _, h => by cases h
  | fuel + 1, cls, name, n, hcls, h => by
      rw [misplacedSymbols] at h
      obtain ⟨c, hc, h⟩ := List.mem_flatMap.1 h
      have hb : Below n c := .of_mem_children hc
      split at h
      · split at h
        · next body hbody =>
          exact .of_below (hb.child (mem_of_childOfKind? hbody).1)
            (introduces_of_mem_memberSymbols hcls h)
        · cases h
      · split at h
        · exact .of_below hb (introduces_of_mem_misplacedSymbols hcls h)
        · cases h

end

/-- All that is found at the top of a file and in the declarations there. -/
theorem introduces_of_mem_topLevelSymbols {f : SourceFile} {s : Symbol} :
    ∀ {fuel : Nat} {n : Node}, s ∈ topLevelSymbols f fuel n → IntroducedBelow f n s
  | 0, _, h => by cases h
  | fuel + 1, n, h => by
      rw [topLevelSymbols] at h
      obtain ⟨c, hc, h⟩ := List.mem_flatMap.1 h
      have hb : Below n c := .of_mem_children hc
      have hp : ∀ h ∈ (none : Option Handle), h.file = f.id := fun _ hh => nomatch hh
      split at h
      · next hk =>
        exact .of_below hb (introduces_of_mem_classSymbols hp (by simp [classKinds, hk]) h)
      · next hk =>
        exact .of_below hb (introduces_of_mem_classSymbols hp (by simp [classKinds, hk]) h)
      · next hk => exact .of_below hb (.self (.function hp hk (Option.mem_toList.1 h)))
      · next hk => exact .of_below hb (.self (.property hp hk (Option.mem_toList.1 h)))
      · next hk => exact .of_below hb (.self (.typeAlias hk (Option.mem_toList.1 h)))
      · cases h
      · cases h
      · cases h
      · exact .of_below hb (introduces_of_mem_topLevelSymbols h)

/-- **Every symbol of a file is introduced by a place of its tree.** -/
theorem exists_introduces {f : SourceFile} {s : Symbol} (h : s ∈ symbols f) :
    ∃ n, Within f.tree n ∧ Introduces f n s := by
  obtain ⟨n, hn, hi⟩ := introduces_of_mem_topLevelSymbols h
  exact ⟨n, within_iff_below.2 hn, hi⟩

end Crossref.Kotlin
