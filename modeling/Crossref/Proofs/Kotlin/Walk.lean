import Crossref.Proofs.Kotlin.Constructors

/-!
# Proofs — Kotlin — the declarations that the walk meets

The symbols of a file are those of the declarations that a walk over its tree meets.  `Outside` are
the nodes that the walk looks into in search of declarations: it enters every kind of node that it
does not know.  `Met` are the declarations it meets: those found there, the constructor parameters
of a class that is met, and the members in its body; a body that was read as the lambda of a
delegate is marked, and everything in it.  `declaredAt` are the symbols of one declaration.

* `ofMet_of_mem_symbols`: every symbol is one of a declaration that is met.
* `mem_symbols_of_ofMet`: every symbol of a declaration that is met is one of the file.
* `mem_symbols_iff`: the symbols of a file are exactly those of what is met.
-/

namespace Crossref.Kotlin
open Node

/-! ### What is met -/

/-- The declarations that may stand outside of classes. -/
def topKinds : List String :=
  ["class_declaration", "object_declaration", "function_declaration", "property_declaration",
   "type_alias"]

/-- The parts of the head of a file, where nothing is declared. -/
def headKinds : List String := ["package_header", "import_list", "import_header"]

/-- The declarations that may stand in the body of a class. -/
def memberKinds : List String :=
  ["class_declaration", "object_declaration", "companion_object", "function_declaration",
   "property_declaration", "secondary_constructor", "enum_entry"]

/-- The nodes that are looked into for declarations outside of classes. -/
inductive Outside (f : SourceFile) : Node → Prop where
  | top : Outside f f.top
  | inner {n c : Node} (hn : Outside f n) (hc : c ∈ n.children) (hk : c.kind ∉ topKinds)
      (hh : c.kind ∉ headKinds) : Outside f c

/-- The class that a member belongs to. -/
structure Owner where
  handle : Handle
  name : String

/-- The class at a node with the name, as the owner of its members. -/
def ownerAt (f : SourceFile) (n : Node) (name : String) : Owner :=
  ⟨handleOf f n (classKind n f.text), name⟩

/-- The statements of a lambda that stands where a body was meant, below an entry of a supertype
list. -/
inductive MisreadBody : Node → Node → Prop where
  | lambda {n c body : Node} (hc : c ∈ n.children) (hk : c.kind = "lambda_literal")
      (hb : c.childOfKind? "statements" = some body) : MisreadBody n body
  | inner {n c body : Node} (hc : c ∈ n.children) (hk : c.kind ∈ misplacedBodyKinds)
      (h : MisreadBody c body) : MisreadBody n body

/-- The body of a class, and whether it was read as the lambda of a delegate. -/
inductive BodyOf (n : Node) : Bool → Node → Prop where
  | proper {body : Node} (h : classBody? n = some body) : BodyOf n false body
  | misread {d body : Node} (hnone : classBody? n = none) (hd : d ∈ delegationSpecifiers n)
      (h : MisreadBody d body) : BodyOf n true body

/-- The declarations that are met, each with its owner and whether it stands in a body that was
misread. -/
inductive Met (f : SourceFile) : Bool → Option Owner → Node → Prop where
  | top {n c : Node} (hn : Outside f n) (hc : c ∈ n.children) (hk : c.kind ∈ topKinds) :
      Met f false none c
  | parameter {misread : Bool} {owner : Option Owner} {n p : Node} {name : String}
      (hn : Met f misread owner n) (hk : n.kind ∈ classKinds)
      (hname : declarationName? n f.text = some name) (hp : p ∈ classParameters n) :
      Met f misread (some (ownerAt f n name)) p
  | member {misread ofBody : Bool} {owner : Option Owner} {n body c : Node} {name : String}
      (hn : Met f misread owner n) (hk : n.kind ∈ classKinds)
      (hname : declarationName? n f.text = some name) (hbody : BodyOf n ofBody body)
      (hc : c ∈ body.children) (hck : c.kind ∈ memberKinds) :
      Met f (misread || ofBody) (some (ownerAt f n name)) c

/-! ### What is declared -/

/-- What a class introduces besides the properties of its constructor. -/
def classOwn (f : SourceFile) (cls : Symbol) (n : Node) : List Symbol :=
  (headConstructor? f cls n).toList
    ++ (if cls.hasModifier "data" then
          dataMembers f cls ((classParameters n).filterMap (boundParameterSymbol? f cls.handle))
        else [])
    ++ (if cls.kind = .enumClass then enumMembers f cls else [])
    ++ [cls]

/-- The symbols of one declaration, given its owner. -/
def declaredAt (f : SourceFile) (owner : Option Owner) (n : Node) : List Symbol :=
  let parent := owner.map Owner.handle
  match n.kind, owner with
  | "class_declaration", _ => ofClass parent
  | "object_declaration", _ => ofClass parent
  | "companion_object", _ => ofClass parent
  | "function_declaration", _ => (functionSymbol? f parent n).toList
  | "property_declaration", _ => (propertySymbol? f parent n).toList
  | "type_alias", _ => (aliasSymbol? f n).toList
  | "secondary_constructor", some o => [secondaryConstructorSymbol f o.handle o.name n]
  | "enum_entry", some o => (enumEntrySymbol? f o.handle o.name n).toList
  | "class_parameter", some o => (boundParameterSymbol? f o.handle n).toList
  | _, _ => []
where
  ofClass (parent : Option Handle) : List Symbol :=
    match declarationName? n f.text with
    | some name => classOwn f (classSymbol f parent name n) n
    | none => []

theorem headSymbols_eq (f : SourceFile) (cls : Symbol) (n : Node) :
    headSymbols f cls n =
      (classParameters n).filterMap (boundParameterSymbol? f cls.handle) ++ classOwn f cls n := by
  simp only [headSymbols, classOwn, List.append_assoc]

theorem declaredAt_class {f : SourceFile} {owner : Option Owner} {n : Node} {name : String}
    (hk : n.kind ∈ classKinds) (hname : declarationName? n f.text = some name) :
    declaredAt f owner n = classOwn f (classSymbol f (owner.map Owner.handle) name n) n := by
  simp only [classKinds, List.mem_cons, List.not_mem_nil, or_false] at hk
  rcases hk with hk | hk | hk <;> simp [declaredAt, declaredAt.ofClass, hk, hname]

/-- The symbol is one of a declaration that is met. -/
def OfMet (f : SourceFile) (s : Symbol) : Prop :=
  ∃ misread owner n, Met f misread owner n ∧ s ∈ declaredAt f owner n

/-! ### Every symbol is one of what is met -/

section Sound

variable {f : SourceFile} {s : Symbol}

mutual

theorem ofMet_of_mem_classSymbols : ∀ {fuel : Nat} {misread : Bool} {owner : Option Owner}
    {n : Node}, Met f misread owner n → n.kind ∈ classKinds →
    s ∈ classSymbols f fuel (owner.map Owner.handle) n → OfMet f s
  | 0, _, _, _, _, _, h => by cases h
  | fuel + 1, misread, owner, n, hn, hk, h => by
      unfold classSymbols at h
      split at h
      · cases h
      · next name hname =>
        dsimp only at h
        rw [headSymbols_eq, List.append_assoc] at h
        rcases List.mem_append.1 h with h | h
        · obtain ⟨p, hp, hs⟩ := List.mem_filterMap.1 h
          have hs : boundParameterSymbol? f (ownerAt f n name).handle p = some s := hs
          refine ⟨misread, _, p, .parameter hn hk hname hp, ?_⟩
          simpa [declaredAt, (below_of_mem_classParameters hp).2] using hs
        · rcases List.mem_append.1 h with h | h
          · exact ⟨misread, owner, n, hn, by rwa [declaredAt_class hk hname]⟩
          · split at h
            · next body hbody =>
              exact ofMet_of_mem_memberSymbols (o := ownerAt f n name)
                (fun c hc hck => .member hn hk hname (.proper hbody) hc hck) h
            · next hnone =>
              obtain ⟨d, hd, h⟩ := List.mem_flatMap.1 h
              exact ofMet_of_mem_misplacedSymbols (o := ownerAt f n name)
                (fun body hb c hc hck => .member hn hk hname (.misread hnone hd hb) hc hck) h

theorem ofMet_of_mem_memberSymbols : ∀ {fuel : Nat} {misread : Bool} {o : Owner} {body : Node},
    (∀ c ∈ body.children, c.kind ∈ memberKinds → Met f misread (some o) c) →
    s ∈ memberSymbols f fuel o.handle o.name body → OfMet f s
  | 0, _, _, _, _, h => by cases h
  | fuel + 1, misread, o, body, hmet, h => by
      rw [memberSymbols] at h
      obtain ⟨c, hc, h⟩ := List.mem_flatMap.1 h
      have ofClass (hk : c.kind ∈ classKinds) (hm : c.kind ∈ memberKinds)
          (h : s ∈ classSymbols f fuel (some o.handle) c) : OfMet f s :=
        ofMet_of_mem_classSymbols (hmet c hc hm) hk h
      have ofLeaf (hm : c.kind ∈ memberKinds) (h : s ∈ declaredAt f (some o) c) : OfMet f s :=
        ⟨misread, some o, c, hmet c hc hm, h⟩
      split at h
      · next hk => exact ofClass (by simp [classKinds, hk]) (by simp [memberKinds, hk]) h
      · next hk => exact ofClass (by simp [classKinds, hk]) (by simp [memberKinds, hk]) h
      · next hk => exact ofClass (by simp [classKinds, hk]) (by simp [memberKinds, hk]) h
      · next hk => exact ofLeaf (by simp [memberKinds, hk]) (by simpa [declaredAt, hk] using h)
      · next hk => exact ofLeaf (by simp [memberKinds, hk]) (by simpa [declaredAt, hk] using h)
      · next hk => exact ofLeaf (by simp [memberKinds, hk]) (by simpa [declaredAt, hk] using h)
      · next hk => exact ofLeaf (by simp [memberKinds, hk]) (by simpa [declaredAt, hk] using h)
      · cases h

theorem ofMet_of_mem_misplacedSymbols : ∀ {fuel : Nat} {misread : Bool} {o : Owner} {n : Node},
    (∀ body, MisreadBody n body →
      ∀ c ∈ body.children, c.kind ∈ memberKinds → Met f misread (some o) c) →
    s ∈ misplacedSymbols f fuel o.handle o.name n → OfMet f s
  | 0, _, _, _, _, h => by cases h
  | fuel + 1, misread, o, n, hmet, h => by
      rw [misplacedSymbols] at h
      obtain ⟨c, hc, h⟩ := List.mem_flatMap.1 h
      split at h
      · next hk =>
        split at h
        · next body hb => exact ofMet_of_mem_memberSymbols (hmet body (.lambda hc hk hb)) h
        · cases h
      · split at h
        · next hk =>
          exact ofMet_of_mem_misplacedSymbols
            (fun body hb => hmet body (.inner hc (List.contains_iff_mem.1 hk) hb)) h
        · cases h

end

theorem ofMet_of_mem_topLevelSymbols : ∀ {fuel : Nat} {n : Node}, Outside f n →
    s ∈ topLevelSymbols f fuel n → OfMet f s
  | 0, _, _, h => by cases h
  | fuel + 1, n, hn, h => by
      rw [topLevelSymbols] at h
      obtain ⟨c, hc, h⟩ := List.mem_flatMap.1 h
      have met (hk : c.kind ∈ topKinds) : Met f false none c := .top hn hc hk
      split at h
      · next hk =>
        exact ofMet_of_mem_classSymbols (met (by simp [topKinds, hk])) (by simp [classKinds, hk]) h
      · next hk =>
        exact ofMet_of_mem_classSymbols (met (by simp [topKinds, hk])) (by simp [classKinds, hk]) h
      · next hk =>
        exact ⟨_, _, c, met (by simp [topKinds, hk]), by simpa [declaredAt, hk] using h⟩
      · next hk =>
        exact ⟨_, _, c, met (by simp [topKinds, hk]), by simpa [declaredAt, hk] using h⟩
      · next hk =>
        exact ⟨_, _, c, met (by simp [topKinds, hk]), by simpa [declaredAt, hk] using h⟩
      · cases h
      · cases h
      · cases h
      · next h₁ h₂ h₃ h₄ h₅ h₆ h₇ h₈ =>
        refine ofMet_of_mem_topLevelSymbols (.inner hn hc ?_ ?_) h
        · simpa [topKinds] using ⟨h₁, h₂, h₃, h₄, h₅⟩
        · simpa [headKinds] using ⟨h₆, h₇, h₈⟩

/-- **Every symbol of a file is one of a declaration that is met.** -/
theorem ofMet_of_mem_symbols (h : s ∈ symbols f) : OfMet f s :=
  ofMet_of_mem_topLevelSymbols .top h

end Sound

/-! ### Every symbol of what is met is one of the file -/

section Complete

variable {f : SourceFile}

/-- The symbols of a declaration are among those of the file; from a class the walk goes on with
fuel for all that is below it. -/
def Reached (f : SourceFile) (owner : Option Owner) (n : Node) : Prop :=
  if n.kind ∈ classKinds then
    ∃ fuel, n.tree.height ≤ fuel ∧
      ∀ s ∈ classSymbols f fuel (owner.map Owner.handle) n, s ∈ symbols f
  else ∀ s ∈ declaredAt f owner n, s ∈ symbols f

/-- From a class that is met the walk reaches its head and its body. -/
theorem Reached.of_class {owner : Option Owner} {n : Node} {name : String}
    (h : Reached f owner n) (hk : n.kind ∈ classKinds)
    (hname : declarationName? n f.text = some name) :
    (∀ p ∈ classParameters n, ∀ s ∈ declaredAt f (some (ownerAt f n name)) p, s ∈ symbols f) ∧
      (∀ s ∈ declaredAt f owner n, s ∈ symbols f) ∧
      ∃ fuel, n.tree.height ≤ fuel + 1 ∧
        ∀ s ∈ (match classBody? n with
          | some body => memberSymbols f fuel (ownerAt f n name).handle name body
          | none => (delegationSpecifiers n).flatMap
              (misplacedSymbols f fuel (ownerAt f n name).handle name)), s ∈ symbols f := by
  rw [Reached, if_pos hk] at h
  obtain ⟨fuel, hfuel, h⟩ := h
  obtain ⟨rest, rfl, -⟩ := exists_fuel_of_height_le hfuel
  rw [classSymbols, hname] at h
  dsimp only at h
  rw [headSymbols_eq] at h
  refine ⟨fun p hp s hs => h s ?_, fun s hs => h s ?_, rest, hfuel, fun s hs => h s ?_⟩
  · have hs : boundParameterSymbol? f (ownerAt f n name).handle p = some s := by
      simpa [declaredAt, (below_of_mem_classParameters hp).2] using hs
    exact List.mem_append_left _ (List.mem_append_left _ (List.mem_filterMap.2 ⟨p, hp, hs⟩))
  · rw [declaredAt_class hk hname] at hs
    exact List.mem_append_left _ (List.mem_append_right _ hs)
  · exact List.mem_append_right _ hs

/-- From a body the walk reaches its members. -/
theorem reached_of_memberSymbols {o : Owner} {body : Node} {fuel : Nat}
    (hfuel : body.tree.height ≤ fuel)
    (h : ∀ s ∈ memberSymbols f fuel o.handle o.name body, s ∈ symbols f) {c : Node}
    (hc : c ∈ body.children) (hk : c.kind ∈ memberKinds) : Reached f (some o) c := by
  obtain ⟨rest, rfl, hrest⟩ := exists_fuel_of_height_le hfuel
  rw [memberSymbols] at h
  have hmem := fun s hs => h s (List.mem_flatMap.2 ⟨c, hc, hs⟩)
  have ofClass (hk : c.kind ∈ classKinds)
      (h : ∀ s ∈ classSymbols f rest (some o.handle) c, s ∈ symbols f) : Reached f (some o) c := by
    rw [Reached, if_pos hk]
    exact ⟨rest, hrest c hc, h⟩
  simp only [memberKinds, List.mem_cons, List.not_mem_nil, or_false] at hk
  rcases hk with hk | hk | hk | hk | hk | hk | hk
  · exact ofClass (by simp [classKinds, hk]) (by simpa [hk] using hmem)
  · exact ofClass (by simp [classKinds, hk]) (by simpa [hk] using hmem)
  · exact ofClass (by simp [classKinds, hk]) (by simpa [hk] using hmem)
  · simpa [Reached, classKinds, declaredAt, hk] using hmem
  · simpa [Reached, classKinds, declaredAt, hk] using hmem
  · simpa [Reached, classKinds, declaredAt, hk] using hmem
  · simpa [Reached, classKinds, declaredAt, hk] using hmem

/-- From an entry of a supertype list the walk reaches the body that was misread below it. -/
theorem exists_memberSymbols_of_misread {o : Owner} {n body : Node} (hb : MisreadBody n body) :
    ∀ {fuel : Nat}, n.tree.height ≤ fuel →
      (∀ s ∈ misplacedSymbols f fuel o.handle o.name n, s ∈ symbols f) →
      ∃ rest, body.tree.height ≤ rest ∧
        ∀ s ∈ memberSymbols f rest o.handle o.name body, s ∈ symbols f := by
  induction hb with
  | @lambda n c body hc hk hb =>
      intro fuel hfuel h
      obtain ⟨rest, rfl, hrest⟩ := exists_fuel_of_height_le hfuel
      have hbody := height_lt_of_mem_children (mem_of_childOfKind? hb).1
      refine ⟨rest, Nat.le_trans (Nat.le_of_lt hbody) (hrest c hc), fun s hs => h s ?_⟩
      rw [misplacedSymbols]
      exact List.mem_flatMap.2 ⟨c, hc, by simpa [hk, hb] using hs⟩
  | @inner n c body hc hk _ ih =>
      intro fuel hfuel h
      obtain ⟨rest, rfl, hrest⟩ := exists_fuel_of_height_le hfuel
      refine ih (hrest c hc) fun s hs => h s ?_
      have hne : c.kind ≠ "lambda_literal" := by rintro hk'; simp [misplacedBodyKinds, hk'] at hk
      rw [misplacedSymbols]
      exact List.mem_flatMap.2 ⟨c, hc, by simpa [hne, hk] using hs⟩

theorem height_lt_of_mem_delegationSpecifiers {n d : Node} (h : d ∈ delegationSpecifiers n) :
    d.tree.height < n.tree.height := by
  rcases List.mem_append.1 h with h | h
  · exact height_lt_of_mem_children (mem_childrenOfKind_iff.1 h).1
  · obtain ⟨list, hl, h⟩ := List.mem_flatMap.1 h
    exact Nat.lt_trans (height_lt_of_mem_children (mem_childrenOfKind_iff.1 h).1)
      (height_lt_of_mem_children (mem_childrenOfKind_iff.1 hl).1)

/-- From what is looked into the walk goes on with fuel for all that is below. -/
theorem exists_fuel_of_outside {n : Node} (hn : Outside f n) :
    ∃ fuel, n.tree.height ≤ fuel ∧ ∀ s ∈ topLevelSymbols f fuel n, s ∈ symbols f := by
  induction hn with
  | top => exact ⟨_, Nat.le_refl _, fun s hs => hs⟩
  | @inner n c _ hc hk hh ih =>
      obtain ⟨fuel, hfuel, h⟩ := ih
      obtain ⟨rest, rfl, hrest⟩ := exists_fuel_of_height_le hfuel
      refine ⟨rest, hrest c hc, fun s hs => h s ?_⟩
      rw [topLevelSymbols]
      refine List.mem_flatMap.2 ⟨c, hc, ?_⟩
      split <;> first | exact hs | simp_all [topKinds, headKinds]

theorem reached_of_outside {n c : Node} (hn : Outside f n) (hc : c ∈ n.children)
    (hk : c.kind ∈ topKinds) : Reached f none c := by
  obtain ⟨fuel, hfuel, h⟩ := exists_fuel_of_outside hn
  obtain ⟨rest, rfl, hrest⟩ := exists_fuel_of_height_le hfuel
  rw [topLevelSymbols] at h
  have hmem := fun s hs => h s (List.mem_flatMap.2 ⟨c, hc, hs⟩)
  have ofClass (hk : c.kind ∈ classKinds)
      (h : ∀ s ∈ classSymbols f (rest + 1) none c, s ∈ symbols f) : Reached f none c := by
    rw [Reached, if_pos hk]
    exact ⟨rest + 1, Nat.le_succ_of_le (hrest c hc), h⟩
  simp only [topKinds, List.mem_cons, List.not_mem_nil, or_false] at hk
  rcases hk with hk | hk | hk | hk | hk
  · exact ofClass (by simp [classKinds, hk]) (by simpa [hk] using hmem)
  · exact ofClass (by simp [classKinds, hk]) (by simpa [hk] using hmem)
  · simpa [Reached, classKinds, declaredAt, hk] using hmem
  · simpa [Reached, classKinds, declaredAt, hk] using hmem
  · simpa [Reached, classKinds, declaredAt, hk] using hmem

/-- Induction over what is met: the walk reaches it. -/
theorem reached_of_met {misread : Bool} {owner : Option Owner} {n : Node}
    (h : Met f misread owner n) : Reached f owner n := by
  induction h with
  | top hn hc hk => exact reached_of_outside hn hc hk
  | @parameter misread owner n p name _ hk hname hp ih =>
      have hpk : p.kind ∉ classKinds := by rw [(below_of_mem_classParameters hp).2]; decide
      rw [Reached, if_neg hpk]
      exact (ih.of_class hk hname).1 p hp
  | @member misread ofBody owner n body c name _ hk hname hbody hc hck ih =>
      obtain ⟨-, -, fuel, hfuel, h⟩ := ih.of_class hk hname
      cases hbody with
      | proper hbody =>
          rw [hbody] at h
          have hlt := height_lt_of_mem_children (kind_of_classBody? hbody).1
          exact reached_of_memberSymbols (Nat.le_of_lt_succ (Nat.lt_of_lt_of_le hlt hfuel)) h hc hck
      | @misread d _ hnone hd hmisread =>
          rw [hnone] at h
          have hlt := height_lt_of_mem_delegationSpecifiers hd
          obtain ⟨rest, hrest, h⟩ := exists_memberSymbols_of_misread (o := ownerAt f n name)
            hmisread (Nat.le_of_lt_succ (Nat.lt_of_lt_of_le hlt hfuel))
            fun s hs => h s (List.mem_flatMap.2 ⟨d, hd, hs⟩)
          exact reached_of_memberSymbols hrest h hc hck

/-- **Every symbol of a declaration that is met is one of the file.** -/
theorem mem_symbols_of_ofMet {s : Symbol} (h : OfMet f s) : s ∈ symbols f := by
  obtain ⟨misread, owner, n, hn, hs⟩ := h
  have hreached := reached_of_met hn
  by_cases hk : n.kind ∈ classKinds
  · cases hname : declarationName? n f.text with
    | none =>
        -- a class without a name introduces nothing
        simp only [classKinds, List.mem_cons, List.not_mem_nil, or_false] at hk
        rcases hk with hk | hk | hk <;> simp [declaredAt, declaredAt.ofClass, hk, hname] at hs
    | some name => exact (hreached.of_class hk hname).2.1 s hs
  · rw [Reached, if_neg hk] at hreached
    exact hreached s hs

/-- **The symbols of a file are exactly those of the declarations that are met.** -/
theorem mem_symbols_iff {s : Symbol} : s ∈ symbols f ↔ OfMet f s :=
  ⟨ofMet_of_mem_symbols, mem_symbols_of_ofMet⟩

end Complete

end Crossref.Kotlin
