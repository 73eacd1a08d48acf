import Crossref.Proofs.Java.Symbols

/-!
# Proofs — Java — the declarations that the walk meets

The symbols of a file are those of the declarations that a walk over its tree meets: the classes at
its top, the constants of a class that is met, and the members in its body, classes among them.
`declaredAt` are the symbols of one declaration.

* `mem_symbols_iff`: the symbols of a file are exactly those of what is met.
-/

namespace Crossref.Java
open Node

/-! ### What is met -/

/-- The constants of an enum. -/
def constantsOf (n : Node) : List Node :=
  ((n.childInField? "body").map (·.childrenOfKind "enum_constant")).getD []

/-- The declarations that may stand in the body of a class, apart from constants. -/
def memberKinds : List String :=
  classKinds ++ ["method_declaration"] ++ constructorKinds ++ fieldKinds

/-- The declarations that are met, each with the class that it belongs to. -/
inductive Met (f : SourceFile) : Option Symbol → Node → Prop where
  | top {c : Node} (hc : c ∈ f.top.children) (hk : c.kind ∈ classKinds) : Met f none c
  | constant {owner : Option Symbol} {n c : Node} {name : String} (hn : Met f owner n)
      (hk : n.kind ∈ classKinds) (hname : declarationName? n f.text = some name)
      (hc : c ∈ constantsOf n) :
      Met f (some (classSymbol f (owner.map Symbol.handle) name n)) c
  | member {owner : Option Symbol} {n m : Node} {name : String} (hn : Met f owner n)
      (hk : n.kind ∈ classKinds) (hname : declarationName? n f.text = some name)
      (hm : m ∈ membersOf n) (hmk : m.kind ∈ memberKinds) :
      Met f (some (classSymbol f (owner.map Symbol.handle) name n)) m

/-! ### What is declared -/

/-- What a class introduces: the constructor that it has without writing one, and itself. -/
def classOwn (f : SourceFile) (cls : Symbol) (n : Node) : List Symbol :=
  (implicitConstructor? f cls (membersOf n) n).toList ++ [cls]

/-- The symbols of a member that is no class. -/
def leafSymbols (f : SourceFile) (cls : Symbol) (m : Node) : List Symbol :=
  if m.kind = "method_declaration" then (methodSymbol? f cls m).toList
  else if constructorKinds.contains m.kind then [constructorSymbol f cls m]
  else if fieldKinds.contains m.kind then fieldSymbols f cls m
  else []

/-- The symbols of one declaration, given the class that it belongs to. -/
def declaredAt (f : SourceFile) (owner : Option Symbol) (n : Node) : List Symbol :=
  if classKinds.contains n.kind then
    match declarationName? n f.text with
    | some name => classOwn f (classSymbol f (owner.map Symbol.handle) name n) n
    | none => []
  else
    match owner with
    | some cls =>
      if n.kind = "enum_constant" then (enumConstantSymbol? f cls n).toList
      else leafSymbols f cls n
    | none => []

/-- The symbol is one of a declaration that is met. -/
def OfMet (f : SourceFile) (s : Symbol) : Prop :=
  ∃ owner n, Met f owner n ∧ s ∈ declaredAt f owner n

/-- What a class introduces, then its constants, then its members. -/
theorem classSymbols_succ {f : SourceFile} {fuel : Nat} {parent : Option Handle} {n : Node}
    {name : String} (hname : declarationName? n f.text = some name) :
    classSymbols f (fuel + 1) parent n =
      classOwn f (classSymbol f parent name n) n
        ++ (constantsOf n).filterMap (enumConstantSymbol? f (classSymbol f parent name n))
        ++ (membersOf n).flatMap fun m =>
          if classKinds.contains m.kind then
            classSymbols f fuel (some (classSymbol f parent name n).handle) m
          else leafSymbols f (classSymbol f parent name n) m := by
  rw [classSymbols, hname]
  rfl

theorem declaredAt_class {f : SourceFile} {owner : Option Symbol} {n : Node} {name : String}
    (hk : n.kind ∈ classKinds) (hname : declarationName? n f.text = some name) :
    declaredAt f owner n = classOwn f (classSymbol f (owner.map Symbol.handle) name n) n := by
  simp [declaredAt, hk, hname]

theorem declaredAt_leaf {f : SourceFile} {cls : Symbol} {n : Node}
    (hk : n.kind ∉ classKinds) (hc : n.kind ≠ "enum_constant") :
    declaredAt f (some cls) n = leafSymbols f cls n := by
  rw [declaredAt, if_neg (by simpa using hk)]
  simp only [if_neg hc]

theorem declaredAt_constant {f : SourceFile} {cls : Symbol} {n : Node}
    (hk : n.kind = "enum_constant") :
    declaredAt f (some cls) n = (enumConstantSymbol? f cls n).toList := by
  have hclass : ¬ classKinds.contains n.kind = true := by rw [hk]; decide
  rw [declaredAt, if_neg hclass]
  simp only [if_pos hk]

/-- Only members introduce symbols. -/
theorem mem_memberKinds_of_mem_leafSymbols {f : SourceFile} {cls s : Symbol} {m : Node}
    (h : s ∈ leafSymbols f cls m) : m.kind ∈ memberKinds ∧ m.kind ≠ "enum_constant" := by
  unfold leafSymbols at h
  split at h
  · next hk => rw [hk]; decide
  · split at h
    · next hk =>
      simp only [constructorKinds, List.contains_eq_mem, List.mem_cons, List.not_mem_nil, or_false,
        decide_eq_true_eq] at hk
      rcases hk with hk | hk <;> rw [hk] <;> decide
    · split at h
      · next hk =>
        simp only [fieldKinds, List.contains_eq_mem, List.mem_cons, List.not_mem_nil, or_false,
          decide_eq_true_eq] at hk
        rcases hk with hk | hk <;> rw [hk] <;> decide
      · cases h

theorem kind_of_mem_constantsOf {n c : Node} (h : c ∈ constantsOf n) :
    c.kind = "enum_constant" := (below_of_mem_enumConstants h).2

/-! ### Every symbol is one of what is met, and the other way round -/

section Walk

variable {f : SourceFile} {s : Symbol}

theorem ofMet_of_mem_classSymbols : ∀ {fuel : Nat} {owner : Option Symbol} {n : Node},
    Met f owner n → n.kind ∈ classKinds → s ∈ classSymbols f fuel (owner.map Symbol.handle) n →
      OfMet f s
  | 0, _, _, _, _, h => by cases h
  | fuel + 1, owner, n, hn, hk, h => by
      cases hname : declarationName? n f.text with
      | none =>
          rw [classSymbols, hname] at h
          cases h
      | some name =>
          rw [classSymbols_succ hname, List.append_assoc] at h
          rcases List.mem_append.1 h with h | h
          · exact ⟨owner, n, hn, by rwa [declaredAt_class hk hname]⟩
          · rcases List.mem_append.1 h with h | h
            · obtain ⟨c, hc, h⟩ := List.mem_filterMap.1 h
              refine ⟨_, c, .constant hn hk hname hc, ?_⟩
              rw [declaredAt_constant (kind_of_mem_constantsOf hc)]
              exact Option.mem_toList.2 h
            · obtain ⟨m, hm, h⟩ := List.mem_flatMap.1 h
              split at h
              · next hmk =>
                have hmk := List.contains_iff_mem.1 hmk
                have hmet := Met.member hn hk hname hm (by simp [memberKinds, hmk])
                exact ofMet_of_mem_classSymbols hmet hmk h
              · next hmk =>
                obtain ⟨hkind, hne⟩ := mem_memberKinds_of_mem_leafSymbols h
                refine ⟨_, m, .member hn hk hname hm hkind, ?_⟩
                rwa [declaredAt_leaf (by simpa using hmk) hne]

theorem ofMet_of_mem_symbols (h : s ∈ symbols f) : OfMet f s := by
  obtain ⟨c, hc, h⟩ := List.mem_flatMap.1 h
  obtain ⟨hc, hk⟩ := List.mem_filter.1 hc
  have hk := List.contains_iff_mem.1 hk
  exact ofMet_of_mem_classSymbols (.top hc hk) hk h

/-- The symbols of a class that is met are among those of the file, with fuel for all that is below
it. -/
theorem exists_fuel_of_met {owner : Option Symbol} {n : Node} (hn : Met f owner n)
    (hk : n.kind ∈ classKinds) : ∃ fuel, n.tree.height ≤ fuel ∧
      ∀ s ∈ classSymbols f fuel (owner.map Symbol.handle) n, s ∈ symbols f := by
  induction hn with
  | @top c hc _ =>
      refine ⟨f.tree.height, Nat.le_of_lt (height_lt_of_mem_children hc), fun s hs => ?_⟩
      exact List.mem_flatMap.2 ⟨c, List.mem_filter.2 ⟨hc, List.contains_iff_mem.2 hk⟩, hs⟩
  | constant _ _ _ hc =>
      have hnot : "enum_constant" ∉ classKinds := by decide
      exact absurd (kind_of_mem_constantsOf hc ▸ hk) hnot
  | @member owner n m name _ hk' hname hm _ ih =>
      obtain ⟨fuel, hfuel, h⟩ := ih hk'
      obtain ⟨rest, rfl, hrest⟩ := exists_fuel_of_height_le hfuel
      obtain ⟨body, hbody, hb⟩ := exists_body_of_mem_membersOf hm
      refine ⟨rest, Nat.le_trans hb.height_le (hrest body hbody), fun s hs => h s ?_⟩
      rw [classSymbols_succ hname]
      refine List.mem_append_right _ (List.mem_flatMap.2 ⟨m, hm, ?_⟩)
      rwa [if_pos (List.contains_iff_mem.2 hk)]

/-- From a class that is met the walk reaches its constants and its members. -/
theorem mem_symbols_of_class {owner : Option Symbol} {n : Node} {name : String} (hn : Met f owner n)
    (hk : n.kind ∈ classKinds) (hname : declarationName? n f.text = some name) :
    (∀ s ∈ declaredAt f owner n, s ∈ symbols f) ∧
      (∀ c ∈ constantsOf n, ∀ s ∈ enumConstantSymbol? f
        (classSymbol f (owner.map Symbol.handle) name n) c, s ∈ symbols f) ∧
      ∀ m ∈ membersOf n, m.kind ∉ classKinds → ∀ s ∈ leafSymbols f
        (classSymbol f (owner.map Symbol.handle) name n) m, s ∈ symbols f := by
  obtain ⟨fuel, hfuel, h⟩ := exists_fuel_of_met hn hk
  obtain ⟨rest, rfl, -⟩ := exists_fuel_of_height_le hfuel
  rw [classSymbols_succ hname] at h
  refine ⟨fun s hs => h s ?_, fun c hc s hs => h s ?_, fun m hm hmk s hs => h s ?_⟩
  · rw [declaredAt_class hk hname] at hs
    exact List.mem_append_left _ (List.mem_append_left _ hs)
  · exact List.mem_append_left _ (List.mem_append_right _ (List.mem_filterMap.2 ⟨c, hc, hs⟩))
  · refine List.mem_append_right _ (List.mem_flatMap.2 ⟨m, hm, ?_⟩)
    rwa [if_neg (by simpa using hmk)]

theorem mem_symbols_of_ofMet (h : OfMet f s) : s ∈ symbols f := by
  obtain ⟨owner, n, hn, hs⟩ := h
  by_cases hk : n.kind ∈ classKinds
  · cases hname : declarationName? n f.text with
    | none => simp [declaredAt, hk, hname] at hs
    | some name => exact (mem_symbols_of_class hn hk hname).1 s hs
  · cases hn with
    | top _ hk' => exact absurd hk' hk
    | constant hm hmk hname hc =>
        rw [declaredAt_constant (kind_of_mem_constantsOf hc)] at hs
        exact (mem_symbols_of_class hm hmk hname).2.1 n hc s (Option.mem_toList.1 hs)
    | member hm hmk hname hmem hkind =>
        have hne : n.kind ≠ "enum_constant" := fun h => absurd (h ▸ hkind) (by decide)
        rw [declaredAt_leaf hk hne] at hs
        exact (mem_symbols_of_class hm hmk hname).2.2 n hmem hk s hs

/-- **The symbols of a file are exactly those of the declarations that are met.** -/
theorem mem_symbols_iff : s ∈ symbols f ↔ OfMet f s :=
  ⟨ofMet_of_mem_symbols, mem_symbols_of_ofMet⟩

end Walk

end Crossref.Java
