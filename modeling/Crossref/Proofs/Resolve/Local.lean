import Crossref.Proofs.Kotlin.Symbols
import Crossref.Resolve.Local

/-!
# Proofs — resolution — where local bindings stand

A local binding is made on the spot, for a node that lies below one of the scopes around the name:
a parameter, a variable, a function among the statements of a block, or the lambda that binds `it`.
Scopes are ancestors, so the node is a place of the same tree, and the binding's declaration is the
key of the node.

* `exists_binds_of_mem_scopeBindings`: what a scope gives is bound by it.
* `exists_place_of_mem_localBindings`: a local binding is declared by a place of the file's tree.
-/

namespace Crossref.Resolve
open Node

/-- The symbol of a local binding is declared by its node. -/
theorem declaration_localSymbol (f : SourceFile) (n : Node) (kind : Symbol.Kind) (name : String) :
    (localSymbol f n kind name).declaration = f.keyOf n := by
  by_cases hk : kind = .function
  · rw [localSymbol, if_pos hk]; rfl
  · rw [localSymbol, if_neg hk]; rfl

/-- The node may bind the name: a variable or a parameter any name, a function the one it
declares. -/
def CanBind (f : SourceFile) (m : Node) (kind : Symbol.Kind) (name : String) : Prop :=
  kind.isLocal = true ∨
    kind = .function ∧ m.kind = "function_declaration" ∧
      Kotlin.declarationName? m f.text = some name

/-! ### What a scope binds -/

/-- The scope binds the name at a node, the *binder*, with a symbol: a block at one of its
statements, a lambda without parameters at itself, every other construct at a parameter or a
variable. -/
inductive Binds (f : SourceFile) (name : String) (scope : Node) : Node → Symbol → Prop where
  | single {statement v : Node} (hscope : scope.kind = "statements")
      (hs : statement ∈ scope.children) (hk : statement.kind = "property_declaration")
      (hv : v ∈ statement.childOfKind? "variable_declaration")
      (hname : isNamedAs f name v = true) :
      Binds f name scope statement (localSymbol f statement .localVariable name)
  | component {statement multi v : Node} (hscope : scope.kind = "statements")
      (hs : statement ∈ scope.children) (hk : statement.kind = "property_declaration")
      (hm : multi ∈ statement.childOfKind? "multi_variable_declaration")
      (hv : v ∈ variablesOf multi) (hname : isNamedAs f name v = true) :
      Binds f name scope statement (localSymbol f v .destructuringComponent name)
  | function {statement : Node} (hscope : scope.kind = "statements")
      (hs : statement ∈ scope.children) (hk : statement.kind = "function_declaration")
      (hname : Kotlin.declarationName? statement f.text = some name) :
      Binds f name scope statement (localSymbol f statement .function name)
  | lambdaParameter {list v : Node} (hscope : scope.kind = "lambda_literal")
      (hl : scope.childOfKind? "lambda_parameters" = some list)
      (hv : v ∈ list.children.flatMap variablesOf) (hname : isNamedAs f name v = true) :
      Binds f name scope v (localSymbol f v .parameter name)
  | implicitParameter (hscope : scope.kind = "lambda_literal")
      (hl : scope.childOfKind? "lambda_parameters" = none) (hname : name = "it") :
      Binds f name scope scope (localSymbol f scope .parameter name)
  | parameter {p : Node}
      (hscope : scope.kind ∈
        ["function_declaration", "secondary_constructor", "anonymous_function"])
      (hp : p ∈ Kotlin.valueParameters scope) (hname : isNamedAs f name p = true) :
      Binds f name scope p (localSymbol f p .parameter name)
  | loopVariable {v : Node} (hscope : scope.kind = "for_statement")
      (hv : v ∈ scope.children.flatMap variablesOf) (hname : isNamedAs f name v = true) :
      Binds f name scope v (localSymbol f v .localVariable name)
  | caught {p : Node} (hscope : scope.kind = "catch_block")
      (hp : p ∈ scope.childOfKind? "simple_identifier") (hname : f.textOf p = name) :
      Binds f name scope p (localSymbol f p .parameter name)
  | setterParameter {p : Node} (hscope : scope.kind = "setter")
      (hp : p ∈ scope.childOfKind? "parameter_with_optional_type")
      (hname : isNamedAs f name p = true) :
      Binds f name scope p (localSymbol f p .parameter name)
  | constructorParameter {p : Node} (hscope : scope.kind = "class_declaration")
      (hp : p ∈ Kotlin.classParameters scope) (hplain : Kotlin.binding? p f.text = none)
      (hname : isNamedAs f name p = true) :
      Binds f name scope p (localSymbol f p .parameter name)

theorem below_of_mem_variablesOf {n m : Node} (h : m ∈ variablesOf n) : Below n m := by
  unfold variablesOf at h
  split at h
  · obtain rfl := List.mem_singleton.1 h
    exact .refl
  · exact .of_mem_children (mem_childrenOfKind_iff.1 h).1
  · cases h

theorem below_of_mem_variables {n m : Node} (h : m ∈ n.children.flatMap variablesOf) :
    Below n m := by
  obtain ⟨c, hc, h⟩ := List.mem_flatMap.1 h
  exact (Below.of_mem_children hc).trans (below_of_mem_variablesOf h)

theorem below_of_mem_valueParameters {n p : Node} (h : p ∈ Kotlin.valueParameters n) :
    Below n p := by
  unfold Kotlin.valueParameters at h
  split at h
  · next list hl =>
    exact (Below.of_mem_children (mem_of_childOfKind? hl).1).child (mem_childrenOfKind_iff.1 h).1
  · cases h

theorem below_of_mem_childOfKind? {n m : Node} {kind : String} (h : m ∈ n.childOfKind? kind) :
    Below n m :=
  .of_mem_children (mem_of_childOfKind? h).1

/-- **What a scope binds is declared below it**, by a node that may bind the name. -/
theorem Binds.exists_canBind {f : SourceFile} {name : String} {scope binder : Node} {s : Symbol}
    (h : Binds f name scope binder s) :
    ∃ m kind, Below scope m ∧ CanBind f m kind name ∧ s = localSymbol f m kind name := by
  cases h with
  | single _ hs _ _ _ => exact ⟨_, _, .of_mem_children hs, .inl rfl, rfl⟩
  | component _ hs _ hm hv _ =>
      have hbelow := (below_of_mem_childOfKind? hm).trans (below_of_mem_variablesOf hv)
      exact ⟨_, _, (Below.of_mem_children hs).trans hbelow, .inl rfl, rfl⟩
  | function _ hs hk hname => exact ⟨_, _, .of_mem_children hs, .inr ⟨rfl, hk, hname⟩, rfl⟩
  | lambdaParameter _ hl hv _ =>
      have hbelow := (below_of_mem_childOfKind? hl).trans (below_of_mem_variables hv)
      exact ⟨_, _, hbelow, .inl rfl, rfl⟩
  | implicitParameter _ _ _ => exact ⟨_, _, .refl, .inl rfl, rfl⟩
  | parameter _ hp _ => exact ⟨_, _, below_of_mem_valueParameters hp, .inl rfl, rfl⟩
  | loopVariable _ hv _ => exact ⟨_, _, below_of_mem_variables hv, .inl rfl, rfl⟩
  | caught _ hp _ => exact ⟨_, _, below_of_mem_childOfKind? hp, .inl rfl, rfl⟩
  | setterParameter _ hp _ => exact ⟨_, _, below_of_mem_childOfKind? hp, .inl rfl, rfl⟩
  | constructorParameter _ hp _ _ =>
      exact ⟨_, _, (Kotlin.below_of_mem_classParameters hp).1, .inl rfl, rfl⟩

/-! ### Blocks -/

/-- What is found after a statement was found before, or the statement binds it. -/
theorem binds_of_mem_bindStatement {f : SourceFile} {name : String} {found : List Symbol}
    {scope statement : Node} {s : Symbol} (hscope : scope.kind = "statements")
    (hs : statement ∈ scope.children) (h : s ∈ bindStatement f name found statement) :
    s ∈ found ∨ Binds f name scope statement s := by
  unfold bindStatement at h
  split at h
  · next hk =>
    dsimp only at h
    split at h
    · next component hc =>
      obtain rfl := List.mem_singleton.1 h
      obtain ⟨hmem, hname⟩ := List.mem_filter.1 (List.mem_of_getLast? hc)
      obtain ⟨multi, hmulti, hmem⟩ := List.mem_flatMap.1 hmem
      exact .inr (.component hscope hs hk (Option.mem_toList.1 hmulti) hmem hname)
    · next v rest _ hsingle =>
      obtain rfl := List.mem_singleton.1 h
      have hv : v ∈ _ := hsingle ▸ List.mem_cons_self
      obtain ⟨hmem, hname⟩ := List.mem_filter.1 hv
      exact .inr (.single hscope hs hk (Option.mem_toList.1 hmem) hname)
    · exact .inl h
  · next hk =>
    split at h
    · next hname =>
      rcases List.mem_append.1 h with h | h
      · exact .inl h
      · obtain rfl := List.mem_singleton.1 h
        exact .inr (.function hscope hs hk hname)
    · exact .inl h
  · exact .inl h

/-- Induction over the statements of a block: what is found in the end was found before or is
bound by one of them. -/
theorem exists_binds_of_mem_foldl {f : SourceFile} {name : String} {scope : Node} {s : Symbol}
    (hscope : scope.kind = "statements") :
    ∀ {statements : List Node} {found : List Symbol}, (∀ m ∈ statements, m ∈ scope.children) →
      s ∈ statements.foldl (bindStatement f name) found →
      s ∈ found ∨ ∃ statement ∈ statements, Binds f name scope statement s
  | [], _, _, h => .inl h
  | statement :: statements, found, hsub, h => by
      rcases exists_binds_of_mem_foldl hscope
        (fun m hm => hsub m (List.mem_cons_of_mem _ hm)) h with h | ⟨m, hm, hbinds⟩
      · rcases binds_of_mem_bindStatement hscope (hsub statement List.mem_cons_self) h with h | h
        · exact .inl h
        · exact .inr ⟨statement, List.mem_cons_self, h⟩
      · exact .inr ⟨m, List.mem_cons_of_mem _ hm, hbinds⟩

/-- A block gives what one of its statements binds that begin before the byte. -/
theorem exists_binds_of_mem_blockBindings {f : SourceFile} {name : String} {scope : Node} {b : Nat}
    {s : Symbol} (hscope : scope.kind = "statements") (h : s ∈ blockBindings f name scope b) :
    ∃ statement ∈ scope.children, statement.start < b ∧ Binds f name scope statement s := by
  have hbefore {m : Node} (hm : m ∈ scope.children.takeWhile (·.start < b)) :
      m ∈ scope.children ∧ m.start < b :=
    ⟨(List.takeWhile_sublist _).subset hm,
      by simpa using List.all_eq_true.1 List.all_takeWhile m hm⟩
  rcases exists_binds_of_mem_foldl hscope (fun m hm => (hbefore hm).1) h with h | ⟨m, hm, hbinds⟩
  · cases h
  · exact ⟨m, (hbefore hm).1, (hbefore hm).2, hbinds⟩

/-! ### The other scopes -/

/-- What is bound at those nodes of a list that pass a test. -/
theorem mem_boundAt_iff {f : SourceFile} {name : String} {kind : Symbol.Kind} {p : Node → Bool}
    {nodes : List Node} {s : Symbol} :
    s ∈ (nodes.filter p).map (localSymbol f · kind name) ↔
      ∃ v ∈ nodes, p v = true ∧ localSymbol f v kind name = s := by
  simp only [List.mem_map, List.mem_filter, and_assoc]

/-- A lambda binds the parameters that it lists, and `it` if it has no list. -/
theorem exists_binds_of_mem_lambdaBindings {f : SourceFile} {name : String} {scope : Node}
    {s : Symbol} (hk : scope.kind = "lambda_literal") (h : s ∈ lambdaBindings f name scope) :
    ∃ binder, Binds f name scope binder s := by
  unfold lambdaBindings at h
  split at h
  · next list hl =>
    obtain ⟨v, hv, hname, rfl⟩ := mem_boundAt_iff.1 h
    exact ⟨v, .lambdaParameter hk hl hv hname⟩
  · next hl =>
    split at h
    · next hname =>
      obtain rfl := List.mem_singleton.1 h
      exact ⟨scope, .implicitParameter hk hl hname⟩
    · cases h

/-- What a construct that is no block gives for a place in it is bound by it. -/
theorem exists_binds_of_mem_construct {f : SourceFile} {name : String} {scope current : Node}
    {s : Symbol} (hscope : scope.kind ≠ "statements") (h : s ∈ scopeBindings f name scope current) :
    ∃ binder, Binds f name scope binder s := by
  unfold scopeBindings at h
  split at h
  · next hk => exact absurd hk hscope
  · next hk => exact exists_binds_of_mem_lambdaBindings hk h
  iterate 3
    · next hk =>
      obtain ⟨p, hp, hname, rfl⟩ := mem_boundAt_iff.1 h
      exact ⟨p, .parameter (by simp [hk]) hp hname⟩
  · next hk =>
    obtain ⟨v, hv, hname, rfl⟩ := mem_boundAt_iff.1 h
    exact ⟨v, .loopVariable hk hv hname⟩
  · next hk =>
    obtain ⟨p, hp, hname, rfl⟩ := mem_boundAt_iff.1 h
    exact ⟨p, .caught hk (Option.mem_toList.1 hp) (of_decide_eq_true hname)⟩
  · next hk =>
    obtain ⟨p, hp, hname, rfl⟩ := mem_boundAt_iff.1 h
    exact ⟨p, .setterParameter hk (Option.mem_toList.1 hp) hname⟩
  · next hk =>
    obtain ⟨p, hp, hplain, rfl⟩ := mem_boundAt_iff.1 h
    obtain ⟨hbinding, hname⟩ := Bool.and_eq_true_iff.1 hplain
    exact ⟨p, .constructorParameter hk hp (of_decide_eq_true hbinding) hname⟩
  · cases h

/-- A construct that is no block gives all that it binds, for whatever place in it. -/
theorem Binds.mem_scopeBindings {f : SourceFile} {name : String} {scope current binder : Node}
    {s : Symbol} (h : Binds f name scope binder s) (hscope : scope.kind ≠ "statements") :
    s ∈ scopeBindings f name scope current := by
  cases h with
  | single hk _ _ _ _ => exact absurd hk hscope
  | component hk _ _ _ _ _ => exact absurd hk hscope
  | function hk _ _ _ => exact absurd hk hscope
  | lambdaParameter hk hl hv hname =>
      simp only [scopeBindings, hk, lambdaBindings, hl]
      exact mem_boundAt_iff.2 ⟨binder, hv, hname, rfl⟩
  | implicitParameter hk hl hname =>
      simp only [scopeBindings, hk, lambdaBindings, hl, if_pos hname]
      exact List.mem_singleton_self _
  | parameter hk hp hname =>
      have hgives : scopeBindings f name scope current = functionBindings f name scope := by
        simp only [List.mem_cons, List.not_mem_nil, or_false] at hk
        rcases hk with hk | hk | hk <;> simp only [scopeBindings, hk]
      rw [hgives]
      exact mem_boundAt_iff.2 ⟨binder, hp, hname, rfl⟩
  | loopVariable hk hv hname =>
      simp only [scopeBindings, hk]
      exact mem_boundAt_iff.2 ⟨binder, hv, hname, rfl⟩
  | caught hk hp hname =>
      simp only [scopeBindings, hk]
      exact mem_boundAt_iff.2 ⟨binder, Option.mem_toList.2 hp, decide_eq_true hname, rfl⟩
  | setterParameter hk hp hname =>
      simp only [scopeBindings, hk]
      exact mem_boundAt_iff.2 ⟨binder, Option.mem_toList.2 hp, hname, rfl⟩
  | constructorParameter hk hp hplain hname =>
      simp only [scopeBindings, hk]
      exact mem_boundAt_iff.2 ⟨binder, hp, by simp [hplain, hname], rfl⟩

/-- A construct that is no block gives exactly what it binds, for whatever place in it. -/
theorem mem_scopeBindings_iff {f : SourceFile} {name : String} {scope current : Node} {s : Symbol}
    (hscope : scope.kind ≠ "statements") :
    s ∈ scopeBindings f name scope current ↔ ∃ binder, Binds f name scope binder s :=
  ⟨exists_binds_of_mem_construct hscope, fun ⟨_, h⟩ => h.mem_scopeBindings hscope⟩

/-- **What a scope gives is bound by it.** -/
theorem exists_binds_of_mem_scopeBindings {f : SourceFile} {name : String} {scope current : Node}
    {s : Symbol} (h : s ∈ scopeBindings f name scope current) :
    ∃ binder, Binds f name scope binder s := by
  by_cases hscope : scope.kind = "statements"
  · simp only [scopeBindings, hscope] at h
    obtain ⟨statement, -, -, hbinds⟩ := exists_binds_of_mem_blockBindings hscope h
    exact ⟨statement, hbinds⟩
  · exact (mem_scopeBindings_iff hscope).1 h

/-! ### The way up -/

/-- What is found on the way up is given by one of the scopes, for the node below it. -/
theorem exists_scope_of_mem_bindingsAbove {f : SourceFile} {name : String} {s : Symbol} :
    ∀ {above : List Node} {current : Node}, s ∈ bindingsAbove f name current above →
      ∃ scope ∈ above, ∃ below, s ∈ scopeBindings f name scope below
  | [], _, h => by cases h
  | scope :: above, current, h => by
      rw [bindingsAbove] at h
      split at h
      · obtain ⟨a, ha, hs⟩ := exists_scope_of_mem_bindingsAbove h
        exact ⟨a, List.mem_cons_of_mem _ ha, hs⟩
      · exact ⟨scope, List.mem_cons_self, current, h⟩

/-- **A local binding is made for a place of the file's tree**, for a variable or a parameter, or
for a function of the name. -/
theorem exists_canBind_of_mem_localBindings {f : SourceFile} {name : String} {n : Node} {s : Symbol}
    (hn : Within f.tree n) (h : s ∈ localBindings f name n) :
    ∃ m kind bound, Within f.tree m ∧ CanBind f m kind bound ∧ s = localSymbol f m kind bound := by
  obtain ⟨scope, hscope, current, hs⟩ := exists_scope_of_mem_bindingsAbove h
  obtain ⟨binder, hbinds⟩ := exists_binds_of_mem_scopeBindings hs
  obtain ⟨m, kind, hm, hbind, rfl⟩ := hbinds.exists_canBind
  exact ⟨m, kind, name, hm.within (hn.ancestor hscope).1, hbind, rfl⟩

/-- **A local binding is declared by a place of the file's tree.** -/
theorem exists_place_of_mem_localBindings {f : SourceFile} {name : String} {n : Node} {s : Symbol}
    (hn : Within f.tree n) (h : s ∈ localBindings f name n) :
    ∃ m, Within f.tree m ∧ s.declaration = f.keyOf m := by
  obtain ⟨m, kind, bound, hm, -, rfl⟩ := exists_canBind_of_mem_localBindings hn h
  exact ⟨m, hm, declaration_localSymbol f m kind bound⟩

end Crossref.Resolve
