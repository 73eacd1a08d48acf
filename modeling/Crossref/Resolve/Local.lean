import Crossref.SourceFile

/-!
# Resolution: local bindings

The parameters, variables and functions that are bound around a place in a function, innermost
scope first.  Each construct that opens a scope binds names of its own; the first scope on the way
up that binds the name decides.

* `localBindings_eq_nil_iff`: nothing is bound exactly when no scope on the way up binds the name.
-/

namespace Crossref.Resolve

/-- The symbol of a local binding at a node; it is made on the spot and stands in no index. -/
def localSymbol (f : SourceFile) (n : Node) (kind : Symbol.Kind) (name : String) : Symbol :=
  let key := f.keyOf n
  let plain :=
    { Symbol.ofHandle ⟨f.id, key.start, key.stop, kind, 0⟩ name f.origin f.language f.path with
      typeText :=
        match n.kind with
        | "property_declaration" =>
          (n.childOfKind? "variable_declaration").bind (Kotlin.typeText? · f.text)
        | "function_declaration" => Kotlin.returnType? n f.text
        | _ => Kotlin.typeText? n f.text
      isMutable := Kotlin.binding? n f.text == some "var" }
  if kind = .function then
    { plain with
      receiverType := Kotlin.receiverType? n f.text
      parameterCount := Kotlin.parameterCount? n
      modifiers := Kotlin.modifiers n f.text }
  else plain

/-- The first identifier written directly at the node. -/
def identifierOf? (f : SourceFile) (n : Node) : Option String :=
  (n.childOfKind? "simple_identifier").map f.textOf

/-- The first identifier written directly at the node is `name`. -/
def isNamedAs (f : SourceFile) (name : String) (n : Node) : Bool :=
  identifierOf? f n == some name

/-- The variables that a parameter or a loop head writes: itself, or those it takes apart. -/
def variablesOf (n : Node) : List Node :=
  match n.kind with
  | "variable_declaration" => [n]
  | "multi_variable_declaration" => n.childrenOfKind "variable_declaration"
  | _ => []

/-! ### Blocks -/

/-- What a statement of a block adds to the bindings of the statements before it: a variable hides
all of them, a function joins them. -/
def bindStatement (f : SourceFile) (name : String) (found : List Symbol) (statement : Node) :
    List Symbol :=
  match statement.kind with
  | "property_declaration" =>
    let single := (statement.childOfKind? "variable_declaration").toList.filter (isNamedAs f name)
    let components :=
      ((statement.childOfKind? "multi_variable_declaration").toList.flatMap variablesOf).filter
        (isNamedAs f name)
    match components.getLast?, single with
    | some component, _ => [localSymbol f component .destructuringComponent name]
    | none, _ :: _ => [localSymbol f statement .localVariable name]
    | none, [] => found
  | "function_declaration" =>
    if Kotlin.declarationName? statement f.text = some name then
      found ++ [localSymbol f statement .function name]
    else found
  | _ => found

/-- The bindings of the statements that start before byte `b`. -/
def blockBindings (f : SourceFile) (name : String) (block : Node) (b : Nat) : List Symbol :=
  (block.children.takeWhile (·.start < b)).foldl (bindStatement f name) []

/-! ### The other scopes -/

/-- The parameters of a lambda; one without a parameter list binds `it`. -/
def lambdaBindings (f : SourceFile) (name : String) (lambda : Node) : List Symbol :=
  match lambda.childOfKind? "lambda_parameters" with
  | some list =>
    ((list.children.flatMap variablesOf).filter (isNamedAs f name)).map
      (localSymbol f · .parameter name)
  | none => if name = "it" then [localSymbol f lambda .parameter name] else []

/-- The parameters of a function or a secondary constructor. -/
def functionBindings (f : SourceFile) (name : String) (function : Node) : List Symbol :=
  ((Kotlin.valueParameters function).filter (isNamedAs f name)).map
    (localSymbol f · .parameter name)

/-- The variables in the head of a loop. -/
def loopBindings (f : SourceFile) (name : String) (loop : Node) : List Symbol :=
  ((loop.children.flatMap variablesOf).filter (isNamedAs f name)).map
    (localSymbol f · .localVariable name)

/-- The parameter of a catch block, declared by its identifier. -/
def catchBindings (f : SourceFile) (name : String) (block : Node) : List Symbol :=
  ((block.childOfKind? "simple_identifier").toList.filter fun n => f.textOf n = name).map
    (localSymbol f · .parameter name)

/-- The parameter of a setter. -/
def setterBindings (f : SourceFile) (name : String) (setter : Node) : List Symbol :=
  ((setter.childOfKind? "parameter_with_optional_type").toList.filter (isNamedAs f name)).map
    (localSymbol f · .parameter name)

/-- The constructor parameters of a class that are no properties. -/
def classBindings (f : SourceFile) (name : String) (cls : Node) : List Symbol :=
  ((Kotlin.classParameters cls).filter fun p =>
    Kotlin.binding? p f.text = none && isNamedAs f name p).map (localSymbol f · .parameter name)

/-- What a node binds for the one of its children that `current` stands for. -/
def scopeBindings (f : SourceFile) (name : String) (scope current : Node) : List Symbol :=
  match scope.kind with
  | "statements" => blockBindings f name scope current.start
  | "lambda_literal" => lambdaBindings f name scope
  | "function_declaration" => functionBindings f name scope
  | "secondary_constructor" => functionBindings f name scope
  | "anonymous_function" => functionBindings f name scope
  | "for_statement" => loopBindings f name scope
  | "catch_block" => catchBindings f name scope
  | "setter" => setterBindings f name scope
  | "class_declaration" => classBindings f name scope
  | _ => []

/-! ### The way up -/

/-- The bindings of the first scope that has any, on the way up from `current` through the given
ancestors. -/
def bindingsAbove (f : SourceFile) (name : String) : Node → List Node → List Symbol
  | _, [] => []
  | current, scope :: above =>
    match scopeBindings f name scope current with
    | [] => bindingsAbove f name scope above
    | found => found

/-- The local bindings of `name` at a node. -/
def localBindings (f : SourceFile) (name : String) (n : Node) : List Symbol :=
  bindingsAbove f name n n.ancestors

theorem bindingsAbove_eq_nil_iff {f : SourceFile} {name : String} {above : List Node} :
    ∀ {current : Node}, bindingsAbove f name current above = [] ↔
      ∀ p ∈ (current :: above).zip above, scopeBindings f name p.2 p.1 = [] := by
  induction above with
  | nil => intro current; simp [bindingsAbove]
  | cons scope above ih =>
    intro current
    rw [bindingsAbove]
    split
    · next h => simp [h, ih]
    · next h => exact ⟨fun e => absurd e h, fun e => absurd (e (current, scope) (by simp)) h⟩

theorem localBindings_eq_nil_iff {f : SourceFile} {name : String} {n : Node} :
    localBindings f name n = [] ↔
      ∀ p ∈ (n :: n.ancestors).zip n.ancestors, scopeBindings f name p.2 p.1 = [] :=
  bindingsAbove_eq_nil_iff

end Crossref.Resolve
