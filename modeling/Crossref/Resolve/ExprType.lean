import Crossref.Resolve.Name
import Crossref.Resolve.Operator

/-!
# Resolution: types of expressions, and the levels

The type of an expression and of what a symbol holds, and the stack of levels that all questions
are answered with: each level answers with the levels below it.

* `levels_length`: a stack is as high as asked.
* `top_levels_succ`: the top level of a stack is computed from the rest of the stack.
-/

namespace Crossref.Resolve

/-! ### Types of symbols -/

/-- The type with a name as written at a node. -/
def namedType (ls : Levels) (f : SourceFile) (n : Node) (name : String) : ExprType :=
  ⟨name, ls.top.classifierNamed f n name true⟩

/-- The expression behind the first equals sign of a declaration. -/
def initializer? (n : Node) : Option Node :=
  (n.children.dropWhile (·.kind != "=")).find? fun c => c.kind != "=" && c.isNamed

/-- The type that is read off a symbol's declaration: the one written there, or that of a
property's initializer. -/
def declaredTypeOf (index : Index) (ls : Levels) (s : Symbol) : Option ExprType := do
  let (f, anchor) ← index.anchor? s
  match s.typeText with
  | some text =>
    return ⟨Text.afterLast (Kotlin.simpleTypeName text) '.',
      ls.top.classifierNamed f anchor text true⟩
  | none =>
    if anchor.kind = "property_declaration" ∧ anchor.hasChildOfKind "property_delegate" = false then
      (initializer? anchor).bind (ls.top.typeOfExpr f)
    else none

/-- The type of what a symbol holds or results in: classifiers stand for themselves, constructors
and enum entries for their class, all else has its declared type. -/
def typeOfSymbol (index : Index) (ls : Levels) (s : Symbol) : Option ExprType :=
  match s.kind with
  | .object => some (.ofClassifier s)
  | .plainClass => some (.ofClassifier s)
  | .enumClass => some (.ofClassifier s)
  | .interface => some (.ofClassifier s)
  | .typeAlias => (followAlias index ls s).map .ofClassifier
  | .constructor => ownerType
  | .enumEntry => ownerType
  | _ => declaredTypeOf index ls s
where
  /-- The type of the class around the symbol, or else its declared type. -/
  ownerType : Option ExprType :=
    match s.parent.bind index.symbol? with
    | some owner => some (.ofClassifier owner)
    | none => declaredTypeOf index ls s

/-! ### Types of expressions -/

/-- The label of a `this` with one. -/
def thisLabel? (text : String) : Option String := Text.dropPrefix? text "this@"

/-- What an ancestor makes of a `this` below it: nothing and the way up goes on, or an answer that
ends it.  A label must be the name of the ancestor. -/
def thisTypeAt (index : Index) (ls : Levels) (f : SourceFile) (label : Option String) (n : Node) :
    Option (Option ExprType) :=
  let isMeant : Bool := label.isNone || label == Kotlin.declarationName? n f.text
  if n.kind = "function_declaration" ∨ n.kind = "property_declaration" then
    (Kotlin.receiverType? n f.text).bind fun receiver =>
      if isMeant then some (some (namedType ls f n (Kotlin.simpleTypeName receiver))) else none
  else if Kotlin.classKinds.contains n.kind ∧ isMeant then
    some ((index.classifierAt? (f.keyOf n)).map .ofClassifier)
  else none

/-- The type of `this`, with or without a label. -/
def thisType (index : Index) (ls : Levels) (f : SourceFile) (n : Node) : Option ExprType :=
  (n.ancestors.findSome? (thisTypeAt index ls f (thisLabel? (f.textOf n)))).join

/-- The name of a number's type when it has a point or an exponent. -/
def realTypeName (text : String) : String :=
  if Text.endsWithChar text 'f' || Text.endsWithChar text 'F' then "Float" else "Double"

/-- The type of an expression. -/
def typeOfExpr (index : Index) (ls : Levels) (f : SourceFile) (n : Node) : Option ExprType :=
  match n.kind with
  | "simple_identifier" =>
    ((ls.top.lookup f (f.textOf n) n .value).head?).bind ls.top.typeOfSymbol
  | "parenthesized_expression" => (n.namedChild? 0).bind (ls.top.typeOfExpr f)
  | "elvis_expression" => (n.namedChild? 0).bind (ls.top.typeOfExpr f)
  | "postfix_expression" => (n.namedChild? 0).bind (ls.top.typeOfExpr f)
  | "navigation_expression" =>
    ((accessNavigation index ls.below f n .value).symbols.head?).bind ls.top.typeOfSymbol
  | "call_expression" =>
    (callTarget index ls.below f n).bind fun c => ls.top.typeOfSymbol c.symbol
  | "indexing_expression" =>
    (operatorTarget index ls.below f n).bind fun c => ls.top.typeOfSymbol c.symbol
  | "this_expression" => thisType index ls f n
  | "super_expression" =>
    (((enclosingReceivers index ls.below f n).head?).bind fun c =>
      (supertypesOf index ls c).head?).map .ofClassifier
  | "as_expression" =>
    ((n.children.filter Kotlin.isTypeNode).getLast?).map fun t =>
      namedType ls f n (Kotlin.simpleTypeName (f.textOf t))
  | "string_literal" => some (namedType ls f n "String")
  | "line_string_literal" => some (namedType ls f n "String")
  | "multi_line_string_literal" => some (namedType ls f n "String")
  | "integer_literal" => some (namedType ls f n "Int")
  | "hex_literal" => some (namedType ls f n "Int")
  | "bin_literal" => some (namedType ls f n "Int")
  | "long_literal" => some (namedType ls f n "Long")
  | "real_literal" => some (namedType ls f n (realTypeName (f.textOf n)))
  | "boolean_literal" => some (namedType ls f n "Boolean")
  | "character_literal" => some (namedType ls f n "Char")
  | _ => none

/-! ### The stack of levels -/

/-- The level over the given ones. -/
def levelOver (index : Index) (ls : Levels) : Level where
  lookup := lookupName index ls
  classifierNamed := classifierOfText index ls
  typeOfExpr := typeOfExpr index ls
  typeOfSymbol := typeOfSymbol index ls

/-- A stack of the given height. -/
def levels (index : Index) : Nat → Levels
  | 0 => []
  | height + 1 => levelOver index (levels index height) :: levels index height

theorem levels_length (index : Index) (height : Nat) : (levels index height).length = height := by
  induction height with
  | zero => rfl
  | succ height ih => rw [levels, List.length_cons, ih]

theorem top_levels_succ (index : Index) (height : Nat) :
    (levels index (height + 1)).top = levelOver index (levels index height) := rfl

/-- The deepest that questions nest below the one that is asked from outside. -/
def maxDepth : Nat := 16

end Crossref.Resolve
