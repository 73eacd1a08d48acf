import Crossref.QualifiedName
import Crossref.Tree.Node

/-!
# Kotlin: declarations

What a node of a Kotlin tree declares: its name, its qualified name, the label it is shown with,
the types and modifiers written at it, and the bytes that belong to it.  The accessors of a
property may stand beside the property instead of below it; they belong to it all the same.

* `spanStop_ge`: the span of a declaration reaches at least to its node's end, provided its
  accessors do not end before it.
-/

namespace Crossref.Kotlin

/-! ### Kinds of nodes -/

/-- The nodes that a caret can select. -/
def declarationKinds : List String :=
  ["class_declaration", "object_declaration", "companion_object", "function_declaration",
   "property_declaration", "secondary_constructor", "primary_constructor", "class_parameter",
   "type_alias", "enum_entry"]

/-- The nodes that declare a class or an object. -/
def classKinds : List String := ["class_declaration", "object_declaration", "companion_object"]

/-- The nodes below which everything is local: nothing there has a qualified name. -/
def localScopeKinds : List String :=
  ["function_declaration", "function_body", "lambda_literal", "anonymous_function",
   "object_literal", "secondary_constructor", "anonymous_initializer", "getter", "setter",
   "statements"]

/-- The nodes that write a type. -/
def typeKinds : List String :=
  ["user_type", "nullable_type", "function_type", "parenthesized_type", "non_nullable_type",
   "type_reference", "dynamic"]

def accessorKinds : List String := ["getter", "setter"]

def isTypeNode (n : Node) : Bool := typeKinds.contains n.kind

def isAccessor (n : Node) : Bool := accessorKinds.contains n.kind

/-! ### Parts of a declaration -/

/-- The first type written directly at the node. -/
def typeChild? (n : Node) : Option Node := n.children.find? isTypeNode

/-- The first type written directly at the node, as text. -/
def typeText? (n : Node) (source : String) : Option String := (typeChild? n).map (·.text source)

/-- `val` or `var`, when the node has one of them. -/
def binding? (n : Node) (source : String) : Option String :=
  n.children.findSome? fun c =>
    match c.kind with
    | "binding_pattern_kind" => some (Text.trim (c.text source))
    | "val" => some "val"
    | "var" => some "var"
    | _ => none

/-- The modifier keywords of the node, without its annotations. -/
def modifiers (n : Node) (source : String) : List String :=
  match n.childOfKind? "modifiers" with
  | none => []
  | some list =>
    ((list.children.filter (·.kind != "annotation")).map fun m => Text.trim (m.text source)).filter
      fun text => text != "" && !Text.startsWith text "@"

def classBody? (n : Node) : Option Node :=
  (n.childOfKind? "class_body").or (n.childOfKind? "enum_class_body")

/-- The entries of a supertype list: those that hang on the node, then those in a list node. -/
def delegationSpecifiers (n : Node) : List Node :=
  n.childrenOfKind "delegation_specifier" ++
    (n.childrenOfKind "delegation_specifiers").flatMap (·.childrenOfKind "delegation_specifier")

/-- The parameters of a primary constructor: those that hang on the node, then those in a list
node. -/
def constructorParameters (n : Node) : List Node :=
  n.childrenOfKind "class_parameter" ++
    (n.childrenOfKind "class_parameters").flatMap (·.childrenOfKind "class_parameter")

/-- The constructor parameters of a class header. -/
def classParameters (n : Node) : List Node :=
  match n.childOfKind? "primary_constructor" with
  | some primary => constructorParameters primary
  | none =>
    match n.childOfKind? "class_parameters" with
    | some list => list.childrenOfKind "class_parameter"
    | none => []

/-- The type that an entry of a supertype list names. -/
def specifierType? (n : Node) : Option Node :=
  ((n.childOfKind? "user_type").or
    ((n.childOfKind? "constructor_invocation").bind (·.childOfKind? "user_type"))).or
    ((n.childOfKind? "explicit_delegation").bind (·.childOfKind? "user_type"))

/-- The supertypes of a class header, as written. -/
def superTypes (n : Node) (source : String) : List String :=
  ((delegationSpecifiers n).filterMap specifierType?).map (·.text source)

/-- The nodes that end the search for a receiver type. -/
def receiverEndKinds : List String :=
  ["simple_identifier", "variable_declaration", "function_value_parameters"]

/-- The type written before the name of an extension. -/
def receiverType? (n : Node) (source : String) : Option String :=
  ((n.children.takeWhile fun c => !receiverEndKinds.contains c.kind).find? isTypeNode).map
    (·.text source)

/-- The type written between the parameters and the body of a function. -/
def returnType? (n : Node) (source : String) : Option String :=
  ((((n.children.takeWhile (·.kind != "function_body"))).dropWhile
    (·.kind != "function_value_parameters")).find? isTypeNode).map (·.text source)

/-- The number of value parameters, when the node has a parameter list. -/
def parameterCount? (n : Node) : Option Nat :=
  (n.childOfKind? "function_value_parameters").map fun list =>
    (list.childrenOfKind "parameter").length

/-! ### Names -/

/-- The text of the first child whose kind is among `kinds`. -/
def firstOfKinds? (n : Node) (source : String) (kinds : List String) : Option String :=
  (n.children.find? fun c => kinds.contains c.kind).map (·.text source)

/-- The first identifier after `fun`, or else the first identifier: a receiver is a type and no
identifier. -/
def functionName? (n : Node) (source : String) : Option String :=
  (((n.children.dropWhile (·.kind != "fun")).find? (·.kind == "simple_identifier")).or
    (n.childOfKind? "simple_identifier")).map (·.text source)

/-- The name of a class, an object or an alias. -/
def classifierName? (n : Node) (source : String) : Option String :=
  firstOfKinds? n source ["type_identifier", "simple_identifier"]

/-- The name that a declaration introduces; a constructor has that of its class. -/
def declarationName? (n : Node) (source : String) : Option String :=
  match n.kind with
  | "class_declaration" => classifierName? n source
  | "object_declaration" => classifierName? n source
  | "type_alias" => classifierName? n source
  | "companion_object" => (classifierName? n source).or (some "Companion")
  | "function_declaration" => functionName? n source
  | "property_declaration" =>
    ((n.childOfKind? "variable_declaration").bind (·.childOfKind? "simple_identifier")).map
      (·.text source)
  | "class_parameter" => firstOfKinds? n source ["simple_identifier"]
  | "parameter" => firstOfKinds? n source ["simple_identifier"]
  | "enum_entry" => firstOfKinds? n source ["simple_identifier"]
  | "variable_declaration" => firstOfKinds? n source ["simple_identifier"]
  | "secondary_constructor" =>
    (n.ancestorOfKind? ["class_declaration"]).bind (classifierName? · source)
  | "primary_constructor" =>
    (n.ancestorOfKind? ["class_declaration"]).bind (classifierName? · source)
  | _ => none

/-- The names of the classes and objects around the node, outermost first; none when the node
stands in a local scope. -/
def containerNames? (n : Node) (source : String) : Option (List String) :=
  if n.ancestors.any fun a => localScopeKinds.contains a.kind then none
  else
    (n.ancestors.reverse.filter fun a => classKinds.contains a.kind).mapM
      (declarationName? · source)

def isConstructorNode (n : Node) : Bool :=
  ["secondary_constructor", "primary_constructor"].contains n.kind

/-- The package, the enclosing classes and objects and the name, joined by dots.  A constructor
has its class's name, and a parameter of a primary constructor has one only as a property. -/
def qualifiedName? (package : Option String) (n : Node) (source : String) : Option String :=
  if n.kind = "class_parameter" ∧ binding? n source = none then none
  else do
    let containers ← containerNames? n source
    let own ← if isConstructorNode n then some [] else (declarationName? n source).map ([·])
    QualifiedName.ofParts? (QualifiedName.packageParts package ++ containers ++ own)

/-! ### Labels -/

/-- The types of the given parameters, separated by commas; a parameter without one shows `?`. -/
def parameterTypes (parameters : List Node) (source : String) : String :=
  ", ".intercalate (parameters.map fun p => (typeText? p source).getD "?")

/-- The `parameter` nodes of a function or a secondary constructor. -/
def valueParameters (n : Node) : List Node :=
  match n.childOfKind? "function_value_parameters" with
  | some list => list.childrenOfKind "parameter"
  | none => []

/-- A colon and the type, when there is one. -/
def declaredType (typeText : Option String) : String :=
  match typeText with
  | some t => ": " ++ t
  | none => ""

/-- The label that a declaration is shown with: functions and constructors carry the types of
their parameters, variables their own type. -/
def presentableText? (n : Node) (source : String) : Option String :=
  let name := declarationName? n source
  match n.kind with
  | "function_declaration" =>
    let receiver :=
      match receiverType? n source with
      | some r => r ++ "."
      | none => ""
    name.map fun name =>
      receiver ++ name ++ "(" ++ parameterTypes (valueParameters n) source ++ ")"
  | "secondary_constructor" =>
    name.map fun name =>
      "constructor " ++ name ++ "(" ++ parameterTypes (valueParameters n) source ++ ")"
  | "primary_constructor" =>
    name.map fun name =>
      "constructor " ++ name ++ "(" ++ parameterTypes (constructorParameters n) source ++ ")"
  | "property_declaration" =>
    let declared := (n.childOfKind? "variable_declaration").bind (typeText? · source)
    name.map (· ++ declaredType declared)
  | "class_parameter" => name.map (· ++ declaredType (typeText? n source))
  | "parameter" => name.map (· ++ declaredType (typeText? n source))
  | "companion_object" => name.map ("companion object " ++ ·)
  | _ => name

/-! ### Spans -/

/-- The accessors that stand directly behind the node as its siblings. -/
def siblingAccessors (n : Node) : List Node := n.following.takeWhile isAccessor

/-- The end of a declaration; that of a property reaches over its accessors. -/
def spanStop (n : Node) : Nat :=
  if n.kind = "property_declaration" then
    match (siblingAccessors n).getLast? with
    | some last => last.stop
    | none => n.stop
  else n.stop

theorem spanStop_ge {n : Node} (h : ∀ a ∈ siblingAccessors n, n.stop ≤ a.stop) :
    n.stop ≤ spanStop n := by
  unfold spanStop
  split
  · split
    · next last e => exact h last (List.mem_of_getLast? e)
    · exact Nat.le_refl _
  · exact Nat.le_refl _

/-- A caret can select the node: any declaration, but of constructor parameters only those that
are properties. -/
def isCaretDeclaration (n : Node) (source : String) : Bool :=
  if n.kind = "class_parameter" then (binding? n source).isSome
  else declarationKinds.contains n.kind

end Crossref.Kotlin
