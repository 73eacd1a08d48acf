import Crossref.QualifiedName
import Crossref.Tree.Node

/-!
# Java: declarations

What a node of a Java tree declares: its name, its qualified name, the label it is shown with, and
the types and modifiers written at it.
-/

namespace Crossref.Java

/-- The nodes that declare a class, in the wide sense. -/
def classKinds : List String :=
  ["class_declaration", "interface_declaration", "enum_declaration", "record_declaration",
   "annotation_type_declaration"]

/-- The nodes below which everything is local. -/
def localScopeKinds : List String :=
  ["method_declaration", "constructor_declaration", "block", "lambda_expression",
   "object_creation_expression"]

def constructorKinds : List String := ["constructor_declaration", "compact_constructor_declaration"]

def fieldKinds : List String := ["field_declaration", "constant_declaration"]

/-- The modifier keywords of the node, without its annotations. -/
def modifiers (n : Node) (source : String) : List String :=
  match n.childOfKind? "modifiers" with
  | none => []
  | some list =>
    (list.children.filter fun m => ! ["annotation", "marker_annotation"].contains m.kind).map
      (·.text source)

/-- The number of parameters in a parameter list. -/
def parameterCount (list : Node) : Nat :=
  (list.children.filter fun p => ["formal_parameter", "spread_parameter"].contains p.kind).length

/-- The number of parameters of the node, when it has a parameter list. -/
def parameterCount? (n : Node) : Option Nat := (n.childInField? "parameters").map parameterCount

/-! ### Supertypes -/

def typeNameKinds : List String := ["type_identifier", "scoped_type_identifier", "generic_type"]

/-- The types named below a clause, through lists of types, at most `fuel` lists deep. -/
def typeNamesWith (source : String) : Nat → Node → List String
  | 0, _ => []
  | fuel + 1, n =>
    n.children.flatMap fun c =>
      if typeNameKinds.contains c.kind then [c.text source]
      else if c.kind = "type_list" then typeNamesWith source fuel c
      else []

/-- The types named below a clause, through lists of types. -/
def typeNames (n : Node) (source : String) : List String :=
  typeNamesWith source n.tree.height n

/-- The supertypes of a class, as written: the superclass, the interfaces, and for an interface
those it extends. -/
def superTypes (n : Node) (source : String) : List String :=
  ([n.childInField? "superclass", n.childInField? "interfaces",
    n.childOfKind? "extends_interfaces"].filterMap id).flatMap (typeNames · source)

/-! ### Names and labels -/

/-- The text in the field `name` of the node. -/
def nameField? (n : Node) (source : String) : Option String :=
  (n.childInField? "name").map (·.text source)

/-- The name that a declaration introduces; a field declaration has that of its first field. -/
def declarationName? (n : Node) (source : String) : Option String :=
  if fieldKinds.contains n.kind then
    (n.childOfKind? "variable_declarator").bind (nameField? · source)
  else nameField? n source

/-- The names of the classes around the node, outermost first; none when the node stands in a
local scope. -/
def containerNames? (n : Node) (source : String) : Option (List String) :=
  if n.ancestors.any fun a => localScopeKinds.contains a.kind then none
  else
    (n.ancestors.reverse.filter fun a => classKinds.contains a.kind).mapM
      (declarationName? · source)

/-- The package, the enclosing classes and the name, joined by dots; a constructor has its class's
name. -/
def qualifiedName? (package : Option String) (n : Node) (source : String) : Option String := do
  let containers ← containerNames? n source
  let own ←
    if constructorKinds.contains n.kind then some [] else (declarationName? n source).map ([·])
  QualifiedName.ofParts? (QualifiedName.packageParts package ++ containers ++ own)

/-- The types of the parameters in a parameter list, separated by commas. -/
def parameterTypes (list : Node) (source : String) : String :=
  ", ".intercalate
    ((list.children.filterMap fun p => p.childInField? "type").map (·.text source))

/-- The label that a declaration is shown with: methods and constructors carry the types of their
parameters. -/
def presentableText? (n : Node) (source : String) : Option String :=
  (declarationName? n source).map fun name =>
    if ["method_declaration", "constructor_declaration"].contains n.kind then
      name ++ "(" ++
        (match n.childInField? "parameters" with
          | some list => parameterTypes list source
          | none => "") ++ ")"
    else name

end Crossref.Java
