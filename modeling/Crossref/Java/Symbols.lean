import Crossref.SourceFile

/-!
# Java: the symbols of a file

The symbols that the declarations of a Java file introduce: for each class the constructor that it
has without writing one, the class, its enum constants, and its members in the order of the file.
-/

namespace Crossref.Java

/-- The symbol of a declaration with its modifiers and its qualified name. -/
def symbolOf (f : SourceFile) (n : Node) (kind : Symbol.Kind) (name : String) : Symbol :=
  { Symbol.ofHandle ⟨f.id, n.start, n.stop, kind, 0⟩ name f.origin .java f.path with
    modifiers := modifiers n f.text
    qualifiedName := qualifiedName? f.package n f.text }

/-- What kind of classifier a node declares. -/
def classKind (n : Node) : Symbol.Kind :=
  match n.kind with
  | "interface_declaration" => .interface
  | "enum_declaration" => .enumClass
  | "annotation_type_declaration" => .annotationClass
  | _ => .plainClass

/-- The members of a body; those behind the constants of an enum stand one node lower. -/
def memberNodes (body : Node) : List Node :=
  body.children.flatMap fun c =>
    if c.kind = "enum_body_declarations" then c.children else [c]

/-- The constructor of a class that writes none; a record's takes its components. -/
def implicitConstructor? (f : SourceFile) (cls : Symbol) (members : List Node) (n : Node) :
    Option Symbol :=
  if [Symbol.Kind.plainClass, .enumClass].contains cls.kind
      && !(members.any fun m => constructorKinds.contains m.kind) then
    some { Symbol.ofHandle { cls.handle with kind := .constructor } "<init>" .synthetic .java
        f.path with
      declaration := cls.declaration
      parent := some cls.handle
      qualifiedName := cls.qualifiedName
      parameterCount := some ((parameterCount? n).getD 0)
      typeText := some cls.name }
  else none

def enumConstantSymbol? (f : SourceFile) (cls : Symbol) (n : Node) : Option Symbol :=
  (declarationName? n f.text).map fun name =>
    { symbolOf f n .enumEntry name with
      parent := some cls.handle
      typeText := some cls.name }

def methodSymbol? (f : SourceFile) (cls : Symbol) (n : Node) : Option Symbol :=
  (declarationName? n f.text).map fun name =>
    { symbolOf f n .function name with
      parent := some cls.handle
      parameterCount := parameterCount? n
      typeText := (n.childInField? "type").map (·.text f.text) }

def constructorSymbol (f : SourceFile) (cls : Symbol) (n : Node) : Symbol :=
  { symbolOf f n .constructor "<init>" with
    parent := some cls.handle
    parameterCount := parameterCount? n
    typeText := some cls.name }

/-- The fields of one declaration, told apart by their slots; each is qualified like the first. -/
def fieldSymbols (f : SourceFile) (cls : Symbol) (n : Node) : List Symbol :=
  (n.childrenOfKind "variable_declarator").zipIdx.filterMap fun (declarator, slot) =>
    (nameField? declarator f.text).map fun name =>
      let plain := symbolOf f n .property name
      { plain with
        handle := { plain.handle with slot := slot }
        parent := some cls.handle
        typeText := (n.childInField? "type").map (·.text f.text)
        isMutable := !((modifiers n f.text).contains "final" || cls.kind = .interface)
        qualifiedName :=
          (plain.qualifiedName.bind (Text.beforeLast? · '.')).map (· ++ "." ++ name) }

/-- The symbols of a class, at most `fuel` levels deep. -/
def classSymbols (f : SourceFile) : Nat → Option Handle → Node → List Symbol
  | 0, _, _ => []
  | fuel + 1, parent, n =>
    match declarationName? n f.text with
    | none => []
    | some name =>
      let cls :=
        { symbolOf f n (classKind n) name with
          parent := parent
          superTypes := superTypes n f.text }
      let body := n.childInField? "body"
      let members := (body.map memberNodes).getD []
      let constants := (body.map (·.childrenOfKind "enum_constant")).getD []
      (implicitConstructor? f cls members n).toList
        ++ [cls]
        ++ constants.filterMap (enumConstantSymbol? f cls)
        ++ members.flatMap fun m =>
          if classKinds.contains m.kind then classSymbols f fuel (some cls.handle) m
          else if m.kind = "method_declaration" then (methodSymbol? f cls m).toList
          else if constructorKinds.contains m.kind then [constructorSymbol f cls m]
          else if fieldKinds.contains m.kind then fieldSymbols f cls m
          else []

/-- The symbols of a Java file. -/
def symbols (f : SourceFile) : List Symbol :=
  (f.top.children.filter fun c => classKinds.contains c.kind).flatMap
    (classSymbols f f.tree.height none)

end Crossref.Java
