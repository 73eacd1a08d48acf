import Crossref.SourceFile

/-!
# Kotlin: the symbols of a file

The symbols that the declarations of a Kotlin file introduce, in the order of the file; within a
class the constructor properties, the constructor and the members that the compiler adds come
before the class, and the members written in its body after it.  Bodies of functions are never
entered.

* `symbolOf_handle`: a symbol's handle spans its declaration.
-/

namespace Crossref.Kotlin

/-! ### One declaration -/

/-- The handle of what a node declares. -/
def handleOf (f : SourceFile) (n : Node) (kind : Symbol.Kind) : Handle :=
  ⟨f.id, n.start, spanStop n, kind, 0⟩

/-- The symbol of a declaration with its modifiers and its qualified name. -/
def symbolOf (f : SourceFile) (n : Node) (kind : Symbol.Kind) (name : String) : Symbol :=
  { Symbol.ofHandle (handleOf f n kind) name f.origin .kotlin f.path with
    modifiers := modifiers n f.text
    qualifiedName := qualifiedName? f.package n f.text }

theorem symbolOf_handle (f : SourceFile) (n : Node) (kind : Symbol.Kind) (name : String) :
    (symbolOf f n kind name).handle.key = (symbolOf f n kind name).declaration := rfl

def functionSymbol? (f : SourceFile) (parent : Option Handle) (n : Node) : Option Symbol :=
  (declarationName? n f.text).map fun name =>
    { symbolOf f n .function name with
      parent := parent
      parameterCount := parameterCount? n
      receiverType := receiverType? n f.text
      typeText := returnType? n f.text }

/-- A property that names one variable; several at once are only written locally. -/
def propertySymbol? (f : SourceFile) (parent : Option Handle) (n : Node) : Option Symbol := do
  let declared ← n.childOfKind? "variable_declaration"
  let name ← declarationName? n f.text
  let plain := symbolOf f n .property name
  return { plain with
    parent := parent
    isMutable := binding? n f.text == some "var"
    typeText := typeText? declared f.text
    receiverType := receiverType? n f.text
    modifiers :=
      plain.modifiers ++ if n.hasChildOfKind "property_delegate" then ["delegated"] else [] }

/-- An alias, with the last type written at it as its target. -/
def aliasSymbol? (f : SourceFile) (n : Node) : Option Symbol :=
  (declarationName? n f.text).map fun name =>
    { symbolOf f n .typeAlias name with
      typeText := ((n.children.filter isTypeNode).getLast?).map (·.text f.text) }

def secondaryConstructorSymbol (f : SourceFile) (cls : Handle) (className : String) (n : Node) :
    Symbol :=
  { symbolOf f n .constructor "<init>" with
    parent := some cls
    parameterCount := parameterCount? n
    typeText := some className }

def enumEntrySymbol? (f : SourceFile) (cls : Handle) (className : String) (n : Node) :
    Option Symbol :=
  (declarationName? n f.text).map fun name =>
    { symbolOf f n .enumEntry name with
      parent := some cls
      typeText := some className }

/-! ### The head of a class -/

/-- What kind of classifier a node declares. -/
def classKind (n : Node) (source : String) : Symbol.Kind :=
  if ["object_declaration", "companion_object"].contains n.kind then .object
  else if n.hasChildOfKind "interface" then .interface
  else if (modifiers n source).contains "enum" then .enumClass
  else if (modifiers n source).contains "annotation" then .annotationClass
  else .plainClass

def classSymbol (f : SourceFile) (parent : Option Handle) (name : String) (n : Node) : Symbol :=
  let plain := symbolOf f n (classKind n f.text) name
  { plain with
    parent := parent
    superTypes := superTypes n f.text
    modifiers :=
      plain.modifiers ++ if n.kind = "companion_object" then ["companion"] else [] }

/-- The property that a constructor parameter with `val` or `var` introduces. -/
def boundParameterSymbol? (f : SourceFile) (cls : Handle) (n : Node) : Option Symbol := do
  let binding ← binding? n f.text
  let name ← declarationName? n f.text
  return { symbolOf f n .property name with
    parent := some cls
    isMutable := binding == "var"
    declaredInConstructor := true
    typeText := typeText? n f.text }

/-- The constructor in the head of a class, or the one that a class without any has; both are
declared by the class. -/
def headConstructor? (f : SourceFile) (cls : Symbol) (n : Node) : Option Symbol :=
  let primary := n.childOfKind? "primary_constructor"
  let hasSecondary :=
    match classBody? n with
    | some body => body.hasChildOfKind "secondary_constructor"
    | none => false
  if [Symbol.Kind.plainClass, .enumClass, .annotationClass].contains cls.kind
      && (primary.isSome || !hasSecondary) then
    let origin := if primary.isSome then f.origin else .synthetic
    some { Symbol.ofHandle (handleOf f (primary.getD n) .constructor) "<init>" origin .kotlin
        f.path with
      declaration := cls.declaration
      parent := some cls.handle
      qualifiedName := cls.qualifiedName
      parameterCount := some (classParameters n).length
      typeText := some cls.name
      modifiers :=
        match primary with
        | some p => modifiers p f.text
        | none => [] }
  else none

/-- A member that the compiler adds to a class. -/
def addedMember (f : SourceFile) (cls : Symbol) (name : String) (slot parameters : Nat)
    (typeText : Option String) : Symbol :=
  { Symbol.ofHandle { cls.handle with kind := .function, slot := slot } name .synthetic .kotlin
      f.path with
    declaration := cls.declaration
    parent := some cls.handle
    qualifiedName := cls.qualifiedName.map (· ++ "." ++ name)
    parameterCount := some parameters
    typeText := typeText }

/-- The members that a data class has for its constructor properties. -/
def dataMembers (f : SourceFile) (cls : Symbol) (properties : List Symbol) : List Symbol :=
  (properties.zipIdx.map fun (p, i) =>
    { addedMember f cls ("component" ++ toString (i + 1)) (i + 1) 0 p.typeText with
      modifiers := ["operator"] })
  ++ [addedMember f cls "copy" (properties.length + 1) properties.length (some cls.name)]

/-- The members that every enum class has. -/
def enumMembers (f : SourceFile) (cls : Symbol) : List Symbol :=
  [addedMember f cls "values" 1 0 (some ("Array<" ++ cls.name ++ ">")),
   addedMember f cls "valueOf" 2 1 (some cls.name)]

/-- All that the head of a class introduces, the class last. -/
def headSymbols (f : SourceFile) (cls : Symbol) (n : Node) : List Symbol :=
  let properties := (classParameters n).filterMap (boundParameterSymbol? f cls.handle)
  properties
    ++ (headConstructor? f cls n).toList
    ++ (if cls.hasModifier "data" then dataMembers f cls properties else [])
    ++ (if cls.kind = .enumClass then enumMembers f cls else [])
    ++ [cls]

/-! ### Classes and their members -/

/-- The nodes on the way from a delegated supertype to a class body that was read as a trailing
lambda of the delegate. -/
def misplacedBodyKinds : List String :=
  ["call_expression", "call_suffix", "annotated_lambda", "explicit_delegation"]

mutual

/-- The symbols of a class or an object, at most `fuel` levels deep. -/
def classSymbols (f : SourceFile) : Nat → Option Handle → Node → List Symbol
  | 0, _, _ => []
  | fuel + 1, parent, n =>
    match declarationName? n f.text with
    | none => []
    | some name =>
      let cls := classSymbol f parent name n
      headSymbols f cls n ++
        match classBody? n with
        | some body => memberSymbols f fuel cls.handle name body
        | none => (delegationSpecifiers n).flatMap (misplacedSymbols f fuel cls.handle name)

/-- The symbols of the members written in a body. -/
def memberSymbols (f : SourceFile) : Nat → Handle → String → Node → List Symbol
  | 0, _, _, _ => []
  | fuel + 1, cls, className, body =>
    body.children.flatMap fun c =>
      match c.kind with
      | "class_declaration" => classSymbols f fuel (some cls) c
      | "object_declaration" => classSymbols f fuel (some cls) c
      | "companion_object" => classSymbols f fuel (some cls) c
      | "function_declaration" => (functionSymbol? f (some cls) c).toList
      | "property_declaration" => (propertySymbol? f (some cls) c).toList
      | "secondary_constructor" => [secondaryConstructorSymbol f cls className c]
      | "enum_entry" => (enumEntrySymbol? f cls className c).toList
      | _ => []

/-- The symbols of the members in a class body that stands where a delegate's lambda would. -/
def misplacedSymbols (f : SourceFile) : Nat → Handle → String → Node → List Symbol
  | 0, _, _, _ => []
  | fuel + 1, cls, className, n =>
    n.children.flatMap fun c =>
      if c.kind = "lambda_literal" then
        match c.childOfKind? "statements" with
        | some body => memberSymbols f fuel cls className body
        | none => []
      else if misplacedBodyKinds.contains c.kind then
        misplacedSymbols f fuel cls className c
      else []

end

/-! ### The whole file -/

/-- The symbols declared at the top of the file; nodes that are no declaration are looked into. -/
def topLevelSymbols (f : SourceFile) : Nat → Node → List Symbol
  | 0, _ => []
  | fuel + 1, n =>
    n.children.flatMap fun c =>
      match c.kind with
      | "class_declaration" => classSymbols f (fuel + 1) none c
      | "object_declaration" => classSymbols f (fuel + 1) none c
      | "function_declaration" => (functionSymbol? f none c).toList
      | "property_declaration" => (propertySymbol? f none c).toList
      | "type_alias" => (aliasSymbol? f c).toList
      | "package_header" => []
      | "import_list" => []
      | "import_header" => []
      | _ => topLevelSymbols f fuel c

/-- The symbols of a Kotlin file. -/
def symbols (f : SourceFile) : List Symbol := topLevelSymbols f f.tree.height f.top

end Crossref.Kotlin
