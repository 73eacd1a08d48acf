import Crossref.Resolve.Classifier
import Crossref.Resolve.Local

/-!
# Resolution: members, extensions and callees

What `receiver.name` denotes, which extensions are in scope for a receiver, and which of several
candidates an invocation calls.

* `chooseCallable_of_function`: as long as a function or a constructor is among the candidates, it
  is one of them that is called.
-/

namespace Crossref.Resolve

/-! ### Extensions -/

/-- The simple names that the receiver of an extension may have to extend a type: the type's own,
its classifier's, and those of its classifier's supertypes. -/
def receiverNames (index : Index) (ls : Levels) (t : ExprType) : List String :=
  t.name ::
    match t.classifier with
    | some c => c.name :: (supertypesOf index ls c).map Symbol.name
    | none => []

/-- The symbol is an extension of a receiver with one of the names. -/
def extendsOneOf (names : List String) (s : Symbol) : Bool :=
  match s.receiverType with
  | some r => names.contains (Text.afterLast (Kotlin.simpleTypeName r) '.')
  | none => false

/-- The extensions of a type that are in scope at a node, or else the only one of the project. -/
def visibleExtensions (index : Index) (ls : Levels) (f : SourceFile) (n : Node) (name : String)
    (want : Want) (t : ExprType) : List Symbol :=
  let fits := extendsOneOf (receiverNames index ls t)
  firstFound
    [fun _ => (ls.top.lookup f name n want).filter fits,
     fun _ => unambiguous ((index.findByName name).filter fun s =>
       s.parent.isNone && want.accepts s && fits s)]

/-! ### Member access -/

/-- What was found behind a receiver, and whether as extensions. -/
structure Access where
  symbols : List Symbol
  asExtension : Bool
  deriving Inhabited

/-- What `name` denotes behind a receiver: members of the receiver's type, extensions of it, or
else the end of a qualified name that the receiver begins. -/
def accessMember (index : Index) (ls : Levels) (f : SourceFile) (receiver : Node) (name : String)
    (n : Node) (want : Want) : Access :=
  let ofType : Option Access := do
    let t ← ls.top.typeOfExpr f receiver
    let members :=
      match t.classifier with
      | some c => membersNamed index ls c name want
      | none => []
    match members with
    | [] =>
      match visibleExtensions index ls.below f n name want t with
      | [] => none
      | found => some ⟨found, true⟩
    | found => some ⟨found, false⟩
  ofType.getD
    ⟨qualified index (Text.withoutBlanks (f.textOf receiver ++ "." ++ name)) want, false⟩

/-- The name behind the dot of a navigation. -/
def suffixName? (f : SourceFile) (n : Node) : Option String :=
  (n.childOfKind? "navigation_suffix").bind (identifierOf? f)

/-- What a navigation `receiver.name` denotes. -/
def accessNavigation (index : Index) (ls : Levels) (f : SourceFile) (navigation : Node)
    (want : Want) : Access :=
  match navigation.namedChild? 0, suffixName? f navigation with
  | some receiver, some name => accessMember index ls f receiver name navigation want
  | _, _ => ⟨[], false⟩

/-- What the target of an assignment denotes; an indexed target denotes nothing itself. -/
def assignable (index : Index) (ls : Levels) (f : SourceFile) (target : Node) : List Symbol :=
  match target.childOfKind? "navigation_suffix" with
  | some suffix =>
    match target.namedChild? 0, identifierOf? f suffix with
    | some receiver, some name =>
      (accessMember index ls.below f receiver name target .value).symbols
    | _, _ => []
  | none =>
    if target.hasChildOfKind "indexing_suffix" then []
    else
      match target.childOfKind? "simple_identifier" with
      | some identifier => ls.top.lookup f (f.textOf identifier) identifier .value
      | none => []

/-! ### Callees -/

/-- Of several callables the first that takes that many arguments, or else the first. -/
def narrow (callables : List Symbol) (arguments : Nat) : Option Symbol :=
  match callables with
  | [] => none
  | [only] => some only
  | first :: _ =>
    some ((callables.find? (·.parameterCount = some arguments)).getD first)

/-- The callee among candidates: functions and constructors first, then the constructors of the
first classifier, then the first variable. -/
def chooseCallable (index : Index) (ls : Levels) (candidates : List Symbol) (arguments : Nat) :
    Option Symbol :=
  match candidates.filter (·.kind.isCallable) with
  | [] =>
    let constructors :=
      match candidates.find? (·.kind.isClassifier) with
      | some c => constructorsOf index ls.below c
      | none => []
    match constructors with
    | [] => candidates.find? (·.kind.isVariable)
    | found => narrow found arguments
  | found => narrow found arguments

theorem mem_of_narrow {callables : List Symbol} {arguments : Nat} {s : Symbol}
    (h : narrow callables arguments = some s) : s ∈ callables := by
  unfold narrow at h
  split at h
  · cases h
  · cases h; simp
  · next first rest _ =>
    cases h
    cases hf : (first :: rest).find? (·.parameterCount = some arguments) with
    | none => simp
    | some t => simpa [hf] using List.mem_of_find?_eq_some hf

theorem chooseCallable_of_function {index : Index} {ls : Levels} {candidates : List Symbol}
    {arguments : Nat} {s : Symbol} (hc : candidates.filter (·.kind.isCallable) ≠ [])
    (h : chooseCallable index ls candidates arguments = some s) :
    s ∈ candidates ∧ s.kind.isCallable = true := by
  unfold chooseCallable at h
  split at h
  · next e => exact absurd e hc
  · exact List.mem_filter.1 (mem_of_narrow h)

/-- The number of arguments in an argument list. -/
def argumentCount (n : Node) : Nat :=
  match n.childOfKind? "value_arguments" with
  | some list => (list.childrenOfKind "value_argument").length
  | none => 0

/-- The number of arguments of a call, a trailing lambda among them. -/
def callArgumentCount (call : Node) : Nat :=
  match call.childOfKind? "call_suffix" with
  | some suffix => argumentCount suffix + if suffix.hasChildOfKind "annotated_lambda" then 1 else 0
  | none => 0

/-- What a call expression calls. -/
def callTarget (index : Index) (ls : Levels) (f : SourceFile) (call : Node) : Option Call := do
  let callee ← call.namedChild? 0
  let access : Access ←
    match callee.kind with
    | "simple_identifier" => some ⟨ls.top.lookup f (f.textOf callee) callee .callable, false⟩
    | "navigation_expression" => some (accessNavigation index ls.below f callee .callable)
    | _ => none
  let symbol ← chooseCallable index ls access.symbols (callArgumentCount call)
  return ⟨symbol, symbol.isExtension || access.asExtension⟩

/-- Which constructor an invocation in a supertype list or an annotation calls. -/
def constructorTarget (index : Index) (ls : Levels) (f : SourceFile) (invocation : Node) :
    Option Call := do
  let written ← invocation.childOfKind? "user_type"
  let c ← ls.top.classifierNamed f invocation (f.textOf written) true
  let symbol ←
    chooseCallable index ls (constructorsOf index ls.below c) (argumentCount invocation)
  return Call.ofSymbol symbol

end Crossref.Resolve
