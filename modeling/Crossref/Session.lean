import Crossref.Resolve.ExprType

/-!
# Sessions

A session answers questions about the nodes of one file.  Each answer concerns one node only and
may be an error for that node.  A session may carry a state that its answers change, and may notice
that the run it serves was cancelled.

* `Session.ofIndex`: the session whose answers are resolved over an index; it changes no state.
* `Session.delegateFromCall`: the one convention that a session reports when it knows calls only.
-/

namespace Crossref

open Resolve (Call)

/-- Why a session does not answer for a node. -/
inductive SessionError where
  /-- The index no longer holds a symbol that it led to. -/
  | staleSymbol (declaration : DeclKey)
  /-- The node ends behind the end of the file's text. -/
  | foreignNode (start stop : Nat)
  deriving DecidableEq, Inhabited

namespace SessionError

def message : SessionError → String
  | .staleSymbol declaration =>
    "Symbol declared at " ++ declaration.render ++ " is no longer in the index"
  | .foreignNode start stop =>
    "Node at " ++ toString start ++ ".." ++ toString stop
      ++ " does not belong to the analyzed file"

end SessionError

/-- The answers about the nodes of a file, none of which depends on what was asked before. -/
structure Answers where
  /-- The symbols that a name or a member access refers to. -/
  reference : Node → Except SessionError (List Symbol)
  /-- What a call, an operator or a constructor invocation calls. -/
  call : Node → Except SessionError (Option Call)
  /-- The classifier that a type denotes. -/
  type : Node → Except SessionError (Option Symbol)
  /-- The conventions that a property delegate calls. -/
  delegate : Node → Except SessionError (List Call)

/-- A session over one file, with a state that any answer may change. -/
structure Session (σ : Type) where
  file : SourceFile
  reference : Node → StateM σ (Except SessionError (List Symbol))
  call : Node → StateM σ (Except SessionError (Option Call))
  type : Node → StateM σ (Except SessionError (Option Symbol))
  delegate : Node → StateM σ (Except SessionError (List Call))

namespace Session

/-- The session that gives fixed answers while `tick` moves the state at every question. -/
def ofAnswers {σ : Type} (file : SourceFile) (answers : Answers) (tick : σ → σ) : Session σ where
  file := file
  reference n := fun s => (answers.reference n, tick s)
  call n := fun s => (answers.call n, tick s)
  type n := fun s => (answers.type n, tick s)
  delegate n := fun s => (answers.delegate n, tick s)

/-- The answer about a delegate that follows from the one about calls: at most one convention. -/
def delegateFromCall (answer : Except SessionError (Option Call)) :
    Except SessionError (List Call) :=
  answer.map Option.toList

end Session

/-! ### Answers over an index -/

namespace Answers

open Resolve

/-- The file's own node, or an error. -/
def guard {α : Type} (f : SourceFile) (n : Node) (answer : Unit → α) : Except SessionError α :=
  if Text.size f.text < n.stop then .error (.foreignNode n.start n.stop) else .ok (answer ())

/-- The symbols a callable reference `Type::name` or `::name` refers to. -/
def callableReference (index : Index) (ls : Levels) (f : SourceFile) (n : Node) : List Symbol :=
  match (n.childrenOfKind "simple_identifier").getLast? with
  | none => []
  | some identifier =>
    let name := f.textOf identifier
    match (n.children.takeWhile (·.kind != "::")).find? Node.isNamed with
    | some receiver =>
      match ls.top.classifierNamed f n (f.textOf receiver) true with
      | some c =>
        firstFound
          [fun _ => membersNamed index ls c name .callable,
           fun _ => visibleExtensions index ls.below f n name .callable (.ofClassifier c)]
      | none => []
    | none => ls.top.lookup f name n .callable

/-- The symbols that a node refers to. -/
def referenced (index : Index) (ls : Levels) (f : SourceFile) (n : Node) : List Symbol :=
  match n.kind with
  | "simple_identifier" => ls.top.lookup f (f.textOf n) n .value
  | "interpolated_identifier" => ls.top.lookup f (f.textOf n) n .value
  | "navigation_expression" => (accessNavigation index ls.below f n .value).symbols
  | "directly_assignable_expression" => assignable index ls.below f n
  | "callable_reference" => callableReference index ls.below f n
  | _ => []

/-- The symbol should be in the index and is not. -/
def isStale (index : Index) (s : Symbol) : Bool :=
  s.origin != .synthetic && !s.kind.isLocal && (index.symbol? s.handle).isNone

/-- What a node calls. -/
def called (index : Index) (ls : Levels) (f : SourceFile) (n : Node) : Option Call :=
  match n.kind with
  | "call_expression" => callTarget index ls f n
  | "constructor_invocation" => constructorTarget index ls f n
  | "delegation_specifier" =>
    (n.childOfKind? "constructor_invocation").bind (constructorTarget index ls f)
  | "annotation" => (n.childOfKind? "constructor_invocation").bind (constructorTarget index ls f)
  | "property_delegate" => (delegateCalls index ls f n).head?
  | _ => operatorTarget index ls f n

/-- The node that writes the type of a node. -/
def typeNode? (n : Node) : Option Node :=
  match n.kind with
  | "user_type" => some n
  | "type_identifier" => some n
  | "nullable_type" => n.childOfKind? "user_type"
  | "constructor_invocation" => n.childOfKind? "user_type"
  | "delegation_specifier" => Kotlin.specifierType? n
  | "annotation" => Kotlin.specifierType? n
  | _ => none

/-- The answers about a file that are resolved over an index. -/
def ofIndex (index : Index) (f : SourceFile) : Answers :=
  let ls := levels index (maxDepth + 1)
  { reference := fun n => do
      let symbols ← guard f n fun _ => referenced index ls f n
      match symbols.find? (isStale index) with
      | some s => .error (.staleSymbol s.declaration)
      | none => .ok symbols
    call := fun n => guard f n fun _ => called index ls.below f n
    type := fun n => guard f n fun _ =>
      (typeNode? n).bind fun t => ls.top.classifierNamed f t (f.textOf t) false
    delegate := fun n => guard f n fun _ => delegateCalls index ls.below f n }

end Answers

/-- The session over an index in which nothing else happens. -/
def Session.ofIndex (index : Index) (f : SourceFile) : Session Unit :=
  .ofAnswers f (.ofIndex index f) id

end Crossref
