import Crossref.Session
import Crossref.Usage.Basic
import Crossref.Usage.Itinerary

/-!
# Usages: what is recorded at a node

Each sort of construct asks the session a fixed few questions about its node and records what the
answers lead to.  A question that fails records nothing.

* `record_other`: a node of no particular sort asks nothing and records nothing.
-/

namespace Crossref.Usage

open Resolve (Call)

/-! ### Positions of identifiers -/

/-- The nodes whose first identifier is the name of what they declare. -/
def declaringKinds : List String :=
  ["class_parameter", "parameter", "parameter_with_optional_type", "enum_entry",
   "function_declaration", "type_alias", "object_declaration", "class_declaration",
   "companion_object", "variable_declaration", "catch_block"]

/-- The nodes below which no identifier refers to anything by itself. -/
def nonReferenceKinds : List String :=
  ["label", "import_header", "package_header", "identifier", "callable_reference",
   "this_expression", "super_expression"]

/-- The node is the named child with index `i` of the other. -/
def isNamedChild (parent : Node) (i : Nat) (n : Node) : Bool :=
  match parent.namedChild? i with
  | some c => c.isSame n
  | none => false

/-- An identifier directly below `parent` that is a name of its own: a declared name, a label, a
part of a member access, the callee of a call. -/
def isOwnName (source : String) (parent n : Node) : Bool :=
  match parent.kind with
  | "navigation_suffix" => true
  | "directly_assignable_expression" => true
  | "call_expression" => isNamedChild parent 0 n
  | "infix_expression" => isNamedChild parent 1 n
  | "value_argument" =>
    match n.nextSibling? with
    | some s => s.kind == "="
    | none => false
  | "jump_expression" =>
    match n.prevSibling? with
    | some s => !s.isNamed && Text.endsWithChar (s.text source) '@'
    | none => false
  | kind =>
    declaringKinds.contains kind &&
      match parent.childOfKind? "simple_identifier" with
      | some c => c.isSame n
      | none => false

/-- The identifier refers to something by itself. -/
def isReferencePosition (source : String) (n : Node) : Bool :=
  match n.parent? with
  | some parent => !isOwnName source parent n && (n.ancestorOfKind? nonReferenceKinds).isNone
  | none => false

/-- The node only qualifies the member that is meant. -/
def isQualifier (n : Node) : Bool :=
  match n.parent? with
  | some parent =>
    ["navigation_expression", "directly_assignable_expression"].contains parent.kind
      && isNamedChild parent 0 n && n.kind != "directly_assignable_expression"
  | none => false

/-! ### From answers to usages -/

/-- The usages of a call that was resolved. -/
def ofCall (site : Site) (inDelegate : Bool) : Except SessionError (Option Call) → List Usage
  | .ok (some c) => paired c.symbol (classifyCall c inDelegate) site c.extensionReceiver
  | _ => []

/-- The usage of a type that was resolved. -/
def ofType (site : Site) (kind : Kind) : Except SessionError (Option Symbol) → List Usage
  | .ok (some s) => [⟨s, kind, site⟩]
  | _ => []

/-- The usages of the conventions of a delegate. -/
def ofDelegate (site : Site) : Except SessionError (List Call) → List Usage
  | .ok calls =>
    calls.flatMap fun c => paired c.symbol .delegatedProperty site c.extensionReceiver
  | .error _ => []

/-- How a node refers to a symbol; a classifier that only qualifies is not used. -/
def referenceKind? (n : Node) (isTarget : Bool) (s : Symbol) : Option Kind :=
  if s.kind.isClassifier then if isQualifier n then none else some .typeReference
  else if s.kind.isCallable then some .call
  else some (classifyAccess s isTarget)

/-- The usages of a reference, which is to the first of its symbols. -/
def ofReference (f : SourceFile) (n : Node) (isTarget : Bool) :
    Except SessionError (List Symbol) → List Usage
  | .ok (s :: _) =>
    match referenceKind? n isTarget s with
    | some kind => paired s kind (.ofNode f n) s.isExtension
    | none => []
  | _ => []

/-! ### The questions of each construct -/

variable {σ : Type}

def recordCall (session : Session σ) (n : Node) (inDelegate : Bool) : StateM σ (List Usage) :=
  return ofCall (.ofNode session.file n) inDelegate (← session.call n)

def recordType (session : Session σ) (n : Node) (kind : Kind) : StateM σ (List Usage) :=
  return ofType (.ofNode session.file n) kind (← session.type n)

def recordReference (session : Session σ) (n : Node) (isTarget : Bool) : StateM σ (List Usage) :=
  return ofReference session.file n isTarget (← session.reference n)

def recordDelegate (session : Session σ) (n : Node) : StateM σ (List Usage) :=
  return ofDelegate (.ofNode session.file n) (← session.delegate n)

/-- The assignment is a plain one; one without a sign counts as plain. -/
def isPlainAssignment (f : SourceFile) (n : Node) : Bool :=
  (Resolve.assignmentToken? f n).getD "=" == "="

/-- An assignment refers to its target unless the target is indexed, and calls a function when the
target is indexed or the assignment augmented. -/
def recordAssignment (session : Session σ) (n : Node) (inDelegate : Bool) :
    StateM σ (List Usage) := do
  match assignmentTarget? n with
  | none => return []
  | some target =>
    let references ←
      if isIndexed target then pure [] else recordReference session target true
    let calls ←
      if isIndexed target || !isPlainAssignment session.file n then
        recordCall session n inDelegate
      else pure []
    return references ++ calls

/-- An entry of a supertype list names a type, and calls its constructor if it has arguments. -/
def recordSpecifier (session : Session σ) (n : Node) : StateM σ (List Usage) := do
  let types ← recordType session n .supertype
  let calls ←
    if n.hasChildOfKind "constructor_invocation" then recordCall session n false else pure []
  return types ++ calls

/-- An annotation names a type, and calls its constructor if it has arguments. -/
def recordAnnotationEntry (session : Session σ) (n : Node) : StateM σ (List Usage) := do
  let types ← recordType session n .annotationUse
  let calls ←
    if (annotationArguments? n).isSome then recordCall session n false else pure []
  return types ++ calls

/-- All that is recorded at a visit, in order. -/
def record (session : Session σ) (v : Visit) : StateM σ (List Usage) :=
  match Construct.ofNode v.node with
  | .call => recordCall session v.node v.inDelegate
  | .navigation => recordReference session v.node false
  | .identifier =>
    if isReferencePosition session.file.text v.node then recordReference session v.node false
    else pure []
  | .assignment => recordAssignment session v.node v.inDelegate
  | .operator => recordCall session v.node v.inDelegate
  | .userType => recordType session v.node .typeReference
  | .delegationSpecifier => recordSpecifier session v.node
  | .annotationEntry => recordAnnotationEntry session v.node
  | .propertyDelegate => recordDelegate session v.node
  | .callableReference => recordReference session v.node false
  | .other => pure []

theorem record_other {session : Session σ} {v : Visit} (h : Construct.ofNode v.node = .other) :
    record session v = pure [] := by
  simp [record, h]

end Crossref.Usage
