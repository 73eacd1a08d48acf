import Crossref.Kotlin.Declaration
import Crossref.Resolve.Operator

/-!
# Usages: the itinerary

Which nodes are visited below a declaration, and in which order.  Every node belongs to one sort of
construct, and the sort says which of its descendants the walk goes on with.  The order is a walk
that meets a node before what lies below it; no answer of a session has a part in it.  The walk goes
down with every step, so the height of the tree bounds it.
-/

namespace Crossref.Usage

/-- The sorts of constructs that uses are recorded at; everything else is only walked through. -/
inductive Construct where
  | call
  | navigation
  | identifier
  | assignment
  | operator
  | userType
  | delegationSpecifier
  | annotationEntry
  | propertyDelegate
  | callableReference
  | other
  deriving DecidableEq, Inhabited

/-- The sort of construct that a kind of node writes. -/
def Construct.ofKind : String → Construct
  | "call_expression" => .call
  | "navigation_expression" => .navigation
  | "simple_identifier" => .identifier
  | "interpolated_identifier" => .identifier
  | "assignment" => .assignment
  | "prefix_expression" => .operator
  | "postfix_expression" => .operator
  | "indexing_expression" => .operator
  | "user_type" => .userType
  | "delegation_specifier" => .delegationSpecifier
  | "annotation" => .annotationEntry
  | "property_delegate" => .propertyDelegate
  | "callable_reference" => .callableReference
  | kind => if Resolve.binaryKinds.contains kind then .operator else .other

/-- The sort of construct at a node. -/
def Construct.ofNode (n : Node) : Construct := .ofKind n.kind

/-! ### Where the walk goes on -/

/-- Below a call: the receiver of what is called, or a callee that is no plain name, then the
arguments. -/
def belowCall (n : Node) : List Node :=
  (match n.namedChild? 0 with
    | some callee =>
      match callee.kind with
      | "simple_identifier" => []
      | "navigation_expression" => (callee.namedChild? 0).toList
      | _ => [callee]
    | none => [])
  ++ n.childrenOfKind "call_suffix"

/-- The target of an assignment. -/
def assignmentTarget? (n : Node) : Option Node := n.childOfKind? "directly_assignable_expression"

/-- The assignment goes to an indexed place. -/
def isIndexed (target : Node) : Bool := target.hasChildOfKind "indexing_suffix"

/-- Below an assignment: the parts of the target that are read, then the other operands. -/
def belowAssignment (n : Node) : List Node :=
  match assignmentTarget? n with
  | none => n.namedChildren
  | some target =>
    (if isIndexed target then target.namedChildren
      else if target.hasChildOfKind "navigation_suffix" then (target.namedChild? 0).toList
      else [])
    ++ n.namedChildren.filter fun c => !c.isSame target

/-- Below an entry of a supertype list: its type arguments, the arguments of the constructor, the
delegate. -/
def belowSpecifier (n : Node) : List Node :=
  ((Kotlin.specifierType? n).toList.flatMap (·.childrenOfKind "type_arguments"))
  ++ ((n.childOfKind? "constructor_invocation").toList.flatMap
        (·.childrenOfKind "value_arguments"))
  ++ ((n.childOfKind? "explicit_delegation").toList.flatMap fun d =>
        d.namedChildren.filter (·.kind != "user_type"))

/-- The argument list of an annotation that has one. -/
def annotationArguments? (n : Node) : Option Node :=
  (n.childOfKind? "constructor_invocation").bind (·.childOfKind? "value_arguments")

/-- The nodes that the walk goes on with below a node. -/
def nextNodes (n : Node) : List Node :=
  match Construct.ofNode n with
  | .call => belowCall n
  | .navigation => (n.namedChild? 0).toList
  | .identifier => []
  | .assignment => belowAssignment n
  | .operator => n.namedChildren
  | .userType => n.childrenOfKind "type_arguments"
  | .delegationSpecifier => belowSpecifier n
  | .annotationEntry => (annotationArguments? n).toList
  | .propertyDelegate => n.namedChildren
  | .callableReference => []
  | .other => n.namedChildren

/-! ### Visits -/

/-- A node on the itinerary, and whether it stands in a property delegate. -/
structure Visit where
  node : Node
  inDelegate : Bool
  deriving Inhabited

/-- The visits below a node, itself first, at most `fuel` levels deep. -/
def visitsWith : Nat → Visit → List Visit
  | 0, v => [v]
  | fuel + 1, v =>
    v :: (nextNodes v.node).flatMap fun m =>
      visitsWith fuel ⟨m, v.inDelegate || v.node.kind == "property_delegate"⟩

/-- The visits below a node, itself first. -/
def visitsBelow (n : Node) : List Visit := visitsWith n.tree.height ⟨n, false⟩

/-- The visits of a declaration; the accessors that stand beside a property come after it. -/
def itinerary (n : Node) : List Visit :=
  (n :: if n.kind = "property_declaration" then Kotlin.siblingAccessors n else []).flatMap
    visitsBelow

end Crossref.Usage
