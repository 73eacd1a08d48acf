import Crossref.Resolve.Member

/-!
# Resolution: operators and conventions

Operators, indexing, assignments and delegated properties call functions with fixed names that are
marked as operators.  Which name a construct calls, and on which operand, is a table; the function
is looked for among the members of the operand's type and then among the extensions in scope.

* `isOperator_of_operatorCall`: what an operator calls is a function marked as an operator.
-/

namespace Crossref.Resolve

/-! ### Names of conventions -/

/-- The function that a binary operator or an augmented assignment calls. -/
def operatorFunction? : String → Option String
  | "+" => some "plus"
  | "-" => some "minus"
  | "*" => some "times"
  | "/" => some "div"
  | "%" => some "rem"
  | ".." => some "rangeTo"
  | "..<" => some "rangeUntil"
  | "in" => some "contains"
  | "!in" => some "contains"
  | "<" => some "compareTo"
  | ">" => some "compareTo"
  | "<=" => some "compareTo"
  | ">=" => some "compareTo"
  | "+=" => some "plusAssign"
  | "-=" => some "minusAssign"
  | "*=" => some "timesAssign"
  | "/=" => some "divAssign"
  | "%=" => some "remAssign"
  | _ => none

/-- The function that a prefix operator calls. -/
def unaryFunction? : String → Option String
  | "-" => some "unaryMinus"
  | "+" => some "unaryPlus"
  | "!" => some "not"
  | "++" => some "inc"
  | "--" => some "dec"
  | _ => none

/-- The function that a postfix operator calls. -/
def postfixFunction? : String → Option String
  | "++" => some "inc"
  | "--" => some "dec"
  | _ => none

/-- The expressions with two operands whose operator calls a function. -/
def binaryKinds : List String :=
  ["additive_expression", "multiplicative_expression", "comparison_expression",
   "range_expression", "check_expression", "infix_expression"]

/-! ### Operator functions -/

def isOperatorFunction (s : Symbol) : Bool := s.kind = .function && s.isOperator

/-- The first function of a type with the name that `fits`: among its members, then among the
extensions in scope. -/
def functionOn? (index : Index) (ls : Levels) (f : SourceFile) (n : Node) (t : ExprType)
    (name : String) (fits : Symbol → Bool) : Option Symbol :=
  match t.classifier.bind fun c => (membersNamed index ls c name .callable).find? fits with
  | some s => some s
  | none => (visibleExtensions index ls.below f n name .callable t).find? fits

/-- The operator function of a type with the name. -/
def operatorCall (index : Index) (ls : Levels) (f : SourceFile) (n : Node) (t : ExprType)
    (name : String) : Option Call :=
  (functionOn? index ls f n t name isOperatorFunction).map Call.ofSymbol

theorem fits_of_functionOn? {index : Index} {ls : Levels} {f : SourceFile} {n : Node}
    {t : ExprType} {name : String} {fits : Symbol → Bool} {s : Symbol}
    (h : functionOn? index ls f n t name fits = some s) : fits s = true := by
  unfold functionOn? at h
  split at h
  · next m e =>
    cases h
    obtain ⟨c, -, hf⟩ := Option.bind_eq_some_iff.1 e
    exact List.find?_some hf
  · exact List.find?_some h

theorem isOperator_of_operatorCall {index : Index} {ls : Levels} {f : SourceFile} {n : Node}
    {t : ExprType} {name : String} {c : Call}
    (h : operatorCall index ls f n t name = some c) : isOperatorFunction c.symbol = true := by
  obtain ⟨s, hs, rfl⟩ := Option.map_eq_some_iff.1 h
  exact fits_of_functionOn? hs

/-! ### What a construct calls -/

/-- A call of a named function between its operands. -/
def namedInfixCall (index : Index) (ls : Levels) (f : SourceFile) (n : Node) : Option Call := do
  let left ← n.namedChild? 0
  let function ← n.namedChild? 1
  let t ← ls.top.typeOfExpr f left
  (functionOn? index ls f n t (f.textOf function) (·.kind = .function)).map Call.ofSymbol

/-- A binary operator; `a in b` calls `contains` of `b`. -/
def binaryCall (index : Index) (ls : Levels) (f : SourceFile) (n : Node) : Option Call := do
  let token ← n.children.find? fun c => !c.isNamed
  let name ← operatorFunction? (f.textOf token)
  let left ← n.namedChild? 0
  let right ← n.namedChildren.getLast?
  let t ← ls.top.typeOfExpr f (if name = "contains" then right else left)
  operatorCall index ls f n t name

/-- A prefix operator; a named first child is an annotation or a label. -/
def unaryCall (index : Index) (ls : Levels) (f : SourceFile) (n : Node) : Option Call := do
  let token ← n.child? 0
  let name ← if token.isNamed then none else unaryFunction? (f.textOf token)
  let operand ← n.namedChild? 0
  let t ← ls.top.typeOfExpr f operand
  operatorCall index ls f n t name

/-- A postfix operator. -/
def postfixCall (index : Index) (ls : Levels) (f : SourceFile) (n : Node) : Option Call := do
  let token ← n.children.getLast?
  let name ← postfixFunction? (f.textOf token)
  let operand ← n.namedChild? 0
  let t ← ls.top.typeOfExpr f operand
  operatorCall index ls f n t name

/-- Indexing calls `get`. -/
def indexingCall (index : Index) (ls : Levels) (f : SourceFile) (n : Node) : Option Call := do
  let receiver ← n.namedChild? 0
  let t ← ls.top.typeOfExpr f receiver
  operatorCall index ls f n t "get"

/-- The sign of an assignment: its first keyword that ends in an equals sign. -/
def assignmentToken? (f : SourceFile) (n : Node) : Option String :=
  (n.children.find? fun c => !c.isNamed && Text.endsWithChar (f.textOf c) '=').map f.textOf

/-- The operator in the sign of an augmented assignment. -/
def operatorInToken (token : String) : String := String.ofList (Text.stripEnd '=' token.toList)

/-- The type of what an assignment target denotes. -/
def typeOfAssignable (index : Index) (ls : Levels) (f : SourceFile) (target : Node) :
    Option ExprType := do
  let s ← (assignable index ls f target).head?
  ls.top.typeOfSymbol s

/-- An assignment: a plain one to an indexed target calls `set`, an augmented one the assigning
function of its operator, or else the operator's own. -/
def assignmentCall (index : Index) (ls : Levels) (f : SourceFile) (n : Node) : Option Call := do
  let target ← n.childOfKind? "directly_assignable_expression"
  let token ← assignmentToken? f n
  if token = "=" then
    let _ ← target.childOfKind? "indexing_suffix"
    let receiver ← target.namedChild? 0
    let t ← ls.top.typeOfExpr f receiver
    operatorCall index ls f n t "set"
  else
    let t ← typeOfAssignable index ls.below f target
    let name ← operatorFunction? token
    match operatorCall index ls f n t name with
    | some c => some c
    | none => (operatorFunction? (operatorInToken token)).bind (operatorCall index ls f n t)

/-- What an operator expression or an assignment calls. -/
def operatorTarget (index : Index) (ls : Levels) (f : SourceFile) (n : Node) : Option Call :=
  match n.kind with
  | "infix_expression" => namedInfixCall index ls f n
  | "prefix_expression" => unaryCall index ls f n
  | "postfix_expression" => postfixCall index ls f n
  | "indexing_expression" => indexingCall index ls f n
  | "assignment" => assignmentCall index ls f n
  | kind => if binaryKinds.contains kind then binaryCall index ls f n else none

/-- The conventions that a delegated property calls: `getValue`, and for a variable `setValue`. -/
def delegateCalls (index : Index) (ls : Levels) (f : SourceFile) (delegate : Node) : List Call :=
  match (delegate.namedChild? 0).bind (ls.top.typeOfExpr f) with
  | none => []
  | some t =>
    let isMutable :=
      match delegate.parent? with
      | some property => Kotlin.binding? property f.text == some "var"
      | none => false
    (operatorCall index ls.below f delegate t "getValue").toList
      ++ if isMutable then (operatorCall index ls.below f delegate t "setValue").toList else []

end Crossref.Resolve
