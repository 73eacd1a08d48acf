import Crossref.Index
import Crossref.Kotlin.TypeName

/-!
# Resolution: levels

Resolving a name may need types, types may need names, and either may need the type of an
expression.  How deep such questions nest is limited: a *level* holds the answers to the four
questions that nest, each obtained with the levels below it alone, and a stack of levels says what
may still be asked.  The empty stack answers nothing.

* `Levels.top_nil`: at the end of the stack every question is left open.
-/

namespace Crossref.Resolve

/-- What a name has to denote where it is used. -/
inductive Want where
  | callable
  | value
  | type
  deriving DecidableEq, Inhabited

/-- A symbol is of the wanted sort; whatever has a value can be called, too. -/
def Want.accepts : Want → Symbol → Bool
  | .callable, s => s.kind.isCallable || s.kind.isClassifier || s.kind.isVariable
  | .value, s => s.kind.isVariable || s.kind.isClassifier
  | .type, s => s.kind.isClassifier

/-- The type of an expression, as far as it is known: a simple name, and its classifier. -/
structure ExprType where
  name : String
  classifier : Option Symbol
  deriving Inhabited

/-- The type that a classifier is. -/
def ExprType.ofClassifier (c : Symbol) : ExprType := ⟨c.name, some c⟩

/-- An invocation that was resolved. -/
structure Call where
  /-- The function, constructor or variable that is invoked. -/
  symbol : Symbol
  /-- It is found through the type of a receiver that it extends. -/
  extensionReceiver : Bool
  deriving Inhabited

/-- The invocation of a symbol; extensions are invoked on a receiver. -/
def Call.ofSymbol (s : Symbol) : Call := ⟨s, s.isExtension⟩

/-! ### Levels -/

/-- The four questions that nest. -/
structure Level where
  /-- What a name denotes at a node. -/
  lookup : SourceFile → String → Node → Want → List Symbol
  /-- The classifier that a type as written names at a node; the flag asks to follow aliases. -/
  classifierNamed : SourceFile → Node → String → Bool → Option Symbol
  /-- The type of an expression. -/
  typeOfExpr : SourceFile → Node → Option ExprType
  /-- The type of what a symbol holds or results in. -/
  typeOfSymbol : Symbol → Option ExprType

/-- The level that leaves every question open. -/
def Level.exhausted : Level where
  lookup _ _ _ _ := []
  classifierNamed _ _ _ _ := none
  typeOfExpr _ _ := none
  typeOfSymbol _ := none

instance : Inhabited Level := ⟨.exhausted⟩

/-- What may still be asked, the next level first. -/
abbrev Levels := List Level

namespace Levels

/-- The level that a question asked now goes to. -/
def top (ls : Levels) : Level := ls.headD .exhausted

/-- The levels below the next one. -/
def below (ls : Levels) : Levels := ls.tail

theorem top_nil : top [] = .exhausted := rfl

end Levels

/-! ### Trying in turn -/

/-- The first answer that is not empty. -/
def firstFound {α : Type} : List (Unit → List α) → List α
  | [] => []
  | answer :: answers =>
    match answer () with
    | [] => firstFound answers
    | found => found

theorem firstFound_eq_nil_iff {α : Type} (answers : List (Unit → List α)) :
    firstFound answers = [] ↔ ∀ a ∈ answers, a () = [] := by
  induction answers with
  | nil => simp [firstFound]
  | cons a as ih =>
    rw [firstFound]
    split
    · next h => simp [h, ih]
    · next h => exact ⟨fun e => absurd e h, fun e => absurd (e a (by simp)) h⟩

/-- The symbols stand for exactly one declaration. -/
def oneDeclaration (symbols : List Symbol) : Bool :=
  ((symbols.map Symbol.declaration).eraseDups).length == 1

/-- The symbols if they stand for exactly one declaration. -/
def unambiguous (symbols : List Symbol) : List Symbol :=
  if oneDeclaration symbols then symbols else []

/-- The symbols of a fully qualified name that are of the wanted sort. -/
def qualified (index : Index) (name : String) (want : Want) : List Symbol :=
  (index.findByQualifiedName name).filter want.accepts

end Crossref.Resolve
