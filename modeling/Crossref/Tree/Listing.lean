import Crossref.Text.Basic
import Crossref.Text.Number
import Crossref.Tree.Basic

/-!
# Trees: listings

A tree written as text, one node in a line, a node before its children: the bytes where it starts
and ends, the number of its children, and its kind.  A kind may follow the field that the node
fills and a colon; the kind of a node without a name follows an apostrophe.

* `ofListing?_empty`: a listing without lines is no tree.
-/

namespace Crossref

/-- A character of the name of a field. -/
def Label.isFieldChar (c : Char) : Bool := c.isLower || c = '_'

/-- The label of a node with the given bytes, from the text of its kind. -/
def Label.ofText (text : String) (start stop : Nat) : Label :=
  let cs := text.toList
  let name := cs.takeWhile isFieldChar
  let (field, rest) :=
    match cs.drop name.length with
    | ':' :: rest => if name.isEmpty then (none, cs) else (some (String.ofList name), rest)
    | _ => (none, cs)
  match rest with
  | '\'' :: kind => ⟨String.ofList kind, false, field, start, stop⟩
  | kind => ⟨String.ofList kind, true, field, start, stop⟩

namespace Tree

/-- The label and the arity that one line gives. -/
def entryOfLine? (line : String) : Option (Label × Nat) := do
  match Text.splitOn line ' ' with
  | start :: stop :: arity :: kind =>
    let start ← Text.count? start
    let stop ← Text.count? stop
    let arity ← Text.count? arity
    return (Label.ofText (" ".intercalate kind) start stop, arity)
  | _ => none

/-- The tree that a listing describes. -/
def ofListing? (text : String) : Option Tree := do
  let lines := (Text.splitOn text '\n').filter (· != "")
  ofPreorder? (← lines.mapM entryOfLine?)

theorem ofListing?_empty : ofListing? "" = none := by rfl

/-- A tree without any content, for a text of the given size. -/
def blank (size : Nat) : Tree := .node ⟨"", true, none, 0, size⟩ []

end Tree

end Crossref
