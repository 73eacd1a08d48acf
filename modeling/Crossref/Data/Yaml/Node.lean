import Crossref.Data
import Crossref.Data.Yaml.Token

/-!
# YAML: nodes

The tree that the tokens of a document describe, and its value.  A value that is left out is the
plain scalar without text.  A reference to an anchor stands in the tree as a reference; following
the references is a step of its own, as an anchored value may refer to itself.

* `follow_none`: references that lead nowhere stay as they are, and nothing else changes.
-/

namespace Crossref.Yaml

/-- A part of a document. -/
inductive Node where
  | scalar (style : Style) (tag : Option (List Char)) (text : String)
  | sequence (items : List Node)
  | mapping (entries : List (Node × Node))
  | anchored (number : Nat) (node : Node)
  | reference (anchor : Nat)
  deriving Inhabited

namespace Node

/-- The value that is left out. -/
def missing : Node := .scalar .plain none ""

/-! ### From tokens -/

/-- What stands in front of a value. -/
structure Properties where
  anchor : Option Nat := none
  tag : Option (List Char) := none
  deriving Inhabited

/-- The anchor and the tag that stand here, in either order, and what follows them. -/
def properties : List Token → Properties × List Token
  | .anchor n :: .tag t :: ts => (⟨some n, some t⟩, ts)
  | .tag t :: .anchor n :: ts => (⟨some n, some t⟩, ts)
  | .anchor n :: ts => (⟨some n, none⟩, ts)
  | .tag t :: ts => (⟨none, some t⟩, ts)
  | ts => ({}, ts)

/-- A node with the anchor in front of it. -/
def withAnchor (ps : Properties) (n : Node) : Node := ps.anchor.elim n (.anchored · n)

/-- One of the tokens comes next. -/
def comesNext (among : List Token) (ts : List Token) : Bool := ts.head?.any among.contains

mutual

/-- The node that stands here.  Block collections stand outside flow collections only; the sequence
under a key may do without tokens at its ends. -/
def ofTokens (inBlock underKey : Bool) : Nat → List Token → Option (Node × List Token)
  | 0, _ => none
  | fuel + 1, ts =>
    let (ps, rest) := properties ts
    let bare := ps.anchor.isNone && ps.tag.isNone
    let found : Option (Node × List Token) :=
      match rest with
      | .reference k :: rest => if bare then some (.reference k, rest) else none
      | .scalar style text :: rest => some (.scalar style ps.tag text, rest)
      | .flowSequence :: rest =>
        (flowItems true fuel rest).map fun (items, rest) => (.sequence items, rest)
      | .flowMapping :: rest =>
        (flowEntries true fuel rest).map fun (entries, rest) => (.mapping entries, rest)
      | t :: after =>
        if underKey && t = .dash then
          (blockItems true fuel rest).map fun (items, rest) => (.sequence items, rest)
        else if inBlock && t = .blockSequence then
          (blockItems false fuel after).map fun (items, rest) => (.sequence items, rest)
        else if inBlock && t = .blockMapping then
          (blockEntries fuel after).map fun (entries, rest) => (.mapping entries, rest)
        else if bare then none
        else some (.scalar .plain ps.tag "", rest)
      | [] => if bare then none else some (.scalar .plain ps.tag "", rest)
    found.map fun (n, rest) => (n.withAnchor ps, rest)

/-- The items of a block sequence, and what follows its end; a sequence without tokens at its ends
is over where something else than a dash stands. -/
def blockItems (unended : Bool) : Nat → List Token → Option (List Node × List Token)
  | 0, _ => none
  | fuel + 1, .dash :: ts => do
    let without := if unended then [.dash, .key, .value, .blockEnd] else [.dash, .blockEnd]
    let (item, ts) ←
      if comesNext without ts then some (missing, ts) else ofTokens true false fuel ts
    let (items, ts) ← blockItems unended fuel ts
    return (item :: items, ts)
  | _ + 1, ts =>
    if unended then some ([], ts)
    else if comesNext [.blockEnd] ts then some ([], ts.drop 1)
    else none

/-- The entries of a block mapping, each with its key, and what follows its end. -/
def blockEntries : Nat → List Token → Option (List (Node × Node) × List Token)
  | 0, _ => none
  | _ + 1, .blockEnd :: ts => some ([], ts)
  | fuel + 1, .key :: ts => do
    let without := [.key, .value, .blockEnd]
    let (key, ts) ←
      if comesNext without ts then some (missing, ts) else ofTokens true true fuel ts
    let (value, ts) ←
      if !comesNext [.value] ts then some (missing, ts)
      else if comesNext without (ts.drop 1) then some (missing, ts.drop 1)
      else ofTokens true true fuel (ts.drop 1)
    let (entries, ts) ← blockEntries fuel ts
    return ((key, value) :: entries, ts)
  | _ + 1, _ => none

/-- The items of a flow sequence, with commas between them, and what follows its end.  An item may
be a pair of its own; if its key is missing, the token in place of the key is lost. -/
def flowItems (first : Bool) : Nat → List Token → Option (List Node × List Token)
  | 0, _ => none
  | _ + 1, .flowSequenceEnd :: ts => some ([], ts)
  | fuel + 1, ts => do
    let ts ←
      if first then some ts else if comesNext [.comma] ts then some (ts.drop 1) else none
    match ts with
    | .flowSequenceEnd :: ts => some ([], ts)
    | .key :: ts => do
      let (key, ts) ←
        if comesNext [.value, .comma, .flowSequenceEnd] ts then some (missing, ts.drop 1)
        else ofTokens false false fuel ts
      let (value, ts) ← flowValue [.comma, .flowSequenceEnd] fuel ts
      let (items, ts) ← flowItems false fuel ts
      return (.mapping [(key, value)] :: items, ts)
    | ts => do
      let (item, ts) ← ofTokens false false fuel ts
      let (items, ts) ← flowItems false fuel ts
      return (item :: items, ts)

/-- The entries of a flow mapping, with commas between them, and what follows its end. -/
def flowEntries (first : Bool) : Nat → List Token → Option (List (Node × Node) × List Token)
  | 0, _ => none
  | _ + 1, .flowMappingEnd :: ts => some ([], ts)
  | fuel + 1, ts => do
    let ts ←
      if first then some ts else if comesNext [.comma] ts then some (ts.drop 1) else none
    match ts with
    | .flowMappingEnd :: ts => some ([], ts)
    | .key :: ts => do
      let (key, ts) ←
        if comesNext [.value, .comma, .flowMappingEnd] ts then some (missing, ts)
        else ofTokens false false fuel ts
      let (value, ts) ← flowValue [.comma, .flowMappingEnd] fuel ts
      let (entries, ts) ← flowEntries false fuel ts
      return ((key, value) :: entries, ts)
    | ts => do
      let (key, ts) ← ofTokens false false fuel ts
      let (entries, ts) ← flowEntries false fuel ts
      return ((key, missing) :: entries, ts)

/-- The value of a pair in a flow collection, if a colon stands here; the tokens in `ends` may
follow the colon at once. -/
def flowValue (ends : List Token) : Nat → List Token → Option (Node × List Token)
  | 0, _ => none
  | fuel + 1, ts =>
    if !comesNext [.value] ts then some (missing, ts)
    else if comesNext ends (ts.drop 1) then some (missing, ts.drop 1)
    else ofTokens false false fuel (ts.drop 1)

end

/-- The root of the only document.  Directives stand in front of a marked start; a document that
does not start at all is empty. -/
def root? (ts : List Token) : Option Node := do
  let markers := [.directive, .documentStart, .documentEnd]
  let node (ts : List Token) := ofTokens true false (3 * ts.length + 3) ts
  let body := ts.dropWhile (· = .directive)
  let (root, rest) ←
    if ts.isEmpty then some (missing, [])
    else if comesNext [.documentStart] body then
      let content := body.drop 1
      if content.isEmpty || comesNext markers content then some (missing, content)
      else node content
    else if comesNext [.directive] ts then none
    else node ts
  if rest.all (· = .documentEnd) then some root else none

/-! ### References -/

mutual

/-- The node with an anchor, in a tree. -/
def find? (number : Nat) : Node → Option Node
  | .scalar _ _ _ => none
  | .sequence items => findInItems? number items
  | .mapping entries => findInEntries? number entries
  | .anchored n node => if n = number then some node else find? number node
  | .reference _ => none

def findInItems? (number : Nat) : List Node → Option Node
  | [] => none
  | n :: ns => (find? number n).or (findInItems? number ns)

def findInEntries? (number : Nat) : List (Node × Node) → Option Node
  | [] => none
  | (k, v) :: es => ((find? number k).or (find? number v)).or (findInEntries? number es)

end

mutual

/-- The tree with each of its references replaced by what it refers to. -/
def follow (target : Nat → Option Node) : Node → Node
  | .scalar style tag text => .scalar style tag text
  | .sequence items => .sequence (followItems target items)
  | .mapping entries => .mapping (followEntries target entries)
  | .anchored n node => .anchored n (follow target node)
  | .reference k => (target k).getD (.reference k)

def followItems (target : Nat → Option Node) : List Node → List Node
  | [] => []
  | n :: ns => follow target n :: followItems target ns

def followEntries (target : Nat → Option Node) : List (Node × Node) → List (Node × Node)
  | [] => []
  | (k, v) :: es => (follow target k, follow target v) :: followEntries target es

end

mutual

theorem follow_none : (n : Node) → follow (fun _ => none) n = n
  | .scalar _ _ _ => rfl
  | .sequence items => by simp [follow, followItems_none items]
  | .mapping entries => by simp [follow, followEntries_none entries]
  | .anchored _ n => by simp [follow, follow_none n]
  | .reference _ => rfl

theorem followItems_none : (ns : List Node) → followItems (fun _ => none) ns = ns
  | [] => rfl
  | n :: ns => by simp [followItems, follow_none n, followItems_none ns]

theorem followEntries_none : (es : List (Node × Node)) → followEntries (fun _ => none) es = es
  | [] => rfl
  | (k, v) :: es => by
    simp [followEntries, follow_none k, follow_none v, followEntries_none es]

end

/-! ### Values -/

/-- The scalar is read as an unquoted one: a plain one, or a literal one that a tag makes a number
or a truth value. -/
def readsAsPlain (style : Style) (tag : Option (List Char)) (text : String) : Bool :=
  let isTruth := ["true", "True", "TRUE", "false", "False", "FALSE"].contains text
  style = .plain
    || (style = .literal
      && ((tag = some "tag:yaml.org,2002:int".toList && !isTruth && text != "")
        || (tag = some "tag:yaml.org,2002:bool".toList && isTruth)))

/-- The text of a scalar. -/
def text? : Node → Option String
  | .scalar _ _ text => some text
  | .anchored _ n => text? n
  | _ => none

mutual

/-- The value of a node.  A mapping with a key that is no scalar has no value that anything could
be read from, nor has a reference. -/
def data : Node → Data
  | .scalar style tag text => if readsAsPlain style tag text then .plain text else .text text
  | .sequence items => .list (dataOfItems items)
  | .mapping entries =>
    match dataOfEntries? entries with
    | some entries => .map entries
    | none => .null
  | .anchored _ n => data n
  | .reference _ => .null

def dataOfItems : List Node → List Data
  | [] => []
  | n :: ns => data n :: dataOfItems ns

def dataOfEntries? : List (Node × Node) → Option (List (String × Data))
  | [] => some []
  | (k, v) :: es =>
    match text? k, dataOfEntries? es with
    | some key, some rest => some ((key, data v) :: rest)
    | _, _ => none

end

end Node

end Crossref.Yaml
