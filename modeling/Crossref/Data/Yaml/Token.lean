import Crossref.Data.Yaml.Block
import Crossref.Data.Yaml.Scalar
import Crossref.Data.Yaml.Tag

/-!
# YAML: tokens

A document as a list of tokens.  Block collections are written by columns alone; here they have
tokens at both ends, so that what the tokens mean no longer depends on places.

A key is known by the colon behind it only.  Where one may start, its place among the tokens is kept
until the colon comes, or until the line or the 1024 bytes are over in which it may come.

* `columns_openBlock_pairwise`: the open block collections stand one further in than the other.
-/

namespace Crossref.Yaml

/-- How a scalar is written. -/
inductive Style where
  | plain
  | quoted
  | literal
  | folded
  deriving DecidableEq, Inhabited

inductive Token where
  | directive
  | documentStart
  | documentEnd
  | blockSequence
  | blockMapping
  /-- The end of a block collection. -/
  | blockEnd
  | flowSequence
  | flowSequenceEnd
  | flowMapping
  | flowMappingEnd
  /-- The dash in front of an item. -/
  | dash
  | comma
  | key
  | value
  /-- The anchor on the value behind it, numbered in order. -/
  | anchor (number : Nat)
  /-- The value with an anchor once more. -/
  | reference (anchor : Nat)
  | tag (name : List Char)
  | scalar (style : Style) (text : String)
  deriving DecidableEq, Inhabited

/-- A place where a key may start. -/
structure PossibleKey where
  /-- The tokens in front of it. -/
  before : Nat
  start : Placed
  /-- Nothing but a key may start here. -/
  required : Bool
  deriving Inhabited

/-- The tokens so far, and what they leave open. -/
structure Layout where
  tokens : Array Token := #[]
  /-- The columns of the open block collections, the innermost first. -/
  columns : List Nat := []
  /-- The possible key of the innermost flow collection, or of the block that is around all. -/
  key? : Option PossibleKey := none
  /-- The possible keys of the collections around, the innermost first. -/
  outerKeys : List (Option PossibleKey) := []
  /-- A key, or another entry of a block collection, may start at the next token. -/
  keyAllowed : Bool := true
  /-- The names of the anchors, the last one first. -/
  anchors : List (List Char) := []
  handles : Handles := []
  /-- A directive for the version stands above. -/
  versioned : Bool := false
  deriving Inhabited

namespace Layout

def inFlow (l : Layout) : Bool := !l.outerKeys.isEmpty

/-- The first column that is further in than all open block collections. -/
def least (l : Layout) : Nat := l.columns.head?.elim 0 (· + 1)

def push (l : Layout) (t : Token) : Layout := { l with tokens := l.tokens.push t }

def insert (l : Layout) (before : Nat) (t : Token) : Layout :=
  { l with tokens := l.tokens.insertIdxIfInBounds before t }

/-! ### Block collections -/

/-- Opens a block collection in a column that is further in than the open ones. -/
def openBlock (l : Layout) (before column : Nat) (t : Token) : Layout :=
  if l.inFlow || column < l.least then l
  else { l.insert before t with columns := column :: l.columns }

theorem columns_openBlock_pairwise {l : Layout} (before column : Nat) (t : Token)
    (h : l.columns.Pairwise (· > ·)) : (l.openBlock before column t).columns.Pairwise (· > ·) := by
  unfold openBlock
  split
  · exact h
  · next hc =>
    have hc : l.least ≤ column := by simp at hc; exact hc.2
    refine List.pairwise_cons.2 ⟨fun c hm => ?_, h⟩
    cases hcs : l.columns with
    | nil => simp [hcs] at hm
    | cons d ds =>
      simp only [least, hcs, List.head?_cons, Option.elim_some] at hc
      rw [hcs] at hm h
      rcases List.mem_cons.1 hm with rfl | hm
      · exact hc
      · exact Nat.lt_trans ((List.pairwise_cons.1 h).1 c hm) hc

/-- Ends the innermost block collections for as long as their columns are the ones meant. -/
def closeBlocks (l : Layout) (ends : Nat → Bool) : Layout :=
  if l.inFlow then l
  else
    { l with
      columns := l.columns.dropWhile ends
      tokens := l.tokens ++ (l.columns.takeWhile ends).map fun _ => Token.blockEnd }

/-! ### Keys -/

/-- No key starts at the possible place any more. -/
def forgetKey (l : Layout) : Option Layout :=
  if l.key?.any PossibleKey.required then none else some { l with key? := none }

/-- A key may start at the place, if keys are allowed here.  One is required where the entries of
the innermost block collection start. -/
def markKey (l : Layout) (p : Placed) : Option Layout :=
  if l.keyAllowed then
    (l.forgetKey).map fun l =>
      let required := !l.inFlow && l.columns.head? = some p.column
      { l with key? := some ⟨l.tokens.size, p, required⟩ }
  else some l

/-- A key at the place in question cannot reach as far as to here. -/
def isOver (p : Placed) (k : PossibleKey) : Bool :=
  k.start.line < p.line || k.start.offset + 1024 < p.offset

/-- Forgets the possible keys that do not reach as far as to here. -/
def forgetOver (l : Layout) (p : Placed) : Option Layout :=
  if (l.key? :: l.outerKeys).any (·.any fun k => isOver p k && k.required) then none
  else
    let reaching (k : Option PossibleKey) : Option PossibleKey := k.filter (!isOver p ·)
    some { l with key? := reaching l.key?, outerKeys := l.outerKeys.map reaching }

/-! ### Indicators -/

/-- A document or a directive starts in the line, or a document ends. -/
def atLineStart (l : Layout) : Option Layout :=
  ((l.closeBlocks fun _ => true).forgetKey).map fun l => { l with keyAllowed := false }

def openFlow (l : Layout) (p : Placed) (t : Token) : Option Layout :=
  (l.markKey p).map fun l =>
    { l.push t with key? := none, outerKeys := l.key? :: l.outerKeys, keyAllowed := true }

def closeFlow (l : Layout) (t : Token) : Option Layout :=
  (l.forgetKey).map fun l =>
    { l.push t with
      key? := l.outerKeys.head?.getD l.key?
      outerKeys := l.outerKeys.drop 1
      keyAllowed := false }

def comma (l : Layout) : Option Layout :=
  (l.forgetKey).map fun l => { l.push .comma with keyAllowed := true }

/-- A block collection opens at the place unless one is open in its column; outside flow collections
it does so only where a key may start. -/
def enterBlock (l : Layout) (p : Placed) (t : Token) : Option Layout :=
  if l.inFlow then some l
  else if l.keyAllowed then some (l.openBlock l.tokens.size p.column t)
  else none

def dash (l : Layout) (p : Placed) : Option Layout := do
  let l ← (← l.enterBlock p .blockSequence).forgetKey
  return { l.push .dash with keyAllowed := true }

/-- A key with an indicator of its own. -/
def explicitKey (l : Layout) (p : Placed) : Option Layout := do
  let l ← (← l.enterBlock p .blockMapping).forgetKey
  return { l.push .key with keyAllowed := !l.inFlow }

/-- The colon in front of a value, and behind the possible key if there is one. -/
def colon (l : Layout) (p : Placed) : Option Layout :=
  match l.key? with
  | some k =>
    let l := (l.insert k.before .key).openBlock k.before k.start.column .blockMapping
    some { l.push .value with key? := none, keyAllowed := false }
  | none =>
    (l.enterBlock p .blockMapping).map fun l => { l.push .value with keyAllowed := !l.inFlow }

/-! ### Values and what stands in front of them -/

/-- A token that starts a key or stands in front of one. -/
def pushKeyed (l : Layout) (p : Placed) (t : Token) : Option Layout :=
  (l.markKey p).map fun l => { l.push t with keyAllowed := false }

def anchor (l : Layout) (p : Placed) (ps : List Placed) : Option (Layout × List Placed) := do
  let (name, rest) ← anchorName? ps
  let l ← l.pushKeyed p (.anchor l.anchors.length)
  return ({ l with anchors := name :: l.anchors }, rest)

/-- A reference to the last anchor with its name. -/
def reference (l : Layout) (p : Placed) (ps : List Placed) : Option (Layout × List Placed) := do
  let (name, rest) ← anchorName? ps
  let later ← l.anchors.findIdx? (· == name)
  let l ← l.pushKeyed p (.reference (l.anchors.length - 1 - later))
  return (l, rest)

def tag (l : Layout) (p : Placed) (ps : List Placed) : Option (Layout × List Placed) := do
  let (name, rest) ← tag? l.handles l.inFlow ps
  return (← l.pushKeyed p (.tag name), rest)

def quotedScalar (l : Layout) (p : Placed) (ps : List Placed) : Option (Layout × List Placed) := do
  let (text, rest) ← quoted p.char ps
  return (← l.pushKeyed p (.scalar .quoted text), rest)

/-- A plain scalar whose line ends behind it may have a key behind it. -/
def plainScalar (l : Layout) (p : Placed) (ps : List Placed) : Option (Layout × List Placed) := do
  let (text, endsLine, rest) ← plain l.inFlow l.least (p :: ps)
  let l ← l.pushKeyed p (.scalar .plain text)
  return ({ l with keyAllowed := endsLine }, rest)

def blockScalar (l : Layout) (style : Style) (ps : List Placed) :
    Option (Layout × List Placed) := do
  let l ← l.forgetKey
  let (text, rest) ← Block.scalar (style = .folded) l.least ps
  return ({ l.push (.scalar style text) with keyAllowed := true }, rest)

/-- A directive, for a version that is known or for a handle; none is given twice. -/
def directive (l : Layout) (ps : List Placed) : Option (Layout × List Placed) := do
  let l ← l.atLineStart
  let (d, rest) ← directive? ps
  match d with
  | .version major minor =>
    if l.versioned || major != 1 || !(minor = 1 || minor = 2) then none
    else some ({ l.push .directive with versioned := true }, rest)
  | .handle handle meaning =>
    if (l.handles.lookup handle).isSome then none
    else some ({ l.push .directive with handles := (handle, meaning) :: l.handles }, rest)

/-! ### The next token -/

/-- The token that starts with the character at `p`, and what follows it. -/
def next (l : Layout) (p : Placed) (ps : List Placed) : Option (Layout × List Placed) :=
  let c := p.char
  if p.column = 0 && c = '%' then l.directive ps
  else if isMarker '-' (p :: ps) then
    (l.atLineStart).map fun l => (l.push .documentStart, ps.drop 2)
  else if isMarker '.' (p :: ps) then
    (l.atLineStart).map fun l => (l.push .documentEnd, ps.drop 2)
  else if c = '[' then (l.openFlow p .flowSequence).map (·, ps)
  else if c = '{' then (l.openFlow p .flowMapping).map (·, ps)
  else if c = ']' then (l.closeFlow .flowSequenceEnd).map (·, ps)
  else if c = '}' then (l.closeFlow .flowMappingEnd).map (·, ps)
  else if c = ',' then (l.comma).map (·, ps)
  else if c = '-' && endsWord ps then (l.dash p).map (·, ps)
  else if c = '?' && (l.inFlow || endsWord ps) then (l.explicitKey p).map (·, ps)
  else if c = ':' && (l.inFlow || endsWord ps) then (l.colon p).map (·, ps)
  else if c = '*' then l.reference p ps
  else if c = '&' then l.anchor p ps
  else if c = '!' then l.tag p ps
  else if c = '|' && !l.inFlow then l.blockScalar .literal ps
  else if c = '>' && !l.inFlow then l.blockScalar .folded ps
  else if c = '\'' || c = '"' then l.quotedScalar p ps
  else if startsPlain l.inFlow c ps then l.plainScalar p ps
  else none

/-- Whether a key may start at the next token, and the places from it on, behind blanks, comments
and line ends.  A tab is no blank where a key may start outside flow collections; a line end lets a
key start there. -/
def seek (inFlow : Bool) (inComment keyAllowed : Bool) : List Placed → Bool × List Placed
  | [] => (keyAllowed, [])
  | p :: ps =>
    if isBreak p.char then seek inFlow false (keyAllowed || !inFlow) ps
    else if inComment then seek inFlow true keyAllowed ps
    else if p.char = ' ' || (p.char = '\t' && (inFlow || !keyAllowed)) then
      seek inFlow false keyAllowed ps
    else if p.char = '#' then seek inFlow true keyAllowed ps
    else (keyAllowed, p :: ps)

/-- The tokens of the whole text, behind those of the layout. -/
def run : Nat → Layout → List Placed → Option (List Token)
  | 0, _, _ => none
  | fuel + 1, l, ps =>
    match seek l.inFlow false l.keyAllowed ps with
    | (_, []) => (l.forgetKey).map fun l => (l.closeBlocks fun _ => true).tokens.toList
    | (keyAllowed, p :: ps) => do
      let l ← { l with keyAllowed := keyAllowed }.forgetOver p
      let (l, rest) ← (l.closeBlocks (p.column < ·)).next p ps
      run fuel l rest

end Layout

/-- The tokens of a document. -/
def tokens? (ps : List Placed) : Option (List Token) := Layout.run (ps.length + 1) {} ps

end Crossref.Yaml
