import Crossref.Data.Yaml.Place

/-!
# YAML: scalars in block style

Scalars that are written as indented lines below their header.  They keep their line ends, or fold
them as the header says, and the header also says which line ends at the end count.

* `text_strip`: a stripped scalar does not depend on the line ends behind its last line.
-/

namespace Crossref.Yaml.Block

/-- Which of the line ends at the end of a scalar belong to it. -/
inductive Chomping where
  | strip
  | clip
  | keep
  deriving DecidableEq, Inhabited

/-- What stands behind the indicator of a block scalar. -/
structure Header where
  chomping : Chomping := .clip
  /-- How much further in than the block around it the lines stand, if the header says so. -/
  increment : Option Nat := none
  deriving Inhabited

def chomping? (c : Char) : Option Chomping := [('+', Chomping.keep), ('-', .strip)].lookup c

/-- The digit of an indentation, which is not zero. -/
def increment? (c : Char) : Option Nat :=
  if c.isDigit && c != '0' then some (c.toNat - '0'.toNat) else none

/-- The header with its two parts in either order, and what follows its line. -/
def header? (ps : List Placed) : Option (Header × List Placed) :=
  let first := ps.head?.map Placed.char
  let second := (ps.drop 1).head?.map Placed.char
  let (header, size) : Header × Nat :=
    match first.bind chomping?, first.bind increment? with
    | some chomping, _ =>
      match second.bind increment? with
      | some n => (⟨chomping, some n⟩, 2)
      | none => (⟨chomping, none⟩, 1)
    | none, some n =>
      match second.bind chomping? with
      | some chomping => (⟨chomping, some n⟩, 2)
      | none => (⟨.clip, some n⟩, 1)
    | none, none => ({}, 0)
  (lineEnd? (ps.drop size)).map fun rest => (header, rest)

/-- The line ends of empty lines, the widest indentation among them and the line behind them, and
what follows from the first character beyond the indentation on.  No tab stands in front of that
column. -/
def emptyLines (column : Option Nat) (breaks : List Char) (widest : Nat) :
    List Placed → Option (List Char × Nat × List Placed)
  | [] => some (breaks.reverse, widest, [])
  | p :: ps =>
    let inside := column.all (p.column < ·)
    if p.char = ' ' && inside then emptyLines column breaks widest ps
    else if p.char = '\t' && inside then none
    else if isBreak p.char then
      emptyLines column (p.char :: breaks) (max widest p.column) ps
    else some (breaks.reverse, max widest p.column, p :: ps)

/-- The lines of a scalar that are read already. -/
structure Lines where
  /-- The text up to the end of the last line, in reverse. -/
  done : List Char := []
  /-- The end of the last line. -/
  ending : List Char := []
  /-- The ends of the empty lines behind it. -/
  empty : List Char := []
  /-- The last line starts with a blank. -/
  indented : Bool := false
  deriving Inhabited

/-- One more line.  A line feed between two lines that do not start with a blank is folded, in a
scalar that folds at all. -/
def Lines.add (ls : Lines) (folds : Bool) (line : List Char) : Lines :=
  let indented := line.head?.any isSpace
  let between :=
    if folds && ls.ending = ['\n'] && !ls.indented && !indented then
      if ls.empty.isEmpty then [' '] else ls.empty
    else ls.ending ++ ls.empty
  { done := line.reverse ++ between.reverse ++ ls.done, indented := indented }

/-- The text of the lines with the line ends at their end that count. -/
def Lines.text (ls : Lines) (chomping : Chomping) : String :=
  let ending :=
    match chomping with
    | .strip => []
    | .clip => ls.ending
    | .keep => ls.ending ++ ls.empty
  String.ofList (ls.done.reverse ++ ending)

theorem Lines.text_strip (ls : Lines) (ending empty : List Char) :
    { ls with ending := ending, empty := empty }.text .strip = ls.text .strip := rfl

/-- The lines that start in the column, with the empty lines between and behind them. -/
def linesFrom (folds : Bool) (column : Nat) :
    Nat → Lines → List Placed → Option (Lines × List Placed)
  | 0, _, _ => none
  | fuel + 1, ls, ps =>
    if ps.head?.any (·.column = column) then do
      let line := (ps.takeWhile (!isBreak ·.char)).map Placed.char
      let rest := ps.dropWhile (!isBreak ·.char)
      let (empty, _, next) ← emptyLines (some column) [] 0 (rest.drop 1)
      let ending := (rest.take 1).map Placed.char
      linesFrom folds column fuel { ls.add folds line with ending := ending, empty := empty } next
    else some (ls, ps)

/-- The text of a block scalar behind its indicator, and what follows it.  Its lines start in one
column, which is `least` at least: that of the first line, unless the header says another. -/
def scalar (folds : Bool) (least : Nat) (ps : List Placed) : Option (String × List Placed) := do
  let (header, ps) ← header? ps
  let stated := header.increment.map (least - 1 + ·)
  let (empty, widest, ps) ← emptyLines stated [] 0 ps
  let column := stated.getD (max (max widest least) 1)
  let (ls, rest) ← linesFrom folds column (ps.length + 1) { empty := empty } ps
  return (ls.text header.chomping, rest)

end Crossref.Yaml.Block
