/-!
# YAML: places

The characters of a document, each with its place.  Indentation, the limit of a key to one line and
the markers of a document all speak of places, so a character keeps its own and nothing has to count
along.

* `ne_return_of_mem_placeFrom`: the ends of lines have one form for each thing they stand for.
-/

namespace Crossref.Yaml

/-- A character with its place in the document. -/
structure Placed where
  char : Char
  /-- The bytes in front of it. -/
  offset : Nat
  /-- The line ends in front of it. -/
  line : Nat
  /-- The characters in front of it in its line. -/
  column : Nat
  deriving DecidableEq, Inhabited

/-! ### Kinds of characters -/

/-- A character that may stand in a document. -/
def isPrintable (c : Char) : Bool :=
  let n := c.toNat
  n = 0x09 || n = 0x0A || n = 0x0D || (0x20 ≤ n && n ≤ 0x7E) || n = 0x85
    || (0xA0 ≤ n && n ≤ 0xFFFD) || 0x10000 ≤ n

def isSpace (c : Char) : Bool := c = ' ' || c = '\t'

/-- The end of a line: a line feed, or a separator of lines or paragraphs. -/
def isBreak (c : Char) : Bool := c = '\n' || c = '\u2028' || c = '\u2029'

def isBlank (c : Char) : Bool := isSpace c || isBreak c

/-- A character of a name. -/
def isNameChar (c : Char) : Bool := c.isAlphanum || c = '-' || c = '_'

/-! ### Placing -/

/-- The characters at their places, behind those that are placed already, in reverse.  A carriage
return, one with a line feed behind it, and the next line character are line feeds. -/
def placeFrom (done : List Placed) (offset line column : Nat) : List Char → List Placed
  | [] => done.reverse
  | '\r' :: '\n' :: cs =>
    placeFrom (⟨'\n', offset, line, column⟩ :: done) (offset + 2) (line + 1) 0 cs
  | c :: cs =>
    if c = '\r' || c = '\u0085' then
      placeFrom (⟨'\n', offset, line, column⟩ :: done) (offset + c.utf8Size) (line + 1) 0 cs
    else if isBreak c then
      placeFrom (⟨c, offset, line, column⟩ :: done) (offset + c.utf8Size) (line + 1) 0 cs
    else placeFrom (⟨c, offset, line, column⟩ :: done) (offset + c.utf8Size) line (column + 1) cs

theorem ne_return_of_mem_placeFrom {done : List Placed} {offset line column : Nat} {cs : List Char}
    (h : ∀ p ∈ done, p.char ≠ '\r') :
    ∀ p ∈ placeFrom done offset line column cs, p.char ≠ '\r' := by
  fun_induction placeFrom done offset line column cs with
  | case1 => simpa using h
  | case2 done offset line column cs ih => exact ih (by simpa using h)
  | case3 done offset line column c cs _ _ ih => exact ih (by simpa using h)
  | case4 done offset line column c cs _ hc _ ih => exact ih (by simp_all)
  | case5 done offset line column c cs _ hc _ ih => exact ih (by simp_all)

/-- The characters of a document at their places, when all of them may stand in one.  A byte order
mark in front is no part of the document, and takes its column all the same. -/
def placed? (text : String) : Option (List Placed) :=
  if text.toList.all isPrintable then
    let ps := placeFrom [] 0 0 0 text.toList
    some (if text.toList.head? = some '\uFEFF' then ps.drop 1 else ps)
  else none

/-! ### What stands at a place -/

/-- The document ends here, or a blank or the line's end follows. -/
def endsWord : List Placed → Bool
  | [] => true
  | p :: _ => isBlank p.char

/-- A line starts here with three of the character, and no word goes on behind them. -/
def isMarker (c : Char) (ps : List Placed) : Bool :=
  ps.head?.any (·.column = 0) && (ps.take 3).map Placed.char = [c, c, c] && endsWord (ps.drop 3)

/-- A line starts here that opens or ends a document. -/
def isDocumentMarker (ps : List Placed) : Bool := isMarker '-' ps || isMarker '.' ps

/-- The places behind blanks and a comment, at the end of the line; otherwise nothing. -/
def lineEnd? (ps : List Placed) : Option (List Placed) :=
  let ps := ps.dropWhile (isSpace ·.char)
  let ps := if ps.head?.any (·.char = '#') then ps.dropWhile (!isBreak ·.char) else ps
  if ps.head?.all (isBreak ·.char) then some (ps.drop 1) else none

end Crossref.Yaml
