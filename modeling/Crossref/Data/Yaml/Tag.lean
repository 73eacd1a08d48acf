import Crossref.Data.Yaml.Place
import Crossref.Text.Number

/-!
# YAML: anchors, tags and directives

What may stand in front of a value: the name of an anchor and a tag.  A tag is written in full, or
with a handle that a directive or the format itself gives a meaning.

* `expand?_append`: a directive for a handle comes before the meaning that the format gives.
-/

namespace Crossref.Yaml

/-! ### Anchors -/

/-- The name of an anchor, and what follows it. -/
def anchorName? (ps : List Placed) : Option (List Char × List Placed) :=
  let name := (ps.takeWhile (isNameChar ·.char)).map Placed.char
  let rest := ps.dropWhile (isNameChar ·.char)
  let ends := ['?', ':', ',', ']', '}', '%', '@', '\x60']
  if !name.isEmpty && (endsWord rest || rest.head?.any (ends.contains ·.char)) then
    some (name, rest)
  else none

/-! ### Tags -/

/-- The meanings of the handles of tags. -/
abbrev Handles := List (List Char × List Char)

/-- The handles that need no directive. -/
def standardHandles : Handles :=
  [(['!'], ['!']), (['!', '!'], "tag:yaml.org,2002:".toList)]

/-- A handle with its meaning in place of it. -/
def expand? (handles : Handles) (handle suffix : List Char) : Option (List Char) :=
  ((handles ++ standardHandles).lookup handle).map (· ++ suffix)

theorem expand?_append {handles : Handles} {handle meaning : List Char} (suffix : List Char)
    (h : handles.lookup handle = some meaning) :
    expand? handles handle suffix = some (meaning ++ suffix) := by
  simp [expand?, List.lookup_append, h]

/-- A character of a tag; some may stand only in a tag that is written in full. -/
def isTagChar (full : Bool) (c : Char) : Bool :=
  isNameChar c || ";/?:@&=+$.!~*'()".toList.contains c || (full && [',', '[', ']'].contains c)

/-- The bytes that still belong to a character, behind another of its bytes. -/
def bytesDue? (due byte : Nat) : Option Nat :=
  if due = 0 then
    if byte < 0x80 then some 0
    else if 0xC0 ≤ byte && byte < 0xE0 then some 1
    else if 0xE0 ≤ byte && byte < 0xF0 then some 2
    else if 0xF0 ≤ byte && byte < 0xF8 then some 3
    else none
  else if 0x80 ≤ byte && byte < 0xC0 then some (due - 1)
  else none

/-- The rest of a tag, behind the characters in `done`, which are in reverse.  A percent sign and
two digits stand for a byte; the bytes of a character stand together. -/
def tagFrom (full : Bool) : Nat → List Char → List Placed → Option (List Char × List Placed)
  | due, done, p :: h :: l :: ps =>
    if p.char = '%' then do
      let byte ← Text.digitsValue? 16 [h.char, l.char]
      tagFrom full (← bytesDue? due byte) (Char.ofNat byte :: done) ps
    else if due != 0 then none
    else if isTagChar full p.char then tagFrom full 0 (p.char :: done) (h :: l :: ps)
    else some (done.reverse, p :: h :: l :: ps)
  | due, done, ps =>
    let more := ps.takeWhile (isTagChar full ·.char)
    let rest := ps.dropWhile (isTagChar full ·.char)
    if due != 0 || rest.head?.any (·.char = '%') then none
    else some (done.reverse ++ more.map Placed.char, rest)

/-- The characters of a tag that stand here. -/
def tagText (full : Bool) (ps : List Placed) : Option (List Char × List Placed) :=
  tagFrom full 0 [] ps

/-- A handle between exclamation marks, of which the first one is in front: its letters, and what
follows it. -/
def handle? (ps : List Placed) : Option (List Char × List Placed) :=
  match ps.dropWhile (isNameChar ·.char) with
  | [] => none
  | p :: rest =>
    if p.char = '!' then some ((ps.takeWhile (isNameChar ·.char)).map Placed.char, rest) else none

/-- The tag behind its exclamation mark, with its handle expanded. -/
def tag? (handles : Handles) (inFlow : Bool) (ps : List Placed) :
    Option (List Char × List Placed) := do
  let (name, rest) ←
    if ps.head?.any (·.char = '<') then do
      let (name, rest) ← tagText true (ps.drop 1)
      if name.isEmpty || !rest.head?.any (·.char = '>') then none else some (name, rest.drop 1)
    else
      match handle? ps with
      | some (letters, rest) => do
        let (suffix, rest) ← tagText false rest
        if suffix.isEmpty then none
        else
          let name ← expand? handles ('!' :: letters ++ ['!']) suffix
          some (name, rest)
      | none => do
        let (suffix, rest) ← tagText false ps
        if suffix.isEmpty then some (['!'], rest)
        else
          let name ← expand? handles ['!'] suffix
          some (name, rest)
  if endsWord rest || (inFlow && rest.head?.any (·.char = ',')) then some (name, rest) else none

/-! ### Directives -/

/-- A line behind a percent sign. -/
inductive Directive where
  | version (major minor : Nat)
  | handle (handle meaning : List Char)
  deriving DecidableEq, Inhabited

/-- A number of a version, and what follows it. -/
def versionNumber? (ps : List Placed) : Option (Nat × List Placed) :=
  let digits := (ps.takeWhile (·.char.isDigit)).map Placed.char
  if digits.length ≤ 9 then
    (Text.digitsValue? 10 digits).map fun n => (n, ps.dropWhile (·.char.isDigit))
  else none

/-- The directive behind its percent sign, and what follows its line. -/
def directive? (ps : List Placed) : Option (Directive × List Placed) := do
  let name := (ps.takeWhile (isNameChar ·.char)).map Placed.char
  let rest := ps.dropWhile (isNameChar ·.char)
  let text := rest.dropWhile (isSpace ·.char)
  if !endsWord rest then none
  else if name = "YAML".toList then
    let (major, rest) ← versionNumber? text
    if !rest.head?.any (·.char = '.') then none
    else
      let (minor, rest) ← versionNumber? (rest.drop 1)
      return (.version major minor, ← lineEnd? rest)
  else if name = "TAG".toList && text.head?.any (·.char = '!') then
    let (handle, rest) :=
      match handle? (text.drop 1) with
      | some (letters, rest) => ('!' :: letters ++ ['!'], rest)
      | none => (['!'], text.drop 1)
    if !rest.head?.any (isSpace ·.char) then none
    else
      let (meaning, rest) ← tagText true (rest.dropWhile (isSpace ·.char))
      if meaning.isEmpty || !endsWord rest then none
      else return (.handle handle meaning, ← lineEnd? rest)
  else none

end Crossref.Yaml
