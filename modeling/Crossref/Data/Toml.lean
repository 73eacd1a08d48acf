import Crossref.Data
import Crossref.Text.Number

/-!
# TOML

Reads a document of tables.  A table is opened by a header, implied by a longer header, or built by
dotted keys, and this decides what may still be added to it; no key has two values.

* `addValue_of_mem`: a key of a table that has a value already is refused.
* `length_of_keyOf`: a key has no more parts than it may have.
* `read_empty`: a document without content is an empty table.
-/

namespace Crossref.Toml

/-! ### Tables -/

/-- How a table came to be. -/
inductive TableKind where
  | opened
  | implied
  | dotted
  deriving DecidableEq, Inhabited

/-- What a key stands for while a document is read. -/
inductive Item where
  | value (d : Data)
  | table (kind : TableKind) (entries : List (String × Item))
  /-- The tables of a list of tables, the last one first. -/
  | tables (latest : List (List (String × Item)))
  deriving Inhabited

abbrev Entries := List (String × Item)

def find? (entries : Entries) (key : String) : Option Item :=
  (entries.find? fun e => e.1 == key).map Prod.snd

def replace (entries : Entries) (key : String) (new : Item) : Entries :=
  entries.map fun e => if e.1 == key then (key, new) else e

/-- Changes the table that the keys lead to.  A missing table is made: a dotted one on the way of
dotted keys, an implied one on the way of a header; dotted keys do not lead into an opened table.
The change is told whether the table it meets is a dotted one. -/
def within (byDots : Bool) (change : Bool → Entries → Option Entries) :
    List String → Bool → Entries → Option Entries
  | [], dotted, entries => change dotted entries
  | key :: keys, _, entries =>
    match find? entries key with
    | none =>
      (within byDots change keys byDots []).map fun inner =>
        entries ++ [(key, .table (if byDots then .dotted else .implied) inner)]
    | some (.value _) => none
    | some (.table kind inner) =>
      if byDots && kind = .opened then none
      else
        (within byDots change keys (kind = .dotted) inner).map fun inner =>
          replace entries key (.table kind inner)
    | some (.tables []) => none
    | some (.tables (last :: before)) =>
      (within byDots change keys false last).map fun last =>
        replace entries key (.tables (last :: before))

/-- Adds a value under a key that must be new. -/
def addValue (entries : Entries) (key : String) (d : Data) : Option Entries :=
  if (find? entries key).isSome then none else some (entries ++ [(key, .value d)])

theorem addValue_of_mem {entries : Entries} {key : String} {item : Item} {d : Data}
    (h : (key, item) ∈ entries) : addValue entries key d = none := by
  have : (find? entries key).isSome = true := by
    simp only [find?, Option.isSome_map, List.find?_isSome]
    exact ⟨_, h, by simp⟩
  simp [addValue, this]

/-- Adds a value under a dotted key.  All keys but the last lead through tables that dotted keys
have built. -/
def assign (keys : List String) (d : Data) (entries : Entries) : Option Entries :=
  match keys.getLast? with
  | none => none
  | some key =>
    within true (fun dotted table =>
      if dotted = keys.dropLast.isEmpty then none else addValue table key d)
      keys.dropLast false entries

/-- Opens the table that a header names: a new one, or one that is only implied so far. -/
def openTable (keys : List String) (entries : Entries) : Option Entries :=
  match keys.getLast? with
  | none => none
  | some key =>
    within false (fun _ table =>
      match find? table key with
      | none => some (table ++ [(key, .table .opened [])])
      | some (.table .implied inner) => some (replace table key (.table .opened inner))
      | some _ => none)
      keys.dropLast false entries

/-- Opens another table of the list of tables that a header names. -/
def openNext (keys : List String) (entries : Entries) : Option Entries :=
  match keys.getLast? with
  | none => none
  | some key =>
    within false (fun _ table =>
      match find? table key with
      | none => some (table ++ [(key, .tables [[]])])
      | some (.tables latest) => some (replace table key (.tables ([] :: latest)))
      | some _ => none)
      keys.dropLast false entries

mutual

/-- The value of an item once its document is read. -/
def Item.data : Item → Data
  | .value d => d
  | .table _ entries => .map (dataOfEntries entries)
  | .tables latest => .list (dataOfTables latest).reverse

def dataOfEntries : List (String × Item) → List (String × Data)
  | [] => []
  | (key, item) :: rest => (key, item.data) :: dataOfEntries rest

def dataOfTables : List (List (String × Item)) → List Data
  | [] => []
  | entries :: rest => .map (dataOfEntries entries) :: dataOfTables rest

end

/-! ### Blanks -/

def isSpace (c : Char) : Bool := c = ' ' || c = '\t'

/-- A character that may stand in a comment or in quotes. -/
def isContent (c : Char) : Bool := c = '\t' || (0x20 ≤ c.toNat && c.toNat != 0x7F)

def skipSpaces (cs : List Char) : List Char := cs.dropWhile isSpace

/-- The characters behind a comment, if one stands here. -/
def skipComment (cs : List Char) : List Char :=
  if cs.head? = some '#' then cs.dropWhile isContent else cs

/-- The characters behind the end of a line, with blanks and a comment before it. -/
def lineEnd? (cs : List Char) : Option (List Char) :=
  match skipComment (skipSpaces cs) with
  | [] => some []
  | '\n' :: cs => some cs
  | '\r' :: '\n' :: cs => some cs
  | _ => none

/-- The characters behind blanks, comments and line ends. -/
def skipLines : Nat → List Char → List Char
  | 0, cs => cs
  | fuel + 1, cs =>
    match skipComment (skipSpaces cs) with
    | '\n' :: cs => skipLines fuel cs
    | '\r' :: '\n' :: cs => skipLines fuel cs
    | cs => cs

/-- The characters behind blanks and line ends. -/
def skipBlanks : List Char → List Char
  | '\r' :: '\n' :: cs => skipBlanks cs
  | c :: cs => if isSpace c || c = '\n' then skipBlanks cs else c :: cs
  | [] => []

/-! ### Strings and keys -/

/-- The text up to the closing `'` in the same line. -/
def literal (done : List Char) : List Char → Option (String × List Char)
  | [] => none
  | c :: cs =>
    if c = '\'' then some (String.ofList done.reverse, cs)
    else if isContent c then literal (c :: done) cs
    else none

/-- The character that a letter behind a backslash stands for. -/
def escape? (c : Char) : Option Char :=
  [('b', '\x08'), ('t', '\t'), ('n', '\n'), ('f', '\x0c'), ('r', '\r'), ('"', '"'),
   ('\\', '\\')].lookup c

/-- The character that an escape stands for, and the characters behind the escape. -/
def escapeSequence? : List Char → Option (Char × List Char)
  | 'u' :: a :: b :: c :: d :: cs => (Text.hexChar? [a, b, c, d]).map (·, cs)
  | 'U' :: a :: b :: c :: d :: e :: f :: g :: h :: cs =>
    (Text.hexChar? [a, b, c, d, e, f, g, h]).map (·, cs)
  | c :: cs => (escape? c).map (·, cs)
  | [] => none

/-- The text up to the closing `"` in the same line. -/
def basic : Nat → List Char → List Char → Option (String × List Char)
  | 0, _, _ => none
  | _ + 1, _, [] => none
  | fuel + 1, done, c :: cs =>
    if c = '"' then some (String.ofList done.reverse, cs)
    else if c = '\\' then
      (escapeSequence? cs).bind fun (e, cs) => basic fuel (e :: done) cs
    else if isContent c then basic fuel (c :: done) cs
    else none

/-- The text of a string over several lines, up to three closing quotes; two more quotes in front of
them belong to the text. -/
def multiLine (quote : Char) (escapes : Bool) :
    Nat → List Char → List Char → Option (String × List Char)
  | 0, _, _ => none
  | _ + 1, _, [] => none
  | fuel + 1, done, c :: cs =>
    let quotes := ((c :: cs).takeWhile (· == quote)).length
    if 3 ≤ quotes then
      if 5 < quotes then none
      else
        some (String.ofList (List.replicate (quotes - 3) quote ++ done).reverse,
          (c :: cs).drop quotes)
    else if escapes && c = '\\' then
      match skipSpaces cs with
      | '\n' :: rest => multiLine quote escapes fuel done (skipBlanks rest)
      | '\r' :: '\n' :: rest => multiLine quote escapes fuel done (skipBlanks rest)
      | _ => (escapeSequence? cs).bind fun (e, cs) => multiLine quote escapes fuel (e :: done) cs
    else if c = '\r' then
      match cs with
      | '\n' :: cs => multiLine quote escapes fuel ('\n' :: done) cs
      | _ => none
    else if c = '\n' || isContent c then multiLine quote escapes fuel (c :: done) cs
    else none

/-- The characters behind a line end that stands here. -/
def dropLineEnd : List Char → List Char
  | '\n' :: cs => cs
  | '\r' :: '\n' :: cs => cs
  | cs => cs

/-- A string in one of the four ways to write it. -/
def string? : List Char → Option (String × List Char)
  | '"' :: '"' :: '"' :: cs => multiLine '"' true (cs.length + 1) [] (dropLineEnd cs)
  | '\'' :: '\'' :: '\'' :: cs => multiLine '\'' false (cs.length + 1) [] (dropLineEnd cs)
  | '"' :: cs => basic (cs.length + 1) [] cs
  | '\'' :: cs => literal [] cs
  | _ => none

def isBareKey (c : Char) : Bool := c.isAlphanum || c = '_' || c = '-'

/-- One part of a key. -/
def simpleKey? (cs : List Char) : Option (String × List Char) :=
  match cs with
  | '"' :: rest => basic (rest.length + 1) [] rest
  | '\'' :: rest => literal [] rest
  | _ =>
    let bare := cs.takeWhile isBareKey
    if bare.isEmpty then none else some (String.ofList bare, cs.dropWhile isBareKey)

/-- How many values may stand one inside the other, and how many parts a key may have. -/
def depthLimit : Nat := 79

/-- A key of at most as many parts as given, which stand between dots, and the characters behind it
and the blanks after it. -/
def keyOf : Nat → List Char → Option (List String × List Char)
  | 0, _ => none
  | limit + 1, cs =>
    match simpleKey? (skipSpaces cs) with
    | none => none
    | some (part, rest) =>
      match skipSpaces rest with
      | '.' :: rest => (keyOf limit rest).map fun (parts, rest) => (part :: parts, rest)
      | rest => some ([part], rest)

def key? (cs : List Char) : Option (List String × List Char) := keyOf depthLimit cs

theorem length_of_keyOf {limit : Nat} {cs rest : List Char} {parts : List String}
    (h : keyOf limit cs = some (parts, rest)) : parts.length ≤ limit := by
  induction limit generalizing cs parts rest with
  | zero => simp [keyOf] at h
  | succ limit ih =>
    unfold keyOf at h
    split at h
    · simp at h
    · split at h
      · obtain ⟨⟨ps, r⟩, hp, he⟩ := Option.map_eq_some_iff.1 h
        have := ih hp
        simp only [Prod.mk.injEq] at he
        simpa [← he.1] using this
      · simp only [Option.some.injEq, Prod.mk.injEq] at h
        simp [← h.1]

/-! ### Numbers and dates -/

/-- The digits of a number whose underscores all stand between two digits. -/
def joinDigits? (isDigit : Char → Bool) : List Char → Option (List Char)
  | [] => none
  | [c] => if isDigit c then some [c] else none
  | c :: '_' :: cs => if isDigit c then (joinDigits? isDigit cs).map (c :: ·) else none
  | c :: cs => if isDigit c then (joinDigits? isDigit cs).map (c :: ·) else none

/-- The decimal digits of a number without needless zeros in front. -/
def decimalDigits? (cs : List Char) : Option (List Char) :=
  (joinDigits? Char.isDigit cs).filter fun ds => ds.length = 1 || ds.head? != some '0'

/-- The number in a base that its digits write. -/
def baseNumber? (base : Nat) (cs : List Char) : Option Nat :=
  (joinDigits? (fun c => (Text.digitValue? base c).isSome) cs).bind (Text.digitsValue? base)

/-- Whether a sign stands in front, if one does, and what follows it. -/
def splitSign : List Char → Option Bool × List Char
  | '+' :: cs => (some false, cs)
  | '-' :: cs => (some true, cs)
  | cs => (none, cs)

/-- An integer of 64 bits with a sign. -/
def integer? (cs : List Char) : Option Int :=
  let value : Option Int :=
    match cs with
    | '0' :: 'x' :: ds => (baseNumber? 16 ds).map Int.ofNat
    | '0' :: 'o' :: ds => (baseNumber? 8 ds).map Int.ofNat
    | '0' :: 'b' :: ds => (baseNumber? 2 ds).map Int.ofNat
    | _ =>
      let (negative, ds) := splitSign cs
      ((decimalDigits? ds).bind (Text.digitsValue? 10)).map fun n =>
        if negative = some true then -Int.ofNat n else Int.ofNat n
  let limit := Int.ofNat (Nat.pow 2 63)
  value.filter fun i => -limit ≤ i && i < limit

/-- A number with a fraction or an exponent: its digits, and the power of ten that they count. -/
structure Scientific where
  negative : Bool
  digits : Nat
  power : Int
  deriving DecidableEq, Inhabited

/-- The number that is written with a fraction, an exponent, or both. -/
def scientific? (cs : List Char) : Option Scientific := do
  let isExponent (c : Char) : Bool := c = 'e' || c = 'E'
  let (sign, body) := splitSign cs
  let mantissa := body.takeWhile (!isExponent ·)
  let exponent := (body.dropWhile (!isExponent ·)).drop 1
  let fraction := (mantissa.dropWhile (· != '.')).drop 1
  let whole ← decimalDigits? (mantissa.takeWhile (· != '.'))
  let places ← if mantissa.contains '.' then joinDigits? Char.isDigit fraction else some []
  let (down, size) := splitSign exponent
  let power ← if body.any isExponent then joinDigits? Char.isDigit size else some ['0']
  if mantissa.length = body.length && places.isEmpty then none
  else
    let power := Int.ofNat (← Text.digitsValue? 10 power)
    return {
      negative := sign = some true
      digits := ← Text.digitsValue? 10 (whole ++ places)
      power := (if down = some true then -power else power) - places.length }

/-- The least number that is rounded to infinity: numbers have 53 binary digits, and end in front of
the power 1024 of two. -/
def floatLimit : Nat := Nat.pow 2 1024 - Nat.pow 2 970

/-- The number is rounded to infinity.  The limit has 309 decimal digits; only a number with as many
digits in front of its point is compared with it. -/
def Scientific.overflows (x : Scientific) : Bool :=
  let length := Int.ofNat (toString x.digits).length + x.power
  x.digits != 0
    && (309 < length
      || (length = 309
        && floatLimit * Nat.pow 10 (-x.power).toNat ≤ x.digits * Nat.pow 10 x.power.toNat))

/-- The characters write a number with a fraction or an exponent, or one of the special ones.  A
positive number that is not special is not rounded to infinity. -/
def isFloat (cs : List Char) : Bool :=
  [['i', 'n', 'f'], ['n', 'a', 'n']].contains (splitSign cs).2
    || (scientific? cs).any fun x => x.negative || !x.overflows

/-- The characters follow a pattern in which `d` stands for a digit and all else for itself. -/
def follows (pattern cs : List Char) : Bool :=
  pattern.length = cs.length
    && (pattern.zip cs).all fun (p, c) => if p = 'd' then c.isDigit else p = c

/-- The number that the digits at some places write. -/
def numberAt (cs : List Char) (start size : Nat) : Nat :=
  (Text.digitsValue? 10 ((cs.drop start).take size)).getD 0

/-- Hours and minutes with a colon between them. -/
def isHourMinute (cs : List Char) : Bool :=
  follows "dd:dd".toList cs && numberAt cs 0 2 ≤ 23 && numberAt cs 3 2 ≤ 59

/-- A time of day, with or without a fraction of a second; a minute may have a leap second. -/
def isTime (cs : List Char) : Bool :=
  let fraction := cs.drop 8
  isHourMinute (cs.take 5) && follows ":dd".toList ((cs.drop 5).take 3) && numberAt cs 6 2 ≤ 60
    && (fraction.isEmpty
      || (fraction.head? = some '.' && 2 ≤ fraction.length && (fraction.drop 1).all Char.isDigit))

/-- A time with the distance of its zone. -/
def isZonedTime (cs : List Char) : Bool :=
  let isZone (c : Char) : Bool := ['Z', 'z', '+', '-'].contains c
  let zone := cs.dropWhile (!isZone ·)
  let signed := zone.head?.any fun c => c = '+' || c = '-'
  isTime (cs.takeWhile (!isZone ·))
    && (zone.isEmpty || zone = ['Z'] || zone = ['z'] || (signed && isHourMinute (zone.drop 1)))

def isLeapYear (year : Nat) : Bool := year % 4 = 0 && (year % 100 != 0 || year % 400 = 0)

def daysIn (year month : Nat) : Nat :=
  if month = 2 then if isLeapYear year then 29 else 28
  else if [4, 6, 9, 11].contains month then 30
  else 31

/-- A day of the calendar. -/
def isDate (cs : List Char) : Bool :=
  let month := numberAt cs 5 2
  let day := numberAt cs 8 2
  follows "dddd-dd-dd".toList cs && 1 ≤ month && month ≤ 12
    && 1 ≤ day && day ≤ daysIn (numberAt cs 0 4) month

/-- A date, a time, or both. -/
def isDateOrTime (cs : List Char) : Bool :=
  let rest := cs.drop 10
  isTime cs
    || (isDate (cs.take 10)
      && (rest.isEmpty
        || (rest.head?.any (fun c => c = 'T' || c = 't' || c = ' ') && isZonedTime (rest.drop 1))))

/-- A character of a number, a date or a time. -/
def isWordChar (c : Char) : Bool := c.isAlphanum || ['_', '+', '-', '.', ':'].contains c

/-- The unquoted word that stands here; between a date and a time there may be one blank. -/
def word (cs : List Char) : List Char :=
  let first := cs.takeWhile isWordChar
  let second := ((cs.dropWhile isWordChar).drop 1).takeWhile isWordChar
  if follows "dddd-dd-dd".toList first && (cs.dropWhile isWordChar).head? = some ' '
      && second.head?.any Char.isDigit then
    first ++ ' ' :: second
  else first

/-- The value of an unquoted word.  Settings know no dates, and take one for a table without any
entry that they know. -/
def wordValue? (w : List Char) : Option Data :=
  if w = "true".toList then some (.bool true)
  else if w = "false".toList then some (.bool false)
  else
    match integer? w with
    | some i => some (.int i)
    | none =>
      if isFloat w then some (.decimal (String.ofList w))
      else if isDateOrTime w then some (.map [])
      else none

/-! ### Values -/

mutual

/-- A value.  Arrays and inline tables stand one inside the other at most `depth` times. -/
def value (depth : Nat) : Nat → List Char → Option (Data × List Char)
  | 0, _ => none
  | fuel + 1, cs =>
    match cs with
    | '[' :: cs =>
      if depth = 0 then none
      else (items (depth - 1) fuel cs).map fun (ds, rest) => (.list ds, rest)
    | '{' :: cs =>
      if depth = 0 then none
      else
        match skipSpaces cs with
        | '}' :: rest => some (.map [], rest)
        | cs =>
          (pairs (depth - 1) fuel [] cs).map fun (es, rest) => (.map (dataOfEntries es), rest)
    | cs =>
      match string? cs with
      | some (s, rest) => some (.text s, rest)
      | none => (wordValue? (word cs)).map fun d => (d, cs.drop (word cs).length)

/-- The items of an array up to its end; blanks, comments and line ends may stand around them. -/
def items (depth : Nat) : Nat → List Char → Option (List Data × List Char)
  | 0, _ => none
  | fuel + 1, cs =>
    match skipLines cs.length cs with
    | ']' :: rest => some ([], rest)
    | cs =>
      match value depth fuel cs with
      | none => none
      | some (d, cs) =>
        match skipLines cs.length cs with
        | ',' :: rest => (items depth fuel rest).map fun (ds, rest) => (d :: ds, rest)
        | ']' :: rest => some ([d], rest)
        | _ => none

/-- The pairs of an inline table up to its end, all in one line. -/
def pairs (depth : Nat) : Nat → Entries → List Char → Option (Entries × List Char)
  | 0, _, _ => none
  | fuel + 1, entries, cs => do
    let (keys, cs) ← key? cs
    if cs.head? != some '=' then none
    else
      let (d, cs) ← value depth fuel (skipSpaces (cs.drop 1))
      let entries ← assign keys d entries
      match skipSpaces cs with
      | ',' :: rest => pairs depth fuel entries rest
      | '}' :: rest => some (entries, rest)
      | _ => none

end

/-! ### Documents -/

/-- A line that opens a table or gives a value: the keys of the table that is open now, the entries
of the document, and what follows the line. -/
def statement (header : List String) (entries : Entries) (cs : List Char) :
    Option (List String × Entries × List Char) := do
  match cs with
  | '[' :: '[' :: cs =>
    let (keys, cs) ← key? cs
    match cs with
    | ']' :: ']' :: cs => return (keys, ← openNext keys entries, ← lineEnd? cs)
    | _ => none
  | '[' :: cs =>
    let (keys, cs) ← key? cs
    match cs with
    | ']' :: cs => return (keys, ← openTable keys entries, ← lineEnd? cs)
    | _ => none
  | cs =>
    let (keys, cs) ← key? cs
    if cs.head? != some '=' then none
    else
      let (d, cs) ← value depthLimit (2 * cs.length + 2) (skipSpaces (cs.drop 1))
      let entries ← within false (fun _ table => assign keys d table) header false entries
      return (header, entries, ← lineEnd? cs)

/-- The entries of a document. -/
def statements : Nat → List String → Entries → List Char → Option Entries
  | 0, _, _, _ => none
  | fuel + 1, header, entries, cs =>
    match skipLines (cs.length + 1) cs with
    | [] => some entries
    | cs => do
      let (header, entries, rest) ← statement header entries cs
      statements fuel header entries rest

/-- The value of a document. -/
def read (text : String) : Option Data :=
  let cs := if text.toList.head? = some '\uFEFF' then text.toList.drop 1 else text.toList
  (statements (cs.length + 1) [] [] cs).map fun entries => .map (dataOfEntries entries)

theorem read_empty : read "" = some (.map []) := by rfl

end Crossref.Toml
