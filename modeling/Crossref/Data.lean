/-!
# Data

Values as configuration files hold them and reports are written in: scalars, lists, and maps with
text keys in order.  A scalar that was written without quotes in a format that decides its type by
where it stands is kept as it was written.

* `JsonText.pretty`: the value as indented JSON.
-/

namespace Crossref

/-- A value of a configuration file or a report. -/
inductive Data where
  | null
  | bool (b : Bool)
  | int (i : Int)
  /-- A number that is no integer in range, as written. -/
  | decimal (text : String)
  | text (s : String)
  /-- An unquoted scalar whose type depends on what is expected. -/
  | plain (s : String)
  | list (items : List Data)
  | map (entries : List (String × Data))
  deriving Inhabited

namespace Data

/-- The value of a text that may be missing. -/
def ofText? (s : Option String) : Data :=
  match s with
  | some s => .text s
  | none => .null

/-- The value under a key; the last one counts. -/
def find? (entries : List (String × Data)) (key : String) : Option Data :=
  (entries.reverse.find? fun e => e.1 == key).map Prod.snd

end Data

/-! ### JSON -/

namespace JsonText

/-- A hexadecimal digit in lower case. -/
def hexDigit (n : Nat) : Char :=
  if n < 10 then Char.ofNat ('0'.toNat + n) else Char.ofNat ('a'.toNat + (n - 10))

/-- How a character is written inside quotes: quotes, backslashes and control characters are
escaped, everything else stands for itself. -/
def escapeChar (c : Char) : List Char :=
  if c = '"' then ['\\', '"']
  else if c = '\\' then ['\\', '\\']
  else if c = '\n' then ['\\', 'n']
  else if c = '\r' then ['\\', 'r']
  else if c = '\t' then ['\\', 't']
  else if c.toNat = 8 then ['\\', 'b']
  else if c.toNat = 12 then ['\\', 'f']
  else if c.toNat < 32 then
    ['\\', 'u', '0', '0', hexDigit (c.toNat / 16), hexDigit (c.toNat % 16)]
  else [c]

/-- A text in quotes. -/
def quote (s : String) : String :=
  "\"" ++ String.ofList (s.toList.flatMap escapeChar) ++ "\""

/-- The spaces in front of a line at a depth. -/
def indent (depth : Nat) : String := String.ofList (List.replicate (2 * depth) ' ')

/-- The items on lines of their own, one deeper than the brackets around them. -/
def block (depth : Nat) (opening closing : String) (items : List String) : String :=
  match items with
  | [] => opening ++ closing
  | _ =>
    opening ++ "\n" ++ ",\n".intercalate (items.map (indent (depth + 1) ++ ·)) ++ "\n"
      ++ indent depth ++ closing

mutual

/-- The value as JSON, in brackets at the given depth. -/
def pretty (depth : Nat) : Data → String
  | .null => "null"
  | .bool b => if b then "true" else "false"
  | .int i => toString i
  | .decimal s => s
  | .text s => quote s
  | .plain s => quote s
  | .list items => block depth "[" "]" (prettyItems (depth + 1) items)
  | .map entries => block depth "\x7b" "\x7d" (prettyEntries (depth + 1) entries)

def prettyItems (depth : Nat) : List Data → List String
  | [] => []
  | d :: ds => pretty depth d :: prettyItems depth ds

def prettyEntries (depth : Nat) : List (String × Data) → List String
  | [] => []
  | (k, d) :: es => (quote k ++ ": " ++ pretty depth d) :: prettyEntries depth es

end

end JsonText

end Crossref
