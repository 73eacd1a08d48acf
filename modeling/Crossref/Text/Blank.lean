/-!
# Text: blank characters

The characters of Unicode's `White_Space` property, as ranges of code points, and the functions
that trim them from the ends of a text.

* `blank_of_ascii_space`: every space, tab, line feed and carriage return is blank.
* `trimStart_idem`: a text that was trimmed has nothing left to trim.
-/

namespace Crossref.Text

/-- The ranges of code points that carry the property `White_Space`, both ends included. -/
def blankRanges : List (Nat × Nat) :=
  [(0x09, 0x0D), (0x20, 0x20), (0x85, 0x85), (0xA0, 0xA0), (0x1680, 0x1680), (0x2000, 0x200A),
   (0x2028, 0x2029), (0x202F, 0x202F), (0x205F, 0x205F), (0x3000, 0x3000)]

/-- A character is blank when one of the ranges holds it. -/
def isBlank (c : Char) : Bool :=
  blankRanges.any fun r => r.1 ≤ c.toNat && c.toNat ≤ r.2

theorem blank_of_ascii_space :
    isBlank ' ' = true ∧ isBlank '\t' = true ∧ isBlank '\n' = true ∧ isBlank '\r' = true := by
  decide

/-- The characters after the leading blanks. -/
def trimStartChars (cs : List Char) : List Char := cs.dropWhile isBlank

/-- The characters before the trailing blanks. -/
def trimEndChars (cs : List Char) : List Char := (cs.reverse.dropWhile isBlank).reverse

/-- The characters between the leading and the trailing blanks. -/
def trimChars (cs : List Char) : List Char := trimEndChars (trimStartChars cs)

/-- The text without its leading and trailing blanks. -/
def trim (s : String) : String := String.ofList (trimChars s.toList)

/-- The text without its trailing blanks. -/
def trimEnd (s : String) : String := String.ofList (trimEndChars s.toList)

theorem trimStart_idem (cs : List Char) :
    trimStartChars (trimStartChars cs) = trimStartChars cs := by
  induction cs with
  | nil => rfl
  | cons c cs ih =>
    by_cases h : isBlank c = true
    · simpa [trimStartChars, List.dropWhile_cons, h] using ih
    · simp [trimStartChars, h]

end Crossref.Text
