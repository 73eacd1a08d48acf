import Crossref.Text.Blank

/-!
# Text: pieces of a text

Prefixes, suffixes, pieces and replacements of a text, each as a function on its characters.
The functions on `String` are the ones on `List Char`, so a statement about a text is a statement
about a list.

* `occursIn_iff`: `occursIn p s` holds exactly when `s` splits as `u ++ p ++ v`.
* `length_stripRepeated_le`: stripping only shortens.
-/

namespace Crossref.Text

/-! ### Prefixes and suffixes -/

/-- The text begins with `p`. -/
def startsWith (s p : String) : Bool := p.toList.isPrefixOf s.toList

/-- The text ends with `p`. -/
def endsWith (s p : String) : Bool := p.toList.isSuffixOf s.toList

/-- The text ends with the character `c`. -/
def endsWithChar (s : String) (c : Char) : Bool := s.toList.getLast? == some c

/-- The text after a leading `p`, when it begins with `p`. -/
def dropPrefix? (s p : String) : Option String :=
  if startsWith s p then some (String.ofList (s.toList.drop p.toList.length)) else none

/-- The characters left after as many leading copies of `p` as there are, at most `fuel` of them. -/
def stripRepeatedWith (p : List Char) : Nat → List Char → List Char
  | 0, cs => cs
  | fuel + 1, cs =>
    if p.isPrefixOf cs then stripRepeatedWith p fuel (cs.drop p.length) else cs

/-- The characters left after every leading copy of `p`. -/
def stripRepeated (p cs : List Char) : List Char := stripRepeatedWith p cs.length cs

theorem length_stripRepeated_le (p cs : List Char) :
    (stripRepeated p cs).length ≤ cs.length := by
  suffices h : ∀ n cs, (stripRepeatedWith p n cs).length ≤ cs.length from h _ _
  intro n
  induction n with
  | zero => intro cs; exact Nat.le_refl _
  | succ n ih =>
    intro cs
    unfold stripRepeatedWith
    split
    · exact Nat.le_trans (ih _) (by simp)
    · exact Nat.le_refl _

/-- The characters before the trailing run of `c`. -/
def stripEnd (c : Char) (cs : List Char) : List Char := (cs.reverse.dropWhile (· == c)).reverse

/-- The characters between the leading and the trailing run of `c`. -/
def stripBoth (c : Char) (cs : List Char) : List Char := stripEnd c (cs.dropWhile (· == c))

/-! ### Occurrences -/

/-- `p` occurs somewhere in the list. -/
def occursIn (p : List Char) : List Char → Bool
  | [] => p.isEmpty
  | c :: cs => p.isPrefixOf (c :: cs) || occursIn p cs

theorem occursIn_iff (p s : List Char) :
    occursIn p s = true ↔ ∃ u v, s = u ++ p ++ v := by
  induction s with
  | nil => simp [occursIn]
  | cons c cs ih =>
    rw [occursIn, Bool.or_eq_true, List.isPrefixOf_iff_prefix, ih]
    constructor
    · rintro (⟨v, hv⟩ | ⟨u, v, hv⟩)
      · exact ⟨[], v, by simp [hv]⟩
      · exact ⟨c :: u, v, by simp [hv]⟩
    · rintro ⟨u, v, h⟩
      cases u with
      | nil => exact Or.inl ⟨v, by simpa using h.symm⟩
      | cons d u => exact Or.inr ⟨u, v, by simp at h; simp [h.2]⟩

/-- The list without the occurrences of `p`, read from the left and never overlapping; `skip`
characters of an occurrence are still to be dropped. -/
def removeAllFrom (p : List Char) : Nat → List Char → List Char
  | _, [] => []
  | skip + 1, _ :: cs => removeAllFrom p skip cs
  | 0, c :: cs =>
    if p.isPrefixOf (c :: cs) then removeAllFrom p (p.length - 1) cs
    else c :: removeAllFrom p 0 cs

/-- The list without the occurrences of the non-empty `p`. -/
def removeAll (p cs : List Char) : List Char := removeAllFrom p 0 cs

/-- The pieces of the list around the occurrences of `p`, read from the left. -/
def splitAroundFrom (p : List Char) : Nat → List Char → List (List Char)
  | _, [] => [[]]
  | skip + 1, _ :: cs => splitAroundFrom p skip cs
  | 0, c :: cs =>
    if p.isPrefixOf (c :: cs) then [] :: splitAroundFrom p (p.length - 1) cs
    else
      match splitAroundFrom p 0 cs with
      | [] => [[c]]
      | piece :: pieces => (c :: piece) :: pieces

/-- The pieces of the list around the occurrences of the non-empty `p`. -/
def splitAround (p cs : List Char) : List (List Char) := splitAroundFrom p 0 cs

/-! ### Pieces between separators -/

/-- The pieces of the text between the characters `c`; one piece more than there are separators. -/
def splitOn (s : String) (c : Char) : List String :=
  (s.toList.splitOn c).map String.ofList

/-- The piece after the last `c`, or the whole text. -/
def afterLast (s : String) (c : Char) : String :=
  String.ofList (s.toList.reverse.takeWhile (· != c)).reverse

/-- The text before the last `c`, when there is one. -/
def beforeLast? (s : String) (c : Char) : Option String :=
  if s.toList.contains c then
    some (String.ofList ((s.toList.reverse.dropWhile (· != c)).drop 1).reverse)
  else none

/-- The text with the upper-case letters `A` to `Z` replaced by lower-case ones. -/
def asciiLower (s : String) : String := s.map Char.toLower

/-- The text without its blank characters. -/
def withoutBlanks (s : String) : String := String.ofList (s.toList.filter fun c => !isBlank c)

end Crossref.Text
