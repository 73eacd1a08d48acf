import Crossref.Text.Basic

/-!
# Globs

Patterns over paths as text.  A pattern without a slash matches the end or the beginning of the
text; `**/D/**` matches the directory `D` anywhere; a pattern with one `**` matches by what stands
before and behind it; any other pattern matches itself alone.

* `isMatch_of_no_star`: a pattern without a star matches itself alone.
-/

namespace Crossref.Glob

/-- The list begins with `p`. -/
def begins (p text : List Char) : Bool := p.isPrefixOf text

/-- The list ends with `p`. -/
def ends (p text : List Char) : Bool := p.isSuffixOf text

/-- The directory between the stars of `**/D/**`, without slashes around it. -/
def directoryName (pattern : List Char) : List Char :=
  Text.stripBoth '/'
    (Text.removeAll "/**".toList (Text.removeAll "**/".toList pattern))

/-- The text holds the directory as a whole, and something below it. -/
def holdsDirectory (directory text : List Char) : Bool :=
  Text.occursIn ('/' :: directory ++ ['/']) text || begins (directory ++ ['/']) text

/-- Matching by what stands before and behind the only `**`. -/
def matchesAround (before behind text : List Char) : Bool :=
  let behindSlash := ends behind text || Text.occursIn ('/' :: behind) text
  match before, behind with
  | [], [] => true
  | [], _ => behindSlash
  | _, [] => begins before text || Text.occursIn (before ++ ['/']) text
  | _, _ => (begins before text || Text.occursIn ('/' :: before ++ ['/']) text) && behindSlash

/-- The pattern matches the text. -/
def isMatch (pattern text : List Char) : Bool :=
  let hasSlash := pattern.contains '/'
  if pattern.head? = some '*' ∧ ¬ hasSlash then ends (pattern.drop 1) text
  else if pattern.getLast? = some '*' ∧ ¬ hasSlash then begins pattern.dropLast text
  else if Text.occursIn "**".toList pattern then
    if begins "**/".toList pattern && ends "/**".toList pattern then
      holdsDirectory (directoryName pattern) text
    else
      match Text.splitAround "**".toList pattern with
      | [before, behind] =>
        matchesAround (Text.stripEnd '/' before) (behind.dropWhile (· == '/')) text
      | _ => text == pattern
  else text == pattern

theorem isMatch_of_no_star {pattern text : List Char} (h : '*' ∉ pattern) :
    isMatch pattern text = true ↔ text = pattern := by
  have h₁ : pattern.head? ≠ some '*' := fun e => h (List.mem_of_head? e)
  have h₂ : pattern.getLast? ≠ some '*' := fun e => h (List.mem_of_getLast? e)
  have h₃ : Text.occursIn ['*', '*'] pattern = false := by
    rw [Bool.eq_false_iff]
    intro e
    obtain ⟨u, v, rfl⟩ := (Text.occursIn_iff _ _).1 e
    exact h (by simp)
  simp [isMatch, h₁, h₂, h₃]

/-- One of the patterns matches the text. -/
def anyMatch (patterns : List String) (text : String) : Bool :=
  patterns.any fun p => isMatch p.toList text.toList

end Crossref.Glob
