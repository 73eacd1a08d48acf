import Crossref.Glob
import Mathlib.Data.List.Infix

/-!
# Proofs — config — patterns that match anywhere

A pattern that begins with `**/` matches an absolute path wherever what follows the stars is found
in it: a directory as a whole, a name at the end, or what begins behind a slash.  So a path that is
written behind another one is matched when it is matched alone, or when what is found begins above
it.

* `isMatch_iff`: a match is found at some place.
* `isMatch_append`: a match begins in the part above or in the part below.
-/

namespace Crossref.Glob

/-! ### A match at a place -/

/-- What stands behind the only stars of a pattern. -/
def behind? (pattern : List Char) : Option (List Char) :=
  match Text.splitAround "**".toList pattern with
  | [_, behind] => some (behind.dropWhile (· == '/'))
  | _ => none

/-- What a pattern that begins with `**/` looks for stands at the beginning of the text: a whole
directory, or a name that ends the text or follows a slash. -/
def matchesHere (pattern text : List Char) : Bool :=
  if ends "/**".toList pattern then begins ('/' :: directoryName pattern ++ ['/']) text
  else (behind? pattern).any fun name => text == name || begins ('/' :: name) text

/-- It stands somewhere in `above`, or begins there and goes on in `below`. -/
def matchesAbove (pattern above below : List Char) : Bool :=
  above.tails.any fun rest => !rest.isEmpty && matchesHere pattern (rest ++ below)

/-- The pattern looks for a directory without a name, which every absolute path has. -/
def Unnamed (pattern : List Char) : Prop :=
  ends "/**".toList pattern = true ∧ directoryName pattern = []

theorem matchesAbove_iff {pattern above below : List Char} :
    matchesAbove pattern above below = true ↔
      ∃ rest, rest <:+ above ∧ rest ≠ [] ∧ matchesHere pattern (rest ++ below) = true := by
  simp [matchesAbove]

/-! ### Pieces of texts -/

theorem begins_iff {p text : List Char} : begins p text = true ↔ p <+: text :=
  List.isPrefixOf_iff_prefix

theorem ends_iff {p text : List Char} : ends p text = true ↔ p <:+ text :=
  List.isSuffixOf_iff_suffix

/-- What occurs in a text begins one of its ends. -/
theorem occursIn_iff_exists_suffix {p text : List Char} :
    Text.occursIn p text = true ↔ ∃ rest, rest <:+ text ∧ begins p rest = true := by
  rw [Text.occursIn_iff]
  constructor
  · rintro ⟨u, v, rfl⟩
    exact ⟨p ++ v, ⟨u, (List.append_assoc u p v).symm⟩, begins_iff.2 ⟨v, rfl⟩⟩
  · rintro ⟨rest, ⟨u, rfl⟩, hp⟩
    obtain ⟨v, rfl⟩ := begins_iff.1 hp
    exact ⟨u, v, (List.append_assoc u p v).symm⟩

/-- An end of a text in two parts is an end of the second, or begins in the first. -/
theorem suffix_append_iff {v above below : List Char} :
    v <:+ above ++ below ↔
      v <:+ below ∨ ∃ rest, rest <:+ above ∧ rest ≠ [] ∧ v = rest ++ below := by
  constructor
  · rintro ⟨u, hu⟩
    rcases List.append_eq_append_iff.1 hu with ⟨rest, rfl, rfl⟩ | ⟨w, -, rfl⟩
    · rcases rest.eq_nil_or_concat with rfl | h
      · exact .inl (List.suffix_refl _)
      · exact .inr ⟨rest, ⟨u, rfl⟩, by rintro rfl; simp at h, rfl⟩
    · exact .inl ⟨w, rfl⟩
  · rintro (h | ⟨rest, ⟨u, rfl⟩, -, rfl⟩)
    · exact List.suffix_append_of_suffix h
    · exact ⟨u, (List.append_assoc u rest below).symm⟩

/-- The directory of a pattern begins with no slash. -/
theorem head?_directoryName (pattern : List Char) : (directoryName pattern).head? ≠ some '/' := by
  intro h
  have hprefix : directoryName pattern <+: (Text.removeAll "/**".toList
      (Text.removeAll "**/".toList pattern)).dropWhile (· == '/') := by
    rw [directoryName, Text.stripBoth, Text.stripEnd, ← List.reverse_suffix, List.reverse_reverse]
    exact List.dropWhile_suffix _
  obtain ⟨rest, hrest⟩ := hprefix
  have hnot := List.head?_dropWhile_not (· == '/')
    (Text.removeAll "/**".toList (Text.removeAll "**/".toList pattern))
  rw [← hrest, List.head?_append, h] at hnot
  cases hnot

/-- An absolute path begins with no directory before its first slash. -/
theorem begins_concat_slash_iff {directory text : List Char} (hhead : directory.head? ≠ some '/')
    (habs : text.head? = some '/') : begins (directory ++ ['/']) text = true ↔ directory = [] := by
  rw [begins_iff]
  constructor
  · rintro ⟨rest, rfl⟩
    rcases directory with _ | ⟨c, cs⟩
    · rfl
    · exact absurd habs hhead
  · rintro rfl
    rcases text with _ | ⟨c, cs⟩
    · cases habs
    · obtain rfl := Option.some.inj habs
      exact ⟨cs, rfl⟩

/-- With nothing before the stars, what stands behind them ends the text or follows a slash. -/
theorem matchesAround_nil_iff {name text : List Char} :
    matchesAround [] name text = true ↔
      name <:+ text ∨ Text.occursIn ('/' :: name) text = true := by
  cases name with
  | nil => simp [matchesAround]
  | cons c cs => rw [matchesAround, Bool.or_eq_true, ends_iff]; simp

/-! ### Matching -/

section Anywhere

variable {pattern : List Char} (hpattern : begins "**/".toList pattern = true)
include hpattern

/-- What stands before the first stars is empty. -/
theorem splitAround_of_begins :
    ∃ pieces, Text.splitAround "**".toList pattern = [] :: pieces := by
  obtain ⟨rest, rfl⟩ := begins_iff.1 hpattern
  exact ⟨_, rfl⟩

/-- How a pattern that begins with `**/` matches an absolute path. -/
theorem isMatch_of_begins {text : List Char} (habs : text.head? = some '/') :
    isMatch pattern text =
      if ends "/**".toList pattern then holdsDirectory (directoryName pattern) text
      else (behind? pattern).any fun name => matchesAround [] name text := by
  obtain ⟨pieces, hpieces⟩ := splitAround_of_begins hpattern
  have hslash : pattern.contains '/' = true := by
    obtain ⟨rest, rfl⟩ := begins_iff.1 hpattern
    simp
  have hstars : Text.occursIn "**".toList pattern = true := by
    obtain ⟨rest, rfl⟩ := begins_iff.1 hpattern
    rfl
  have hne : (text == pattern) = false := by
    obtain ⟨rest, rfl⟩ := begins_iff.1 hpattern
    refine beq_eq_false_iff_ne.2 ?_
    rintro rfl
    cases habs
  rw [isMatch, behind?, hslash, hstars, hpattern, hpieces, hne]
  simp only [Bool.true_and, not_true, and_false, if_false, if_true]
  -- with one piece behind the stars, with none, and with several
  rcases pieces with _ | ⟨piece, _ | _⟩ <;> rfl

/-- **A match is found at some place** of an absolute path. -/
theorem isMatch_iff {text : List Char} (habs : text.head? = some '/') :
    isMatch pattern text = true ↔
      Unnamed pattern ∨ ∃ rest, rest <:+ text ∧ matchesHere pattern rest = true := by
  rw [isMatch_of_begins hpattern habs, Unnamed]
  unfold matchesHere
  cases hends : ends "/**".toList pattern with
  | true =>
      simp only [if_true, holdsDirectory, Bool.or_eq_true, occursIn_iff_exists_suffix,
        begins_concat_slash_iff (head?_directoryName pattern) habs, true_and]
      exact or_comm
  | false =>
      cases behind? pattern with
      | none => simp
      | some name =>
          simp only [if_false, Option.any_some, matchesAround_nil_iff, occursIn_iff_exists_suffix,
            Bool.or_eq_true, beq_iff_eq, Bool.false_eq_true, false_and, false_or]
          constructor
          · rintro (h | ⟨rest, hrest, h⟩)
            · exact ⟨name, h, .inl rfl⟩
            · exact ⟨rest, hrest, .inr h⟩
          · rintro ⟨rest, hrest, rfl | h⟩
            · exact .inl hrest
            · exact .inr ⟨rest, hrest, h⟩

/-- **A path that is written behind another one** is matched when it is matched alone, or when what
is found begins above it. -/
theorem isMatch_append {above below : List Char} (habove : (above ++ below).head? = some '/')
    (hbelow : below.head? = some '/') :
    isMatch pattern (above ++ below) =
      (isMatch pattern below || matchesAbove pattern above below) := by
  rw [Bool.eq_iff_iff, Bool.or_eq_true, isMatch_iff hpattern habove, isMatch_iff hpattern hbelow,
    matchesAbove_iff]
  constructor
  · rintro (h | ⟨v, hv, hhere⟩)
    · exact .inl (.inl h)
    · rcases suffix_append_iff.1 hv with hv | ⟨rest, hrest, hne, rfl⟩
      · exact .inl (.inr ⟨v, hv, hhere⟩)
      · exact .inr ⟨rest, hrest, hne, hhere⟩
  · rintro ((h | ⟨v, hv, hhere⟩) | ⟨rest, hrest, hne, hhere⟩)
    · exact .inl h
    · exact .inr ⟨v, suffix_append_iff.2 (.inl hv), hhere⟩
    · exact .inr ⟨_, suffix_append_iff.2 (.inr ⟨rest, hrest, hne, rfl⟩), hhere⟩

end Anywhere

end Crossref.Glob
