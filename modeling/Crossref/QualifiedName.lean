import Crossref.Text.Basic

/-!
# Qualified names

A qualified name is a package and the names of the declarations around and at its end, joined by
dots.

* `relativeTo?_append`: the name below a package is what was joined to it.
-/

namespace Crossref.QualifiedName

/-- The package as the first parts of a qualified name; an empty package gives none. -/
def packageParts (package : Option String) : List String :=
  match package with
  | some p => if p = "" then [] else [p]
  | none => []

/-- The parts joined by dots; no parts make no name. -/
def ofParts? : List String → Option String
  | [] => none
  | parts => some (".".intercalate parts)

/-- The name without its package in front; a name that does not lie below the package has none. -/
def relativeTo? (package : Option String) (qualified : String) : Option String :=
  match packageParts package with
  | [] => some qualified
  | p :: _ =>
    match (Text.dropPrefix? qualified p).bind (Text.dropPrefix? · ".") with
    | some rest => if rest = "" then none else some rest
    | none => none

theorem dropPrefix?_append (p rest : String) : Text.dropPrefix? (p ++ rest) p = some rest := by
  simp [Text.dropPrefix?, Text.startsWith, String.toList_append]

theorem relativeTo?_append {p rest : String} (hp : p ≠ "") (hr : rest ≠ "") :
    relativeTo? (some p) (p ++ "." ++ rest) = some rest := by
  simp [relativeTo?, packageParts, hp, hr, dropPrefix?_append, String.append_assoc]

end Crossref.QualifiedName
