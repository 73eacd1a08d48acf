import Crossref.Text.Basic

/-!
# Imports

One import of a source file: a path, with a star for all that lies below it, or with another name
to be used in the file.
-/

namespace Crossref

/-- An import directive. -/
structure Import where
  /-- The imported path, without the star. -/
  path : String
  /-- The name that the file uses instead. -/
  rename : Option String
  star : Bool
  deriving DecidableEq, Inhabited

namespace Import

/-- The name that the import brings into the file; a star brings none of its own. -/
def visibleName (i : Import) : Option String :=
  if i.star then none else some (i.rename.getD (Text.afterLast i.path '.'))

/-- The import as it is written after the keyword. -/
def render (i : Import) : String :=
  i.path ++ (if i.star then ".*" else "") ++
    (match i.rename with
      | some a => " as " ++ a
      | none => "")

end Import

end Crossref
