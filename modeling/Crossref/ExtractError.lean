import Crossref.Path

/-!
# Why an extraction ends without a payload
-/

namespace Crossref

/-- The reasons for which an extraction ends without a payload. -/
inductive ExtractError where
  | cancelled
  | noDeclarationAtCaret
  | unsupportedLanguage (path : Path)
  | fileNotIndexed (path : Path)
  /-- Both numbers count characters. -/
  | caretOutOfRange (offset length : Nat)
  deriving DecidableEq, Inhabited

namespace ExtractError

def message : ExtractError → String
  | .cancelled => "Symbol context extraction was cancelled"
  | .noDeclarationAtCaret => "No declaration at the caret"
  | .unsupportedLanguage path => "Not a Kotlin file: " ++ path.text
  | .fileNotIndexed path => "File is not part of the indexed project: " ++ path.text
  | .caretOutOfRange offset length =>
    "Caret offset " ++ toString offset ++ " is past the end of the file (" ++ toString length
      ++ " characters)"

end ExtractError

end Crossref
