import Crossref.Text.Basic

/-!
# Kotlin: the name of a type

A type as written may carry a variance keyword, type arguments and marks of nullability around the
name that it is looked up by.
-/

namespace Crossref.Kotlin

/-- The name in a type as written: without the keywords `in` and `out` in front, without anything
from the first type argument list on, and without the marks `?` and `!` behind it. -/
def simpleTypeName (typeText : String) : String :=
  let bare := Text.trimChars
    (Text.stripRepeated "out ".toList
      (Text.stripRepeated "in ".toList (Text.trimChars typeText.toList)))
  let name := bare.takeWhile (· != '<')
  String.ofList (Text.trimChars (Text.stripEnd '!' (Text.stripEnd '?' name)))

end Crossref.Kotlin
