import Crossref.Import
import Crossref.Tree.Node

/-!
# Kotlin: the head of a file

The package and the imports of a Kotlin file.
-/

namespace Crossref.Kotlin

/-- The package that the file declares. -/
def package? (top : Node) (source : String) : Option String :=
  ((top.childOfKind? "package_header").bind (·.childOfKind? "identifier")).map (·.text source)

/-- The import that a header writes; one without a path is none. -/
def importOf? (header : Node) (source : String) : Option Import :=
  (header.childOfKind? "identifier").map fun path =>
    { path := path.text source
      rename := (header.childOfKind? "import_alias").bind fun a =>
        (a.children.find? fun c => ["type_identifier", "simple_identifier"].contains c.kind).map
          (·.text source)
      star := header.hasChildOfKind "wildcard_import"
        || Text.endsWith (Text.trimEnd (header.text source)) ".*" }

/-- The imports of the file: those in import lists, then those that hang on the top node. -/
def imports (top : Node) (source : String) : List Import :=
  ((top.childrenOfKind "import_list").flatMap (·.childrenOfKind "import_header")
    ++ top.childrenOfKind "import_header").filterMap (importOf? · source)

end Crossref.Kotlin
