import Crossref.Import
import Crossref.Tree.Node

/-!
# Java: the head of a file

The package and the imports of a Java file.
-/

namespace Crossref.Java

/-- The first path written directly at the node. -/
def pathOf? (n : Node) (source : String) : Option String :=
  (n.children.find? fun c => ["scoped_identifier", "identifier"].contains c.kind).map
    (·.text source)

/-- The package that the file declares. -/
def package? (top : Node) (source : String) : Option String :=
  (top.childOfKind? "package_declaration").bind (pathOf? · source)

/-- The imports of the file; one without a path is none. -/
def imports (top : Node) (source : String) : List Import :=
  (top.childrenOfKind "import_declaration").filterMap fun n =>
    (pathOf? n source).map fun path =>
      { path := path, rename := none, star := n.hasChildOfKind "asterisk" }

end Crossref.Java
