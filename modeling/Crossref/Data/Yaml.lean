import Crossref.Data
import Crossref.Data.Yaml.Node

/-!
# YAML

Reads a document: its characters get their places, the places become tokens, the tokens a tree, and
the tree a value.  Plain scalars keep their text, as their type depends on where they stand.

* `read_empty`: a document without content has an empty value.
-/

namespace Crossref.Yaml

/-- The value of a text that holds one document.  References are followed twice, as deep as a
setting can stand behind them: a list or a section may be a reference, and so may what is in it. -/
def read (text : String) : Option Data := do
  let root ← Node.root? (← tokens? (← placed? text))
  return ((root.follow root.find?).follow root.find?).data

theorem read_empty : read "" = some (.plain "") := by rfl

end Crossref.Yaml
