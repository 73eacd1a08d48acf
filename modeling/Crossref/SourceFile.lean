import Crossref.Java.Declaration
import Crossref.Java.Header
import Crossref.Kotlin.Declaration
import Crossref.Kotlin.Header
import Crossref.Symbol

/-!
# Source files

A source file with its tree, its number in an index, and what its head says.  Declarations are
addressed by keys: `keyOf` gives the key of a node, `nodeFor?` finds a node with a given key.

* `keyOf_of_nodeFor?`: a node that was found by a key has that key.
-/

namespace Crossref

/-- A file of a project, read and taken apart. -/
structure SourceFile where
  id : FileId
  path : Path
  text : String
  tree : Tree
  language : Language
  package : Option String
  imports : List Import
  /-- The origin of everything declared in the file. -/
  origin : Origin
  /-- The file stands for a library without its code; its declarations are shown from a source
  file when there is one. -/
  compiled : Bool
  /-- The file has a document behind it, so that its positions have lines and columns. -/
  attached : Bool
  deriving Inhabited

namespace SourceFile

/-- The file with the given text and tree. -/
def ofTree (id : FileId) (path : Path) (text : String) (tree : Tree) (language : Language)
    (origin : Origin) (compiled : Bool) : SourceFile where
  id := id
  path := path
  text := text
  tree := tree
  language := language
  package :=
    match language with
    | .kotlin => Kotlin.package? (Node.ofTree tree) text
    | .java => Java.package? (Node.ofTree tree) text
  imports :=
    match language with
    | .kotlin => Kotlin.imports (Node.ofTree tree) text
    | .java => Java.imports (Node.ofTree tree) text
  origin := origin
  compiled := compiled
  attached := true

/-- The file without its document. -/
def detached (f : SourceFile) : SourceFile := { f with attached := false }

/-- The topmost node. -/
def top (f : SourceFile) : Node := Node.ofTree f.tree

def textOf (f : SourceFile) (n : Node) : String := n.text f.text

/-- Line and column of a byte; a file without a document has none. -/
def lineColumn? (f : SourceFile) (b : Nat) : Option (Nat × Nat) :=
  if f.attached then Text.lineColumn? f.text b else none

def offsetOf? (f : SourceFile) (line column : Nat) : Option Nat :=
  Text.offsetOf? f.text line column

/-! ### Declarations and their keys -/

/-- The bytes that belong to a declaration. -/
def spanOf (language : Language) (n : Node) : Nat × Nat :=
  match language with
  | .kotlin => (n.start, Kotlin.spanStop n)
  | .java => (n.start, n.stop)

/-- The key of the declaration at a node. -/
def keyOf (f : SourceFile) (n : Node) : DeclKey :=
  ⟨f.id, (spanOf f.language n).1, (spanOf f.language n).2⟩

/-- The node of a declaration: the first with the key's span on the way from the node at the key's
first byte up, as long as the nodes start no earlier. -/
def nodeFor? (f : SourceFile) (k : DeclKey) : Option Node :=
  if k.file ≠ f.id ∨ Text.size f.text < k.stop then none
  else
    let low := f.top.atByte k.start
    ((low :: low.ancestors).takeWhile fun n => k.start ≤ n.start).find? fun n =>
      spanOf f.language n = (k.start, k.stop)

theorem keyOf_of_nodeFor? {f : SourceFile} {k : DeclKey} {n : Node}
    (h : f.nodeFor? k = some n) : f.keyOf n = k := by
  unfold nodeFor? at h
  split at h
  · cases h
  · next hk =>
    have hs := List.find?_some h
    simp only [decide_eq_true_eq] at hs
    have hf : k.file = f.id := Classical.byContradiction fun e => hk (Or.inl e)
    simp [keyOf, hs, ← hf]

/-- The name that a declaration introduces. -/
def declarationName? (f : SourceFile) (n : Node) : Option String :=
  match f.language with
  | .kotlin => Kotlin.declarationName? n f.text
  | .java => Java.declarationName? n f.text

def qualifiedName? (f : SourceFile) (n : Node) : Option String :=
  match f.language with
  | .kotlin => Kotlin.qualifiedName? f.package n f.text
  | .java => Java.qualifiedName? f.package n f.text

/-- The label that a declaration is shown with. -/
def presentableText? (f : SourceFile) (n : Node) : Option String :=
  match f.language with
  | .kotlin => Kotlin.presentableText? n f.text
  | .java => Java.presentableText? n f.text

/-- The innermost declaration around byte `b` that a caret can select. -/
def declarationAt? (f : SourceFile) (b : Nat) : Option Node :=
  if Text.size f.text < b then none
  else
    let low := f.top.atByte b
    (low :: low.ancestors).find? (Kotlin.isCaretDeclaration · f.text)

end SourceFile

end Crossref
