import Crossref.Index

/-!
# Slices

A snapshot of one declaration: its text, where it stands, and its names.  A declaration of a file
that stands for a library without its code is shown from the library's code when that is indexed.

* `snapshot_caret_of_detached`: without a document the line and the column are not available.
-/

namespace Crossref

/-- The place of a declaration's first character: the characters before it, and its line and
column, counted from one; a number that is not available is -1. -/
structure Slice.Caret where
  offset : Int
  line : Int
  column : Int
  deriving DecidableEq, Inhabited

/-- Line and column are available. -/
def Slice.Caret.isAvailable (c : Slice.Caret) : Bool := 0 ≤ c.line && 0 ≤ c.column

/-- A snapshot of a declaration. -/
structure Slice where
  sourceText : String
  filePath : Path
  caret : Slice.Caret
  qualifiedName : Option String
  /-- The qualified name without the package of its file. -/
  relativeQualifiedName : Option String
  presentableText : Option String
  simpleName : Option String
  /-- The kind of the declaration's node. -/
  nodeKind : String
  origin : Origin
  deriving DecidableEq, Inhabited

/-- Why no slice can be made. -/
inductive SliceError where
  | missingFile (id : FileId)
  | missingDeclaration (key : DeclKey)
  deriving DecidableEq, Inhabited

def SliceError.message : SliceError → String
  | .missingFile id => "File " ++ FileId.render id ++ " is not in the index"
  | .missingDeclaration key => "No declaration node at " ++ key.render

namespace Slice

/-- A number that may be missing, with -1 for none. -/
def orMinusOne (n : Option Nat) : Int :=
  match n with
  | some k => Int.ofNat k
  | none => -1

/-- The snapshot of the declaration at a node. -/
def snapshot (f : SourceFile) (n : Node) (origin : Origin) : Slice :=
  let (start, stop) := SourceFile.spanOf f.language n
  let qualified := f.qualifiedName? n
  { sourceText := (Text.slice? f.text start stop).getD (f.textOf n)
    filePath := f.path
    caret :=
      { offset := orMinusOne (Text.charOffset? f.text start)
        line := orMinusOne ((f.lineColumn? start).map Prod.fst)
        column := orMinusOne ((f.lineColumn? start).map Prod.snd) }
    qualifiedName := qualified
    relativeQualifiedName := qualified.bind (QualifiedName.relativeTo? f.package)
    presentableText := f.presentableText? n
    simpleName := f.declarationName? n
    nodeKind := n.kind
    origin := origin }

theorem snapshot_caret_of_detached {f : SourceFile} {n : Node} {origin : Origin}
    (h : f.attached = false) : (snapshot f n origin).caret.isAvailable = false := by
  simp [snapshot, SourceFile.lineColumn?, h, orMinusOne, Caret.isAvailable]

/-- The declaration with code that stands for the compiled one at a node. -/
def sourceOf? (index : Index) (f : SourceFile) (n : Node) : Option (SourceFile × Node) := do
  let compiled ← (index.symbolsAt (f.keyOf n)).head?
  let source ← index.sourceEquivalent? compiled
  let sourceFile ← index.file? source.declaration.file
  let sourceNode ← sourceFile.nodeFor? source.declaration
  return (sourceFile, sourceNode)

/-- The slice of the declaration at a node. -/
def ofNode (index : Index) (f : SourceFile) (n : Node) (origin : Origin) : Slice :=
  if f.compiled then
    match sourceOf? index f n with
    | some (sourceFile, sourceNode) => snapshot sourceFile sourceNode origin
    | none => snapshot f n origin
  else snapshot f n origin

/-- The slice of the declaration of a symbol. -/
def ofSymbol (index : Index) (s : Symbol) : Except SliceError Slice :=
  match index.file? s.declaration.file with
  | none => .error (.missingFile s.declaration.file)
  | some f =>
    match f.nodeFor? s.declaration with
    | none => .error (.missingDeclaration s.declaration)
    | some n => .ok (ofNode index f n s.origin)

end Slice

end Crossref
