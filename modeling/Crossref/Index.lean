import Crossref.Java.Symbols
import Crossref.Kotlin.Symbols
import Crossref.Table

/-!
# The index

Every source file of a project together with the symbols they declare, and the tables by which
symbols are found.  A file's number is its place among the files; when two files have the same
path, or two symbols the same handle, the later one is found.

* `findByName_ofParts` and its companions: each table finds exactly the matching symbols, in the
  order of the symbols.
-/

namespace Crossref

/-- The symbols that a file declares. -/
def SourceFile.symbols (f : SourceFile) : List Symbol :=
  match f.language with
  | .kotlin => Kotlin.symbols f
  | .java => Java.symbols f

/-- The files of a project, their symbols, and the tables over both. -/
structure Index where
  files : List SourceFile
  symbols : List Symbol
  byHandle : Table Handle Symbol
  byDeclaration : Table DeclKey Symbol
  byQualifiedName : Table String Symbol
  byName : Table String Symbol
  byParent : Table Handle Symbol
  topLevelByFile : Table FileId Symbol
  byPath : Table (List Path.Component) SourceFile
  deriving Inhabited

namespace Index

/-- The file that a symbol without an enclosing classifier stands in. -/
def topLevelFile (s : Symbol) : Option FileId :=
  match s.parent with
  | none => some s.handle.file
  | some _ => none

/-- The index of the given files and symbols. -/
def ofParts (files : List SourceFile) (symbols : List Symbol) : Index where
  files := files
  symbols := symbols
  byHandle := .ofList (fun s => some s.handle) symbols
  byDeclaration := .ofList (fun s => some s.declaration) symbols
  byQualifiedName := .ofList Symbol.qualifiedName symbols
  byName := .ofList (fun s => some s.name) symbols
  byParent := .ofList Symbol.parent symbols
  topLevelByFile := .ofList topLevelFile symbols
  byPath := .ofList (fun f => some f.path.components) files

/-- The index without files. -/
def empty : Index := ofParts [] []

/-- The index of files that know their numbers. -/
def ofFiles (files : List SourceFile) : Index := ofParts files (files.flatMap SourceFile.symbols)

/-- The number that the next new file takes. -/
def nextFileId (i : Index) : FileId := i.files.length

/-- Puts a file in the place of the one with its number, or behind all of them; its symbols move
behind all others. -/
def replaceFile (i : Index) (f : SourceFile) : Index :=
  let others := i.symbols.filter fun s => s.handle.file != f.id
  let files := if f.id < i.files.length then i.files.set f.id f else i.files ++ [f]
  ofParts files (others ++ f.symbols)

/-! ### Looking up -/

/-- The file with the number. -/
def file? (i : Index) (id : FileId) : Option SourceFile := i.files[id]?

/-- The file that stands at the path, by components. -/
def fileForPath? (i : Index) (p : Path) : Option SourceFile :=
  ((i.byPath.find p.components).getLast?).bind fun f => i.file? f.id

/-- The symbol with the handle. -/
def symbol? (i : Index) (h : Handle) : Option Symbol := (i.byHandle.find h).getLast?

/-- The symbols that a declaration introduces. -/
def symbolsAt (i : Index) (k : DeclKey) : List Symbol := i.byDeclaration.find k

/-- The classifier that a declaration introduces. -/
def classifierAt? (i : Index) (k : DeclKey) : Option Symbol :=
  (i.symbolsAt k).find? (·.kind.isClassifier)

def findByQualifiedName (i : Index) (name : String) : List Symbol := i.byQualifiedName.find name

def findByName (i : Index) (name : String) : List Symbol := i.byName.find name

/-- The direct members of a classifier. -/
def membersOf (i : Index) (h : Handle) : List Symbol := i.byParent.find h

/-- The symbols of a file that have no enclosing classifier. -/
def topLevelIn (i : Index) (id : FileId) : List Symbol := i.topLevelByFile.find id

/-- The declaration with code that a compiled one stands for: of the same qualified name, kind and
number of parameters, in a file that is not compiled. -/
def sourceEquivalent? (i : Index) (s : Symbol) : Option Symbol :=
  s.qualifiedName.bind fun name =>
    (i.findByQualifiedName name).find? fun candidate =>
      candidate.kind = s.kind && candidate.parameterCount = s.parameterCount &&
        match i.file? candidate.handle.file with
        | some f => !f.compiled
        | none => false

/-- The declaration node of a symbol with its file; the top of the file when the node is not
found. -/
def anchor? (i : Index) (s : Symbol) : Option (SourceFile × Node) :=
  (i.file? s.handle.file).map fun f => (f, (f.nodeFor? s.declaration).getD f.top)

/-! ### What the tables find -/

theorem findByName_ofParts (files : List SourceFile) (symbols : List Symbol) (name : String) :
    (ofParts files symbols).findByName name = symbols.filter (·.name == name) := by
  simp [findByName, ofParts, Table.find_ofList]

theorem findByQualifiedName_ofParts (files : List SourceFile) (symbols : List Symbol)
    (name : String) :
    (ofParts files symbols).findByQualifiedName name
      = symbols.filter (·.qualifiedName == some name) := by
  simp [findByQualifiedName, ofParts, Table.find_ofList]

theorem symbolsAt_ofParts (files : List SourceFile) (symbols : List Symbol) (k : DeclKey) :
    (ofParts files symbols).symbolsAt k = symbols.filter (·.declaration == k) := by
  simp [symbolsAt, ofParts, Table.find_ofList]

theorem symbol?_ofParts (files : List SourceFile) (symbols : List Symbol) (h : Handle) :
    (ofParts files symbols).symbol? h = (symbols.filter (·.handle == h)).getLast? := by
  simp [symbol?, ofParts, Table.find_ofList]

theorem membersOf_ofParts (files : List SourceFile) (symbols : List Symbol) (h : Handle) :
    (ofParts files symbols).membersOf h = symbols.filter (·.parent == some h) := by
  simp [membersOf, ofParts, Table.find_ofList]

theorem topLevelIn_ofParts (files : List SourceFile) (symbols : List Symbol) (id : FileId) :
    (ofParts files symbols).topLevelIn id = symbols.filter (topLevelFile · == some id) := by
  simp [topLevelIn, ofParts, Table.find_ofList]

theorem fileForPath?_ofParts (files : List SourceFile) (symbols : List Symbol) (p : Path) :
    (ofParts files symbols).fileForPath? p =
      ((files.filter (·.path.components == p.components)).getLast?).bind fun f => files[f.id]? := by
  simp [fileForPath?, file?, ofParts, Table.find_ofList]

end Index

end Crossref
