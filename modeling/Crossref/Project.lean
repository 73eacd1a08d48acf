import Crossref.Config
import Crossref.Index

/-!
# Projects

A project is a root, its settings, and an index with the state it is in.  Files of other languages
than Kotlin and Java never enter the index.

* `update_eq_error_iff`: an update fails exactly when the path has no language, and then nothing
  changes.
-/

namespace Crossref

/-- How far indexing has come. -/
inductive IndexState where
  | pending
  | indexing
  | ready
  | failed (reason : String)
  deriving DecidableEq, Inhabited

/-- A file as it is given to a project: its text and the tree of it. -/
structure ParsedText where
  path : Path
  text : String
  tree : Tree
  deriving Inhabited

/-- Why a file cannot be put into a project. -/
inductive UpdateError where
  | notASource (path : Path)
  deriving DecidableEq, Inhabited

def UpdateError.message : UpdateError → String
  | .notASource path => "Not a Kotlin or Java file: " ++ path.text

/-- A root with its settings and what is known of its files. -/
structure Project where
  root : Path
  config : Config
  index : Index
  state : IndexState
  deriving Inhabited

namespace Project

/-- A project of which no file has been read. -/
def pending (root : Path) (config : Config) : Project := ⟨root, config, .empty, .pending⟩

/-- The file of a project with the given number. -/
def sourceFile (root : Path) (config : Config) (id : FileId) (language : Language)
    (given : ParsedText) : SourceFile :=
  let (origin, compiled) := config.originOf root given.path language
  .ofTree id given.path given.text given.tree language origin compiled

/-- The files that are in a known language, with that language. -/
def recognized (files : List ParsedText) : List (ParsedText × Language) :=
  files.filterMap fun f => (Language.ofPath? f.path).map fun language => (f, language)

/-- The index of the given files, numbered in their order. -/
def indexOf (root : Path) (config : Config) (files : List ParsedText) : Index :=
  .ofFiles ((recognized files).zipIdx.map fun ((f, language), id) =>
    sourceFile root config id language f)

/-- The project with the given files, ready at once. -/
def ofSources (root : Path) (config : Config) (files : List ParsedText) : Project :=
  ⟨root, config, indexOf root config files, .ready⟩

def isReady (p : Project) : Bool := p.state = .ready

/-- Reads one file anew, in the place of the one at its path or behind all others. -/
def updateIndex (root : Path) (config : Config) (index : Index) (given : ParsedText) :
    Except UpdateError Index :=
  match Language.ofPath? given.path with
  | none => .error (.notASource given.path)
  | some language =>
    let id :=
      match index.fileForPath? given.path with
      | some f => f.id
      | none => index.nextFileId
    .ok (index.replaceFile (sourceFile root config id language given))

/-- The project with one file read anew. -/
def update (p : Project) (given : ParsedText) : Except UpdateError Project :=
  (updateIndex p.root p.config p.index given).map fun index => { p with index := index }

theorem update_eq_error_iff {p : Project} {given : ParsedText} :
    (∃ e, p.update given = .error e) ↔ Language.ofPath? given.path = none := by
  unfold update updateIndex
  cases h : Language.ofPath? given.path with
  | none => simp [Except.map]
  | some language => simp [Except.map]

end Project

end Crossref
