import Crossref.Discovery

/-!
# Indexing

Reading a project's files into its index, at once or in the background.  In the background it goes
in stages: the files are read, the index that they make is published, and the project is ready.
Between two stages single files may be updated; every list of events is one interleaving.

* `project_runAll`: with nothing in between, the stages end where indexing at once ends.
-/

namespace Crossref

/-- The project with an index of its files. -/
def Project.indexed (p : Project) (files : List ParsedText) : Project :=
  { p with index := Project.indexOf p.root p.config files, state := .ready }

/-- How far a run in the background has come. -/
inductive Indexing.Stage where
  | begun
  | collected (index : Index)
  | published
  | finished
  deriving Inhabited

/-- A project that is indexed in the background. -/
structure Indexing where
  project : Project
  stage : Indexing.Stage
  deriving Inhabited

namespace Indexing

/-- What may happen next: the run goes on by one stage, or a file is updated. -/
inductive Event where
  | advance
  | update (given : ParsedText)
  deriving Inhabited

/-- The project is being indexed, and nothing has been read yet. -/
def begin (p : Project) : Indexing := ⟨{ p with state := .indexing }, .begun⟩

/-- The run goes on by one stage; `files` are those on the disk. -/
def advance (files : List ParsedText) (run : Indexing) : Indexing :=
  let p := run.project
  match run.stage with
  | .begun =>
    ⟨{ p with state := .indexing }, .collected (Project.indexOf p.root p.config files)⟩
  | .collected index => ⟨{ p with index := index }, .published⟩
  | .published => ⟨{ p with state := .ready }, .finished⟩
  | .finished => run

/-- The project after an update, or the same one where the update fails. -/
def update (given : ParsedText) (run : Indexing) : Indexing :=
  match run.project.update given with
  | .ok p => { run with project := p }
  | .error _ => run

def step (files : List ParsedText) (run : Indexing) : Event → Indexing
  | .advance => run.advance files
  | .update given => run.update given

/-- What a list of events leads to. -/
def runAll (files : List ParsedText) (run : Indexing) (events : List Event) : Indexing :=
  events.foldl (step files) run

/-- A whole run without updates. -/
def undisturbed : List Event := [.advance, .advance, .advance]

theorem project_runAll (files : List ParsedText) (p : Project) :
    (runAll files (begin p) undisturbed).project = p.indexed files := rfl

end Indexing

end Crossref
