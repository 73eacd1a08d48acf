import Crossref.Config
import Crossref.FileSystem
import Crossref.Project

/-!
# Discovery

The source files of a project: those at or below its targets, or its root when it has none, and
those of its libraries.  Names that start with a dot are left out below a target, and so are paths
that an exclusion pattern matches as they were found.

* `mem_scanAll_of_mem_find`: sorting and leaving out repetitions adds nothing.
* `extension_of_mem_find`: every file that is found is in a known language.
-/

namespace Crossref.Discovery

/-- A source file that was found, under the path it was found at. -/
structure Found where
  path : Path
  language : Language
  deriving DecidableEq, Inhabited

/-- Where files are looked for. -/
def targets (config : Config) (root : Path) : List Path :=
  (if config.targets = [] then [root] else config.targets.map root.join)
    ++ config.libraryDirs root

/-- The paths of the files at or below a target, each written behind the target. -/
def pathsAt (fs : FileSystem) (target : Path) : List Path :=
  match fs.entry? target with
  | some e => e.visible.map fun names => names.foldl (fun p name => p.join ⟨name⟩) target
  | none => []

/-- A path that is a source file and not left out. -/
def accept? (config : Config) (p : Path) : Option Found :=
  if config.shouldExclude p then none else (Language.ofPath? p).map (⟨p, ·⟩)

/-- The source files at or below a target. -/
def scan (fs : FileSystem) (config : Config) (target : Path) : List Found :=
  (pathsAt fs target).filterMap (accept? config)

/-- All source files, in the order in which they are met. -/
def scanAll (fs : FileSystem) (config : Config) (root : Path) : List Found :=
  (targets config root).flatMap (scan fs config)

/-- The first of every run of files with the same path. -/
def firsts : List Found → List Found
  | [] => []
  | f :: fs => f :: (firsts fs).dropWhile fun g => f.path.compare g.path == .eq

/-- One path does not come after another. -/
def inOrder (f g : Found) : Bool := f.path.compare g.path != .gt

/-- The source files of a project in the order of their paths; of several spellings of a path the
one that was met first stands. -/
def find (fs : FileSystem) (config : Config) (root : Path) : List Found :=
  firsts ((scanAll fs config root).mergeSort inOrder)

/-- The files that are found with their texts; a file without a text is left out. -/
def texts (fs : FileSystem) (found : List Found) : List (Path × String) :=
  found.filterMap fun f => (fs.readText? f.path).map (f.path, ·)

/-- The files of a project as they are read from a file system, with their trees. -/
def sources (fs : FileSystem) (parse : Path → String → Tree) (config : Config) (root : Path) :
    List ParsedText :=
  (texts fs (find fs config root)).map fun (path, text) => ⟨path, text, parse path text⟩

theorem mem_firsts {f : Found} {l : List Found} (h : f ∈ firsts l) : f ∈ l := by
  induction l with
  | nil => cases h
  | cons g l ih =>
    rcases List.mem_cons.1 h with rfl | h
    · exact List.mem_cons_self
    · exact List.mem_cons_of_mem _ (ih ((List.dropWhile_sublist _).subset h))

theorem mem_scanAll_of_mem_find {fs : FileSystem} {config : Config} {root : Path} {f : Found}
    (h : f ∈ find fs config root) : f ∈ scanAll fs config root :=
  List.mem_mergeSort.1 (mem_firsts h)

theorem extension_of_mem_find {fs : FileSystem} {config : Config} {root : Path} {f : Found}
    (h : f ∈ find fs config root) : Language.ofPath? f.path = some f.language := by
  obtain ⟨t, _, ht⟩ := List.mem_flatMap.1 (mem_scanAll_of_mem_find h)
  obtain ⟨p, _, hp⟩ := List.mem_filterMap.1 ht
  unfold accept? at hp
  split at hp
  · cases hp
  · obtain ⟨l, hl, rfl⟩ := Option.map_eq_some_iff.1 hp
    exact hl

end Crossref.Discovery
