import Crossref.Glob
import Crossref.Symbol

/-!
# Configuration

What a project may set: where its files and libraries are, what to leave out, which paths hold
generated code, and the limits of a run.  The origin of a file follows from its path.
-/

namespace Crossref

/-- How usages are collected. -/
structure Config.Collector where
  /-- No more usages than this are recorded. -/
  maxUsages : Nat := 1000
  /-- Reads of parameters and local variables are kept. -/
  includeLocalReads : Bool := false
  /-- Cancellation is looked for at every visit with a number that this divides. -/
  cancelCheckInterval : Nat := 64
  deriving DecidableEq, Inhabited

/-- How usages are put together. -/
structure Config.Aggregation where
  /-- Only declarations written in the project are reported. -/
  projectOnly : Bool := false
  deriving DecidableEq, Inhabited

/-- Where and how reports are written. -/
structure Config.Report where
  format : String := "text"
  logFile : Path := ⟨".symbolscope/symbol-context.log"⟩
  /-- The report is printed, too. -/
  echo : Bool := true
  deriving DecidableEq, Inhabited

/-- How long indexing may take. -/
structure Config.Indexing where
  waitTimeoutMs : Nat := 30000
  deriving DecidableEq, Inhabited

/-- The settings of a project. -/
structure Config where
  /-- The directories to look for files in, seen from the root; none means the whole root. -/
  targets : List Path := []
  /-- Patterns of paths to leave out. -/
  exclude : List String := ["**/build/**", "**/.gradle/**", "**/.idea/**"]
  /-- Libraries without their code. -/
  libraryRoots : List Path := []
  /-- The code of libraries. -/
  librarySourceRoots : List Path := []
  /-- Patterns of paths that hold generated code. -/
  generatedPatterns : List String := ["**/generated/**"]
  collector : Config.Collector := {}
  aggregation : Config.Aggregation := {}
  report : Config.Report := {}
  index : Config.Indexing := {}
  deriving DecidableEq

namespace Config

instance : Inhabited Config := ⟨{}⟩

def shouldExclude (c : Config) (p : Path) : Bool := Glob.anyMatch c.exclude p.text

def isGenerated (c : Config) (p : Path) : Bool := Glob.anyMatch c.generatedPatterns p.text

/-- The path lies under one of the directories, each seen from the root. -/
def isUnder (directories : List Path) (root p : Path) : Bool :=
  directories.any fun d => p.isUnder (root.join d)

/-- The directories of all libraries, seen from the root. -/
def libraryDirs (c : Config) (root : Path) : List Path :=
  (c.libraryRoots ++ c.librarySourceRoots).map root.join

/-- The origin of a file, and whether it stands for a library without its code. -/
def originOf (c : Config) (root p : Path) (language : Language) : Origin × Bool :=
  let outside :=
    match language with
    | .kotlin => .library
    | .java => .javaLibrary
  if isUnder c.libraryRoots root p then (outside, true)
  else if isUnder c.librarySourceRoots root p then (outside, false)
  else if c.isGenerated p then (.sourceGenerated, false)
  else
    match language with
    | .kotlin => (.source, false)
    | .java => (.javaSource, false)

end Config

end Crossref
