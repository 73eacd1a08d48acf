import Crossref.CommandLine
import Crossref.Tree.Listing

/-!
# The program

Loads the files that a use of the command line may need, and carries out what comes of it.  The tree
of a source file is read from the listing beside it, in the file whose name has `.tree` behind it.
-/

namespace Crossref.Program

/-- The file system with the files at and below a place on the disk, each under its full path. -/
partial def load (disk : FileSystem) (path : String) : IO FileSystem := do
  let here ← IO.currentDir
  let place := here / path
  if ← place.isDir then
    let entries ← place.readDir
    let disk := (disk.makeDirectories ⟨place.toString⟩).1
    entries.foldlM (fun disk entry => load disk entry.path.toString) disk
  else if ← place.pathExists then
    let content ← IO.FS.readBinFile place
    return (disk.write ⟨place.toString⟩ content).getD disk
  else
    return disk

/-- The places on the disk that a use of the command line may read from. -/
def places : Except CommandLine.UsageError CommandLine.Request → List Path
  | .ok (.report i) => [i.root, i.file] ++ i.config.toList
  | _ => []

/-- The tree in the listing beside a source file. -/
def treeBeside (disk : FileSystem) (path : Path) (text : String) : Tree :=
  ((disk.readText? ⟨path.text ++ ".tree"⟩).bind Tree.ofListing?).getD (.blank (Text.size text))

/-- Adds a text to a log on the disk. -/
def appendText (path : Path) (text : String) : IO (Except Report.LogError Unit) := do
  let place := (← IO.currentDir) / path.text
  if let some directory := place.parent then
    if let .error _ ← (IO.FS.createDirAll directory).toBaseIO then
      return .error (.noDirectory (path.parent?.getD path))
  match ← (IO.FS.Handle.mk place .append).toBaseIO with
  | .error _ => return .error (.noFile path)
  | .ok handle =>
    match ← (handle.putStr text *> handle.flush).toBaseIO with
    | .error _ => return .error (.unwritten path)
    | .ok () => return .ok ()

/-- Carries out one use of the command line. -/
def respond (arguments : List String) : IO UInt32 := do
  let here ← IO.currentDir
  let names := (here.toString.splitOn "/").filter (· != "")
  let disk ← (places (CommandLine.read arguments)).foldlM (fun disk path => do
    if ← (here / path.text).pathExists then load disk (← IO.FS.realPath path.text).toString
    else return disk) (FileSystem.empty names)
  let outcome := CommandLine.respond disk (treeBeside disk) arguments
  let logged ← match outcome.logged with
    | some (path, text) => appendText path text
    | none => pure (.ok ())
  match logged with
  | .ok () =>
    (← IO.getStdout).putStr outcome.printed
    (← IO.getStderr).putStr outcome.remark
    return outcome.code.toUInt32
  | .error e =>
    (← IO.getStderr).putStr ((CommandLine.Failure.log e).message ++ "\n")
    return 1

end Crossref.Program

/-- The program. -/
def main (arguments : List String) : IO UInt32 := Crossref.Program.respond arguments
