import Crossref.FileSystem
import Crossref.Report.Format

/-!
# The report log

A file to whose end reports are added, each as whole lines.  The directories above it are made when
they are missing.

* `emit_eq_ok`: a report that was emitted is the one that the payload renders to.
* `emit_without_log`: without a log no file changes.
-/

namespace Crossref.Report

/-- Why a text cannot be added to a log.  When the log is opened but not written to the end, the
front of the text may stand in it. -/
inductive LogError where
  | noDirectory (path : Path)
  | noFile (path : Path)
  | unwritten (path : Path)
  deriving DecidableEq, Inhabited

def LogError.message : LogError → String
  | .noDirectory path => "Failed to create log directory " ++ path.text
  | .noFile path => "Failed to open log file " ++ path.text
  | .unwritten path => "Failed to write log file " ++ path.text

/-- The text with a line feed at its end. -/
def asLines (text : String) : String :=
  if Text.endsWithChar text '\n' then text else text ++ "\n"

/-- Adds a text to the log at a path.  The directories above the log stay even when it cannot be
opened, and what was written stays even when the rest could not be. -/
def appendLog (fs : FileSystem) (path : Path) (text : String) :
    FileSystem × Except LogError Unit :=
  match fs.makeParent path with
  | (fs, false) => (fs, .error (.noDirectory (path.parent?.getD path)))
  | (fs, true) =>
    match fs.append path (asLines text) with
    | some (fs, true) => (fs, .ok ())
    | some (fs, false) => (fs, .error (.unwritten path))
    | none => (fs, .error (.noFile path))

/-- The report of a payload, once it stands in the log, if there is one. -/
def emit (fs : FileSystem) (format : Format) (log : Option Path) (p : Payload) :
    FileSystem × Except LogError String :=
  match log with
  | none => (fs, .ok (render format p))
  | some path =>
    match appendLog fs path (render format p) with
    | (fs, .ok ()) => (fs, .ok (render format p))
    | (fs, .error e) => (fs, .error e)

theorem emit_without_log (fs : FileSystem) (format : Format) (p : Payload) :
    emit fs format none p = (fs, .ok (render format p)) := rfl

theorem emit_eq_ok {fs fs' : FileSystem} {format : Format} {log : Option Path} {p : Payload}
    {s : String} (h : emit fs format log p = (fs', .ok s)) : s = render format p := by
  unfold emit at h
  split at h
  · cases h; rfl
  · split at h
    · cases h; rfl
    · cases h

end Crossref.Report
