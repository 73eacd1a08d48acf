import Crossref.CommandLine.Arguments
import Crossref.Config.File
import Crossref.Indexing
import Crossref.Report.Log

/-!
# The command line

One use of the program: the settings are read, the project is indexed, the declaration at the caret
is looked at, and the report is logged and then printed.  What keeps a report from being made at all
is a failure; what only makes one pointless is a note.

* `run_failed`: a use that fails before the report changes no file and prints nothing.
-/

namespace Crossref.CommandLine

/-- Why a use of the program fails. -/
inductive Failure where
  | noRoot (path : Path)
  | config (e : ConfigError)
  | noFile (path : Path)
  | unreadable (path : Path)
  | outside (line column : Nat) (path : Path)
  | format (e : Report.FormatError)
  | log (e : Report.LogError)
  deriving DecidableEq, Inhabited

def Failure.message : Failure → String
  | .noRoot path => "Project root not found: " ++ path.text
  | .config e => e.message
  | .noFile path => "File not found: " ++ path.text
  | .unreadable path => "Failed to read " ++ path.text
  | .outside line column path =>
    toString line ++ ":" ++ toString column ++ " is outside " ++ path.text
  | .format e => e.message
  | .log e => e.message

/-- How a use of the program ends. -/
structure Outcome where
  code : Nat
  /-- What is printed as the answer. -/
  printed : String
  /-- What is said beside the answer. -/
  remark : String
  files : FileSystem
  /-- What was added, to its end, to which log. -/
  logged : Option (Path × String)
  deriving Inhabited

/-- An outcome without a report. -/
def Outcome.plain (code : Nat) (printed remark : String) (fs : FileSystem) : Outcome :=
  ⟨code, printed, remark, fs, none⟩

/-! ### Settings -/

/-- The configuration with what the arguments say instead. -/
def override (i : Invocation) (c : Config) : Config :=
  { c with
    collector :=
      { c.collector with
        maxUsages := i.maxUsages.getD c.collector.maxUsages
        includeLocalReads := c.collector.includeLocalReads || i.has .includeLocalReads }
    aggregation := { projectOnly := c.aggregation.projectOnly || i.has .projectOnly }
    report :=
      { c.report with
        format := i.format.getD c.report.format
        logFile := i.logFile.getD c.report.logFile } }

/-- The settings of a use below a root. -/
def settings (fs : FileSystem) (i : Invocation) (root : Path) : Except Failure Config :=
  let found :=
    match i.config with
    | some path => Config.ofFile fs path
    | none => Config.ofUsualFile fs root
  (found.map (override i)).mapError .config

/-- The characters before the caret in a file. -/
def caretOffset (fs : FileSystem) (caret : Caret) (file : Path) : Except Failure Nat :=
  match caret with
  | .offset n => .ok n
  | .position line column =>
    match fs.readText? file with
    | none => .error (.unreadable file)
    | some text =>
      match (Text.offsetOf? text line column).bind (Text.charOffset? text) with
      | some n => .ok n
      | none => .error (.outside line column file)

/-- Everything that is settled before the files are read. -/
structure Plan where
  root : Path
  config : Config
  file : Path
  offset : Nat
  format : Report.Format
  log : Option Path
  /-- The report is printed. -/
  echo : Bool
  /-- Notes are printed. -/
  notes : Bool
  deriving Inhabited

/-- The plan of a use. -/
def plan (fs : FileSystem) (i : Invocation) : Except Failure Plan := do
  let root ← (fs.canonical? i.root).elim (.error (.noRoot i.root)) .ok
  let config ← settings fs i root
  let file ← (fs.canonical? i.file).elim (.error (.noFile i.file)) .ok
  let offset ← caretOffset fs i.caret file
  let format ← (Report.Format.ofName? config.report.format).mapError .format
  return {
    root, config, file, offset, format
    log := if i.has .noLog then none else some (root.join config.report.logFile)
    echo := config.report.echo && !i.has .quiet
    notes := !i.has .quiet }

/-! ### Running -/

/-- What is said beside a report. -/
def summary (p : Payload) : String :=
  match p.warning with
  | some warning => warning
  | none =>
    ((p.target.bind fun t => t.slice.simpleName).getD "<anonymous>") ++ " references "
      ++ toString p.referencedSymbols.length ++ " symbols"

/-- The payload that a plan asks for. -/
def extract (fs : FileSystem) (parse : Path → String → Tree) (plan : Plan) :
    Except ExtractError Payload :=
  let files := Discovery.sources fs parse plan.config plan.root
  let project := (Project.pending plan.root plan.config).indexed files
  (Payload.extract project plan.file plan.offset (.ofConfig plan.config) (.fixed false) ()).1

/-- The outcome of a use that comes to a report: it is logged first. -/
def deliver (fs : FileSystem) (plan : Plan) (p : Payload) : Outcome :=
  match Report.emit fs plan.format plan.log p with
  | (fs, .error e) => .plain 1 "" (Failure.message (.log e) ++ "\n") fs
  | (fs, .ok report) =>
    { code := 0
      printed := if plan.echo then report else ""
      remark := if plan.notes then summary p ++ "\n" else ""
      files := fs
      logged := plan.log.map (·, Report.asLines report) }

/-- The outcome of a plan. -/
def execute (fs : FileSystem) (parse : Path → String → Tree) (plan : Plan) : Outcome :=
  match extract fs parse plan with
  | .ok p => deliver fs plan p
  | .error .cancelled => .plain 0 "" "" fs
  | .error e => .plain 0 (if plan.notes then e.message ++ "\n" else "") "" fs

/-- The outcome of one use. -/
def run (fs : FileSystem) (parse : Path → String → Tree) (i : Invocation) : Outcome :=
  match plan fs i with
  | .ok plan => execute fs parse plan
  | .error e => .plain 1 "" (e.message ++ "\n") fs

theorem run_failed {fs : FileSystem} {parse : Path → String → Tree} {i : Invocation} {e : Failure}
    (h : plan fs i = .error e) :
    (run fs parse i).code = 1 ∧ (run fs parse i).printed = "" ∧ (run fs parse i).files = fs := by
  simp [run, h, Outcome.plain]

/-- The version of the program. -/
def versionText : String := "symbolscope 0.1.0\n"

/-- How the program is used. -/
def helpText : String :=
  "Extract the semantic context of a Kotlin declaration\n\n" ++
  "Usage: symbolscope [OPTIONS] <--offset <N>|--line <N> --column <N>> <FILE>\n\n" ++
  "Options:\n" ++
  "      --offset <N>           Caret position, in characters from the start of the file\n" ++
  "      --line <N>             Caret line (1-based)\n" ++
  "      --column <N>           Caret column (1-based, in characters)\n" ++
  "      --root <DIR>           Project root (default: the current directory)\n" ++
  "  -c, --config <FILE>        Path to configuration file\n" ++
  "      --max-usages <N>       Stop collecting after this many usages\n" ++
  "      --project-only         Only report declarations written in the project\n" ++
  "      --include-local-reads  Keep reads of parameters and local variables\n" ++
  "  -f, --format <FORMAT>      Output format (text, json)\n" ++
  "      --log-file <FILE>      Append-only report log\n" ++
  "      --no-log               Do not append to the report log\n" ++
  "  -v, --verbose              Verbose output\n" ++
  "  -q, --quiet                Quiet mode - only log the report\n" ++
  "  -h, --help                 Print help\n" ++
  "  -V, --version              Print version\n"

/-- The outcome of the program with the given arguments. -/
def respond (fs : FileSystem) (parse : Path → String → Tree) (arguments : List String) : Outcome :=
  match read arguments with
  | .error e => .plain 2 "" ("error: " ++ e.message ++ "\n") fs
  | .ok .help => .plain 0 helpText "" fs
  | .ok .version => .plain 0 versionText "" fs
  | .ok (.report i) => run fs parse i

end Crossref.CommandLine
