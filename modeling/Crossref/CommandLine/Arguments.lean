import Crossref.Path
import Crossref.Text.Number

/-!
# Arguments

What the arguments of the command line ask for.  They are read from the left, and the first fault
ends the reading; help and the version are given where they are met.  An option takes one value,
behind `=`, in the same argument for a short name, or in the next argument, which must not look like
an option itself.  Behind `--` everything is the file.

* `read_nil`: without arguments there is no file to look at.
-/

namespace Crossref.CommandLine

/-- An option with a value. -/
inductive Valued where
  | offset
  | line
  | column
  | root
  | config
  | maxUsages
  | format
  | logFile
  deriving DecidableEq, Inhabited

/-- An option without a value. -/
inductive Flag where
  | projectOnly
  | includeLocalReads
  | noLog
  | verbose
  | quiet
  deriving DecidableEq, Inhabited

/-- What a name behind dashes stands for. -/
inductive Switch where
  | help
  | version
  | flag (f : Flag)
  | valued (v : Valued)
  deriving DecidableEq, Inhabited

namespace Switch

/-- The long names. -/
def longNames : List (String × Switch) :=
  [("offset", .valued .offset), ("line", .valued .line), ("column", .valued .column),
   ("root", .valued .root), ("config", .valued .config), ("max-usages", .valued .maxUsages),
   ("project-only", .flag .projectOnly), ("include-local-reads", .flag .includeLocalReads),
   ("format", .valued .format), ("log-file", .valued .logFile), ("no-log", .flag .noLog),
   ("verbose", .flag .verbose), ("quiet", .flag .quiet), ("help", .help), ("version", .version)]

/-- The short names. -/
def shortNames : List (Char × Switch) :=
  [('c', .valued .config), ('f', .valued .format), ('v', .flag .verbose), ('q', .flag .quiet),
   ('h', .help), ('V', .version)]

/-- The long name of an option. -/
def name (s : Switch) : String := ((longNames.find? fun e => e.2 == s).map Prod.fst).getD ""

end Switch

/-- Where the caret is. -/
inductive Caret where
  /-- By the characters before it. -/
  | offset (n : Nat)
  /-- By line and column, both counted from one. -/
  | position (line column : Nat)
  deriving DecidableEq, Inhabited

/-- One use of the command line. -/
structure Invocation where
  file : Path
  caret : Caret
  root : Path := ⟨"."⟩
  config : Option Path := none
  maxUsages : Option Nat := none
  format : Option String := none
  logFile : Option Path := none
  flags : List Flag := []
  deriving DecidableEq, Inhabited

def Invocation.has (i : Invocation) (f : Flag) : Bool := i.flags.contains f

/-- What is asked for. -/
inductive Request where
  | help
  | version
  | report (i : Invocation)
  deriving DecidableEq, Inhabited

/-- Why arguments are refused. -/
inductive UsageError where
  | unknown (argument : String)
  | noValue (option : String)
  | badValue (option value : String)
  | surplusValue (option : String)
  | repeated (option : String)
  | noFile
  | noCaret
  | twoCarets
  | halfPosition
  deriving DecidableEq, Inhabited

def UsageError.message : UsageError → String
  | .unknown argument => "unexpected argument '" ++ argument ++ "'"
  | .noValue option => "a value is required for '--" ++ option ++ "'"
  | .badValue option value => "invalid value '" ++ value ++ "' for '--" ++ option ++ "'"
  | .surplusValue option => "no value is allowed for '--" ++ option ++ "'"
  | .repeated option => "'--" ++ option ++ "' cannot be used multiple times"
  | .noFile => "a file is required"
  | .noCaret => "either '--offset' or '--line' with '--column' is required"
  | .twoCarets => "'--offset' cannot be used with '--line' or '--column'"
  | .halfPosition => "'--line' and '--column' need each other"

/-- What the arguments so far have given. -/
structure Draft where
  file : Option Path := none
  values : List (Valued × String) := []
  flags : List Flag := []
  deriving Inhabited

namespace Draft

/-- The value may stand for the option: counts are numbers, and paths are not empty. -/
def suits (v : Valued) (value : String) : Bool :=
  match v with
  | .format => true
  | .root => value != ""
  | .config => value != ""
  | .logFile => value != ""
  | _ => (Text.count? value).isSome

def value? (d : Draft) (v : Valued) : Option String := d.values.lookup v

def count? (d : Draft) (v : Valued) : Option Nat := (d.value? v).bind Text.count?

def path? (d : Draft) (v : Valued) : Option Path := (d.value? v).map Path.mk

/-- The draft with a value for an option that has none yet. -/
def give (d : Draft) (v : Valued) (value : String) : Except UsageError Draft :=
  if (d.value? v).isSome then .error (.repeated (Switch.valued v).name)
  else if suits v value then .ok { d with values := (v, value) :: d.values }
  else .error (.badValue (Switch.valued v).name value)

/-- The draft with a flag that is not up yet. -/
def raise (d : Draft) (f : Flag) : Except UsageError Draft :=
  if d.flags.contains f then .error (.repeated (Switch.flag f).name)
  else .ok { d with flags := f :: d.flags }

/-- The draft with its file. -/
def withFile (d : Draft) (argument : String) : Except UsageError Draft :=
  if d.file.isSome then .error (.unknown argument)
  else if argument = "" then .error (.badValue "file" argument)
  else .ok { d with file := some ⟨argument⟩ }

/-- The one caret that the options give. -/
def caret (d : Draft) : Except UsageError Caret :=
  match d.count? .offset, d.count? .line, d.count? .column with
  | some n, none, none => .ok (.offset n)
  | some _, _, _ => .error .twoCarets
  | none, some l, some c => .ok (.position l c)
  | none, none, none => .error .noCaret
  | none, _, _ => .error .halfPosition

/-- The use of the command line that a finished draft describes. -/
def finish (d : Draft) : Except UsageError Invocation := do
  let caret ← d.caret
  match d.file with
  | none => .error .noFile
  | some file =>
    return {
      file, caret
      root := (d.path? .root).getD ⟨"."⟩
      config := d.path? .config
      maxUsages := d.count? .maxUsages
      format := d.value? .format
      logFile := d.path? .logFile
      flags := d.flags }

end Draft

/-- An argument that is taken for an option. -/
def isOption (argument : String) : Bool :=
  Text.startsWith argument "-" && argument != "-"

/-- Where the reading of short names in one argument ends. -/
inductive ShortEnd where
  /-- At help or the version. -/
  | answer (r : Request)
  /-- With the argument. -/
  | done (d : Draft)
  /-- With the argument, at an option whose value is in the next one. -/
  | pending (d : Draft) (v : Valued)
  deriving Inhabited

/-- Reads the short names in an argument; the rest behind an option is its value. -/
def readShort (d : Draft) : List Char → Except UsageError ShortEnd
  | [] => .ok (.done d)
  | c :: cs =>
    match Switch.shortNames.lookup c with
    | none => .error (.unknown ("-" ++ String.singleton c))
    | some .help => .ok (.answer .help)
    | some .version => .ok (.answer .version)
    | some (.flag f) => do readShort (← d.raise f) cs
    | some (.valued v) =>
      if cs.isEmpty then .ok (.pending d v)
      else
        (d.give v (String.ofList (if cs.head? = some '=' then cs.drop 1 else cs))).map .done

/-- The name behind two dashes, and the value behind `=`. -/
def splitLong (argument : String) : String × Option String :=
  let body := argument.toList.drop 2
  let name := body.takeWhile (· != '=')
  (String.ofList name,
    if name.length < body.length then some (String.ofList (body.drop (name.length + 1))) else none)

/-- Reads the arguments behind a draft; with `onlyFile` they are no options. -/
def readFrom : Bool → Draft → List String → Except UsageError Request
  | _, d, [] => d.finish.map .report
  | true, d, argument :: rest => do readFrom true (← d.withFile argument) rest
  | false, d, argument :: rest =>
    if argument = "--" then readFrom true d rest
    else if Text.startsWith argument "--" then
      let (name, value) := splitLong argument
      match Switch.longNames.lookup name, value, rest with
      | none, _, _ => .error (.unknown argument)
      | some .help, none, _ => .ok .help
      | some .version, none, _ => .ok .version
      | some (.flag f), none, rest => do readFrom false (← d.raise f) rest
      | some (.valued v), some value, rest => do readFrom false (← d.give v value) rest
      | some (.valued v), none, value :: rest =>
        if isOption value then .error (.noValue name)
        else do readFrom false (← d.give v value) rest
      | some (.valued _), none, [] => .error (.noValue name)
      | some _, some _, _ => .error (.surplusValue name)
    else if isOption argument then
      match readShort d (argument.toList.drop 1), rest with
      | .error e, _ => .error e
      | .ok (.answer r), _ => .ok r
      | .ok (.done d), rest => readFrom false d rest
      | .ok (.pending d v), value :: rest =>
        if isOption value then .error (.noValue (Switch.valued v).name)
        else do readFrom false (← d.give v value) rest
      | .ok (.pending _ v), [] => .error (.noValue (Switch.valued v).name)
    else do readFrom false (← d.withFile argument) rest

/-- Reads the arguments. -/
def read (arguments : List String) : Except UsageError Request := readFrom false {} arguments

theorem read_nil : read [] = .error .noCaret := rfl

end Crossref.CommandLine
