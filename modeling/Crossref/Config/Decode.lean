import Crossref.Config
import Crossref.Data
import Crossref.Text.Number

/-!
# Configuration: reading and writing values

A configuration as data.  Every field may be missing and then has its default; a field that is
there must have the right type, and no known field may be there twice.  Unknown fields do not
matter.

* `decode_empty`: a map without entries is the default configuration.
-/

namespace Crossref.Config

/-- What differs between the formats that configurations are written in. -/
structure Dialect where
  /-- A record may be written as the list of its first fields. -/
  recordsByPosition : Bool
  /-- Such a list may go on after the last field. -/
  surplusItems : Bool
  deriving DecidableEq, Inhabited

/-! ### Scalars -/

/-- The count in an unquoted scalar: an optional plus sign, then digits in base ten without needless
zeros, or digits in base sixteen, eight or two behind `0x`, `0o` or `0b`. -/
def plainCount? (s : String) : Option Nat :=
  let body := if s.toList.head? = some '+' then s.toList.drop 1 else s.toList
  let value :=
    match body with
    | '0' :: 'x' :: digits => Text.digitsValue? 16 digits
    | '0' :: 'o' :: digits => Text.digitsValue? 8 digits
    | '0' :: 'b' :: digits => Text.digitsValue? 2 digits
    | '0' :: _ :: _ => none
    | digits => Text.digitsValue? 10 digits
  value.filter (· < Text.countLimit)

def readBool : Data → Option Bool
  | .bool b => some b
  | .plain s =>
    if ["true", "True", "TRUE"].contains s then some true
    else if ["false", "False", "FALSE"].contains s then some false
    else none
  | _ => none

def readCount : Data → Option Nat
  | .int i => if 0 ≤ i ∧ i.toNat < Text.countLimit then some i.toNat else none
  | .plain s => plainCount? s
  | _ => none

def readText : Data → Option String
  | .text s => some s
  | .plain s => some s
  | _ => none

def readPath (d : Data) : Option Path := (readText d).map Path.mk

/-- A list of values of one type; nothing at all counts as an empty list. -/
def readList {α : Type} (read : Data → Option α) : Data → Option (List α)
  | .list items => items.mapM read
  | .plain "" => some []
  | _ => none

/-! ### Records -/

/-- The fields of a record by name; nothing at all counts as a record without fields. -/
def fieldsOf (dialect : Dialect) (names : List String) : Data → Option (List (String × Data))
  | .map entries =>
    let known := (entries.map Prod.fst).filter names.contains
    if known.eraseDups.length = known.length then some entries else none
  | .plain "" => some []
  | .list items =>
    if dialect.recordsByPosition ∧ (dialect.surplusItems ∨ items.length ≤ names.length) then
      some (names.zip items)
    else none
  | _ => none

/-- The field with a name, or its default. -/
def field {α : Type} (fields : List (String × Data)) (name : String) (default : α)
    (read : Data → Option α) : Option α :=
  match Data.find? fields name with
  | some d => read d
  | none => some default

def readCollector (dialect : Dialect) (d : Data) : Option Collector := do
  let fs ← fieldsOf dialect ["max_usages", "include_local_reads", "cancel_check_interval"] d
  let base : Collector := {}
  return {
    maxUsages := ← field fs "max_usages" base.maxUsages readCount
    includeLocalReads := ← field fs "include_local_reads" base.includeLocalReads readBool
    cancelCheckInterval := ← field fs "cancel_check_interval" base.cancelCheckInterval readCount }

def readAggregation (dialect : Dialect) (d : Data) : Option Aggregation := do
  let fs ← fieldsOf dialect ["project_only"] d
  let base : Aggregation := {}
  return { projectOnly := ← field fs "project_only" base.projectOnly readBool }

def readReport (dialect : Dialect) (d : Data) : Option Report := do
  let fs ← fieldsOf dialect ["format", "log_file", "echo"] d
  let base : Report := {}
  return {
    format := ← field fs "format" base.format readText
    logFile := ← field fs "log_file" base.logFile readPath
    echo := ← field fs "echo" base.echo readBool }

def readIndexing (dialect : Dialect) (d : Data) : Option Indexing := do
  let fs ← fieldsOf dialect ["wait_timeout_ms"] d
  let base : Indexing := {}
  return { waitTimeoutMs := ← field fs "wait_timeout_ms" base.waitTimeoutMs readCount }

/-- The fields of a configuration, in order. -/
def fieldNames : List String :=
  ["targets", "exclude", "library_roots", "library_source_roots", "generated_patterns",
   "collector", "aggregation", "report", "index"]

/-- The configuration that a value describes. -/
def decode (dialect : Dialect) (d : Data) : Option Config := do
  let fs ← fieldsOf dialect fieldNames d
  let base : Config := {}
  return {
    targets := ← field fs "targets" base.targets (readList readPath)
    exclude := ← field fs "exclude" base.exclude (readList readText)
    libraryRoots := ← field fs "library_roots" base.libraryRoots (readList readPath)
    librarySourceRoots :=
      ← field fs "library_source_roots" base.librarySourceRoots (readList readPath)
    generatedPatterns :=
      ← field fs "generated_patterns" base.generatedPatterns (readList readText)
    collector := ← field fs "collector" base.collector (readCollector dialect)
    aggregation := ← field fs "aggregation" base.aggregation (readAggregation dialect)
    report := ← field fs "report" base.report (readReport dialect)
    index := ← field fs "index" base.index (readIndexing dialect) }

theorem decode_empty (dialect : Dialect) : decode dialect (.map []) = some {} := rfl

/-! ### Writing -/

/-- All fields of a configuration as data. -/
def encode (c : Config) : Data :=
  .map
    [("targets", .list (c.targets.map fun p => .text p.text)),
     ("exclude", .list (c.exclude.map .text)),
     ("library_roots", .list (c.libraryRoots.map fun p => .text p.text)),
     ("library_source_roots", .list (c.librarySourceRoots.map fun p => .text p.text)),
     ("generated_patterns", .list (c.generatedPatterns.map .text)),
     ("collector", .map
       [("max_usages", .int c.collector.maxUsages),
        ("include_local_reads", .bool c.collector.includeLocalReads),
        ("cancel_check_interval", .int c.collector.cancelCheckInterval)]),
     ("aggregation", .map [("project_only", .bool c.aggregation.projectOnly)]),
     ("report", .map
       [("format", .text c.report.format),
        ("log_file", .text c.report.logFile.text),
        ("echo", .bool c.report.echo)]),
     ("index", .map [("wait_timeout_ms", .int c.index.waitTimeoutMs)])]

end Crossref.Config
