import Crossref.Payload

/-!
# Reports as text

A payload as lines with fixed labels in a fixed order, between two delimiter lines.  A report is a
sequence of pieces each of which ends a line, so that reports can be written one after the other.

* `line_endsLine`, `source_endsLine`: every piece ends in a line feed.
-/

namespace Crossref.Report.Text

/-- The last line of every report. -/
def endDelimiter : String := "=== END SYMBOL CONTEXT ==="

/-- What stands where there is nothing to show. -/
def nothing : String := "<none>"

/-- A line of a report. -/
def line (s : String) : String := s ++ "\n"

/-- A source text, closed by a line feed of its own or one that is added. -/
def source (s : String) : String := if Text.endsWithChar s '\n' then s else s ++ "\n"

theorem line_endsLine (s : String) : (line s).toList.getLast? = some '\n' := by
  simp [line]

theorem source_endsLine (s : String) : (source s).toList.getLast? = some '\n' := by
  unfold source
  split
  · next h => simpa [Text.endsWithChar] using h
  · simp

/-- A label and what belongs to it. -/
def field (label value : String) : String := line (label ++ ": " ++ value)

/-- A label and what belongs to it, if anything does. -/
def optionalField (label : String) (value : Option String) : String :=
  field label (value.getD nothing)

/-- The pieces that show a slice. -/
def slicePieces (s : Slice) : List String :=
  [field "File" s.filePath.text,
   field "Caret" ("offset=" ++ toString s.caret.offset ++ " line=" ++ toString s.caret.line
     ++ " column=" ++ toString s.caret.column),
   optionalField "Qualified name" s.qualifiedName,
   optionalField "Relative name" s.relativeQualifiedName,
   optionalField "Presentable" s.presentableText,
   optionalField "Name" s.simpleName,
   field "Kind tag" s.nodeKind,
   field "Origin" s.origin.label,
   line "Source:",
   source s.sourceText]

/-- The pieces that show the imports of a file. -/
def importPieces (imports : List String) : List String :=
  match imports with
  | [] => [field "Imports" nothing]
  | _ => line "Imports:" :: imports.map fun i => line ("  " ++ i)

/-- The pieces that show the declaration that was looked at. -/
def targetPieces (t : Payload.Target) : List String :=
  [line "--- TARGET ---", optionalField "Package" t.packageDirective]
    ++ importPieces t.imports ++ slicePieces t.slice

/-- The pieces that show a declaration that is used, with its number. -/
def referencedPieces (number : Nat) (r : Usage.Referenced) : List String :=
  [line ("--- REFERENCED SYMBOL " ++ toString number ++ " ---"),
   field "Usage kinds" (", ".intercalate (r.usageKinds.map Usage.Kind.label))]
    ++ slicePieces r.slice

/-- The pieces of a report. -/
def pieces (p : Payload) : List String :=
  [line "=== SYMBOL CONTEXT ==="]
    ++ (match p.warning with
        | some w => [field "Warning" w]
        | none => [])
    ++ (match p.target with
        | some t => targetPieces t
        | none => [])
    ++ [field "Referenced symbols" (toString p.referencedSymbols.length)]
    ++ (p.referencedSymbols.zipIdx.flatMap fun (r, i) => referencedPieces (i + 1) r)
    ++ [line endDelimiter]

/-- The report of a payload. -/
def render (p : Payload) : String := String.join (pieces p)

end Crossref.Report.Text
