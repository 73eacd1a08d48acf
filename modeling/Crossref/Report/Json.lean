import Crossref.Data
import Crossref.Payload

/-!
# Reports as JSON

A payload as data, with its fields in a fixed order, and as a JSON document.  A warning is left out
when there is none; everything else is always there.
-/

namespace Crossref.Report.Json

def caretData (c : Slice.Caret) : Data :=
  .map [("offset", .int c.offset), ("line", .int c.line), ("column", .int c.column)]

def sliceData (s : Slice) : Data :=
  .map
    [("source_text", .text s.sourceText),
     ("file_path", .text s.filePath.text),
     ("caret", caretData s.caret),
     ("qualified_name", .ofText? s.qualifiedName),
     ("relative_qualified_name", .ofText? s.relativeQualifiedName),
     ("presentable_text", .ofText? s.presentableText),
     ("simple_name", .ofText? s.simpleName),
     ("declared_symbol_kind_tag", .text s.nodeKind),
     ("origin_kind", .text s.origin.label)]

def referencedData (r : Usage.Referenced) : Data :=
  .map
    [("slice", sliceData r.slice),
     ("usage_kinds", .list (r.usageKinds.map fun k => .text k.label))]

def targetData (t : Payload.Target) : Data :=
  .map
    [("package_directive", .ofText? t.packageDirective),
     ("imports", .list (t.imports.map .text)),
     ("slice", sliceData t.slice)]

/-- A payload as data. -/
def payloadData (p : Payload) : Data :=
  .map
    ([("target", (p.target.map targetData).getD .null),
      ("referenced_symbols", .list (p.referencedSymbols.map referencedData))]
     ++ match p.warning with
        | some w => [("warning", .text w)]
        | none => [])

/-- The report of a payload. -/
def render (p : Payload) : String := JsonText.pretty 0 (payloadData p) ++ "\n"

end Crossref.Report.Json
