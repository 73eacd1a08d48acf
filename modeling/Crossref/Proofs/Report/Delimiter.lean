import Crossref.Proofs.CommandLine.Logged
import Crossref.Proofs.Text.Blocks
import Mathlib.Data.List.Enum

/-!
# Proofs — report — the reports of a log

A log holds one report behind the other with nothing between them, and every report as text ends in
the same line.  All other lines of a report open with a label, those of its source texts apart,
which stand in it as they are.  So a log can be cut into its reports exactly when no source text
holds a line that reads as the last line of a report.

* `content?_of_emitAll?`: what a log holds behind its earlier bytes are the reports.
* `Text.delimits_body_iff`: only a source text can hold the last line of a report.
* `log_apart_iff`: when a log can be taken apart again.
-/

namespace Crossref

/-! ### The texts of a payload -/

/-- The texts of a slice that a report shows behind a label, in one line each. -/
def Slice.lineTexts (s : Slice) : List String :=
  [s.filePath.text, s.nodeKind] ++ s.qualifiedName.toList ++ s.relativeQualifiedName.toList
    ++ s.presentableText.toList ++ s.simpleName.toList

def Payload.Target.lineTexts (t : Payload.Target) : List String :=
  t.packageDirective.toList ++ t.imports ++ t.slice.lineTexts

/-- The texts of a payload that a report shows behind a label, in one line each. -/
def Payload.lineTexts (p : Payload) : List String :=
  p.warning.toList ++ p.target.toList.flatMap Payload.Target.lineTexts
    ++ p.referencedSymbols.flatMap fun r => r.slice.lineTexts

/-- The source texts of a payload, in the order in which a report shows them. -/
def Payload.sourceTexts (p : Payload) : List String :=
  p.target.toList.map (fun t => t.slice.sourceText)
    ++ p.referencedSymbols.map fun r => r.slice.sourceText

namespace Report

namespace Text

/-! ### Lines that read as the last one -/

/-- The piece has a line that reads as the last line of a report. -/
def Delimits (piece : String) : Prop := endDelimiter.toList ∈ Text.endedLines piece

/-- The text can open a line of a report, and the last line begins with another character. -/
def Opens (s : String) : Prop := s ≠ "" ∧ s.toList.head? ≠ some '=' ∧ '\n' ∉ s.toList

instance : DecidablePred Opens := fun _ => inferInstanceAs (Decidable (_ ∧ _ ∧ _))

variable {label value rest s : String}

/-- A line of its own is read as one line. -/
theorem endedLines_line (hs : '\n' ∉ s.toList) : Text.endedLines (line s) = [s.toList] := by
  rw [← Text.endedLines_ofList hs, String.ofList_append, String.ofList_toList]
  rfl

/-- A line reads as the last one only when it is the last one. -/
theorem not_delimits_line (hs : '\n' ∉ s.toList) (hne : s ≠ endDelimiter) :
    ¬ Delimits (line s) := by
  rw [Delimits, endedLines_line hs, List.mem_singleton, String.toList_inj]
  exact Ne.symm hne

/-- No line reads as the last one that begins with a label. -/
theorem not_delimits_opened (hlabel : Opens label) (hrest : '\n' ∉ rest.toList) :
    ¬ Delimits (line (label ++ rest)) := by
  obtain ⟨hne, hhead, hfree⟩ := hlabel
  refine not_delimits_line (by simp [hfree, hrest]) fun heq => hhead ?_
  have hlist : label.toList ++ rest.toList = endDelimiter.toList := by
    rw [← String.toList_append, heq]
  obtain ⟨c, cs, hcs⟩ : ∃ c cs, label.toList = c :: cs :=
    List.exists_cons_of_ne_nil (by simpa using hne)
  rw [hcs] at hlist ⊢
  exact congrArg List.head? hlist

theorem not_delimits_field (hlabel : Opens label) (hvalue : '\n' ∉ value.toList) :
    ¬ Delimits (field label value) := by
  rw [field, String.append_assoc]
  exact not_delimits_opened hlabel (by simp [hvalue])

theorem not_delimits_optionalField {value : Option String} (hlabel : Opens label)
    (hvalue : ∀ v ∈ value, '\n' ∉ v.toList) : ¬ Delimits (optionalField label value) := by
  refine not_delimits_field hlabel ?_
  cases value with
  | none => decide
  | some v => exact hvalue v rfl

/-- A source text keeps its lines. -/
theorem delimits_source_iff : Delimits (source s) ↔ endDelimiter.toList ∈ Text.lines s := by
  unfold Delimits source
  split
  · next h =>
    have hs : s.toList.getLast? = some '\n' := by simpa [Text.endsWithChar] using h
    rw [Text.lines_eq_concat hs, List.mem_append, List.mem_singleton]
    exact (or_iff_left (by decide)).symm
  · rw [Text.endedLines, Text.lines, String.toList_append]
    have hlines : (s.toList ++ "\n".toList).splitOn '\n' = s.toList.splitOn '\n' ++ [[]] :=
      Text.splitOn_concat_self '\n' s.toList
    rw [hlines, List.dropLast_concat, Text.lines]

/-! ### The pieces of a report -/

theorem lineFeed_notMem_digits (n : Nat) : '\n' ∉ Nat.toDigits 10 n := by
  intro h
  exact absurd (Nat.isDigit_of_mem_toDigits (by decide) (by decide) h) (by decide)

theorem lineFeed_notMem_number (n : Int) : '\n' ∉ n.repr.toList := by
  cases n with
  | ofNat n => exact String.toList_ofList ▸ lineFeed_notMem_digits n
  | negSucc n =>
      change '\n' ∉ ("-" ++ String.ofList (Nat.toDigits 10 (n + 1))).toList
      rw [String.toList_append, List.mem_append, not_or]
      exact ⟨by decide, String.toList_ofList ▸ lineFeed_notMem_digits (n + 1)⟩

/-- Kinds of usages are written on one line. -/
theorem lineFeed_notMem_kinds (kinds : List Usage.Kind) :
    '\n' ∉ (", ".intercalate (kinds.map Usage.Kind.label)).toList := by
  induction kinds with
  | nil => decide
  | cons k kinds ih =>
      have hk : '\n' ∉ k.label.toList := by cases k <;> decide
      cases kinds with
      | nil => simpa using hk
      | cons k' kinds => simpa [String.intercalate_cons_of_ne_nil, hk] using ih

/-- A line is looked for in all pieces by looking in the first of them and in the others. -/
theorem exists_mem_append_iff {first others : List String} :
    (∃ piece ∈ first ++ others, Delimits piece) ↔
      (∃ piece ∈ first, Delimits piece) ∨ ∃ piece ∈ others, Delimits piece := by
  simp only [List.mem_append, or_and_right, exists_or]

/-- Pieces none of which has such a line can be left out of the search for one. -/
theorem exists_mem_behind_iff {first others : List String} (h : ∀ piece ∈ first, ¬ Delimits piece) :
    (∃ piece ∈ first ++ others, Delimits piece) ↔ ∃ piece ∈ others, Delimits piece := by
  rw [exists_mem_append_iff]
  exact or_iff_right fun ⟨piece, hmem, hdelimits⟩ => h piece hmem hdelimits

theorem exists_mem_flatMap_iff {α : Type} {l : List α} {f : α → List String} :
    (∃ piece ∈ l.flatMap f, Delimits piece) ↔ ∃ a ∈ l, ∃ piece ∈ f a, Delimits piece := by
  simp only [List.mem_flatMap]
  exact ⟨fun ⟨piece, ⟨a, ha, hpiece⟩, hd⟩ => ⟨a, ha, piece, hpiece, hd⟩,
    fun ⟨a, ha, piece, hpiece, hd⟩ => ⟨piece, ⟨a, ha, hpiece⟩, hd⟩⟩

/-- Of the pieces of a slice only the source text can hold such a line. -/
theorem delimits_slicePieces_iff {s : Slice} (hs : ∀ t ∈ s.lineTexts, '\n' ∉ t.toList) :
    (∃ piece ∈ slicePieces s, Delimits piece) ↔
      endDelimiter.toList ∈ Text.lines s.sourceText := by
  simp only [Slice.lineTexts, List.mem_append, List.mem_cons, Option.mem_toList, List.not_mem_nil,
    or_false, or_imp, forall_and, forall_eq] at hs
  obtain ⟨⟨⟨⟨⟨hfile, hkind⟩, hqualified⟩, hrelative⟩, hpresentable⟩, hname⟩ := hs
  have hcaret : '\n' ∉ ("offset=" ++ toString s.caret.offset ++ " line=" ++ toString s.caret.line
      ++ " column=" ++ toString s.caret.column).toList := by
    simp [lineFeed_notMem_number]
  have horigin : '\n' ∉ s.origin.label.toList := by cases s.origin <;> decide
  have hopened : ∀ piece ∈ (slicePieces s).dropLast, ¬ Delimits piece := by
    simp only [slicePieces, List.dropLast_cons_cons, List.dropLast_singleton,
      List.forall_mem_cons]
    exact ⟨not_delimits_field (by decide) hfile, not_delimits_field (by decide) hcaret,
      not_delimits_optionalField (by decide) hqualified,
      not_delimits_optionalField (by decide) hrelative,
      not_delimits_optionalField (by decide) hpresentable,
      not_delimits_optionalField (by decide) hname, not_delimits_field (by decide) hkind,
      not_delimits_field (by decide) horigin, not_delimits_line (by decide) (by decide),
      List.forall_mem_nil _⟩
  have hpieces : slicePieces s = (slicePieces s).dropLast ++ [source s.sourceText] := rfl
  rw [hpieces, exists_mem_behind_iff hopened, ← delimits_source_iff]
  simp

/-- The imports of a target stand on lines of their own, behind blanks. -/
theorem not_delimits_importPieces {imports : List String}
    (h : ∀ i ∈ imports, '\n' ∉ i.toList) : ∀ piece ∈ importPieces imports, ¬ Delimits piece := by
  unfold importPieces
  split
  · exact List.forall_mem_singleton.2 (not_delimits_field (by decide) (by decide))
  · rw [List.forall_mem_cons, List.forall_mem_map]
    exact ⟨not_delimits_line (by decide) (by decide),
      fun i hi => not_delimits_opened (by decide) (h i hi)⟩

/-- Of the pieces of a target only the source text of its slice can hold such a line. -/
theorem delimits_targetPieces_iff {t : Payload.Target} (ht : ∀ x ∈ t.lineTexts, '\n' ∉ x.toList) :
    (∃ piece ∈ targetPieces t, Delimits piece) ↔
      endDelimiter.toList ∈ Text.lines t.slice.sourceText := by
  simp only [Payload.Target.lineTexts, List.mem_append, Option.mem_toList, or_imp, forall_and]
    at ht
  obtain ⟨⟨hpackage, himports⟩, hslice⟩ := ht
  rw [targetPieces, exists_mem_behind_iff, delimits_slicePieces_iff hslice]
  rw [List.forall_mem_append, List.forall_mem_cons, List.forall_mem_singleton]
  exact ⟨⟨not_delimits_line (by decide) (by decide),
    not_delimits_optionalField (by decide) hpackage⟩, not_delimits_importPieces himports⟩

/-- So it is with a symbol that is referred to. -/
theorem delimits_referencedPieces_iff {number : Nat} {r : Usage.Referenced}
    (hr : ∀ t ∈ r.slice.lineTexts, '\n' ∉ t.toList) :
    (∃ piece ∈ referencedPieces number r, Delimits piece) ↔
      endDelimiter.toList ∈ Text.lines r.slice.sourceText := by
  rw [referencedPieces, exists_mem_behind_iff, delimits_slicePieces_iff hr]
  rw [List.forall_mem_cons, List.forall_mem_singleton, String.append_assoc]
  refine ⟨not_delimits_opened (by decide) ?_,
    not_delimits_field (by decide) (lineFeed_notMem_kinds _)⟩
  simp [lineFeed_notMem_digits]

/-- The pieces of a report before its last line. -/
def body (p : Payload) : List String :=
  [line "=== SYMBOL CONTEXT ==="] ++ p.warning.toList.map (field "Warning")
    ++ p.target.toList.flatMap targetPieces
    ++ [field "Referenced symbols" (toString p.referencedSymbols.length)]
    ++ p.referencedSymbols.zipIdx.flatMap fun (r, i) => referencedPieces (i + 1) r

/-- The last line of a report comes behind all other pieces. -/
theorem pieces_eq (p : Payload) : pieces p = body p ++ [line endDelimiter] := by
  obtain ⟨target, referenced, warning⟩ := p
  cases target <;> cases warning <;> simp [pieces, body]

/-- **Only a source text can hold the last line of a report** before its end. -/
theorem delimits_body_iff {p : Payload} (hp : ∀ t ∈ p.lineTexts, '\n' ∉ t.toList) :
    (∃ piece ∈ body p, Delimits piece) ↔
      ∃ s ∈ p.sourceTexts, endDelimiter.toList ∈ Text.lines s := by
  simp only [Payload.lineTexts, List.forall_mem_append, List.forall_mem_flatMap] at hp
  obtain ⟨⟨hwarning, htarget⟩, hreferenced⟩ := hp
  have hheader : ∀ piece ∈
      [line "=== SYMBOL CONTEXT ==="] ++ p.warning.toList.map (field "Warning"),
      ¬ Delimits piece := by
    rw [List.forall_mem_append, List.forall_mem_singleton, List.forall_mem_map]
    exact ⟨not_delimits_line (by decide) (by decide),
      fun w hw => not_delimits_field (by decide) (hwarning w hw)⟩
  have hcount : ∀ piece ∈ [field "Referenced symbols" (toString p.referencedSymbols.length)],
      ¬ Delimits piece :=
    List.forall_mem_singleton.2 (not_delimits_field (by decide) (by simp [lineFeed_notMem_digits]))
  have htargets : (∃ piece ∈ p.target.toList.flatMap targetPieces, Delimits piece) ↔
      ∃ t ∈ p.target.toList, endDelimiter.toList ∈ Text.lines t.slice.sourceText := by
    rw [exists_mem_flatMap_iff]
    exact exists_congr fun t => and_congr_right fun ht => delimits_targetPieces_iff (htarget t ht)
  have hreferences : (∃ piece ∈ p.referencedSymbols.zipIdx.flatMap
        fun (r, i) => referencedPieces (i + 1) r, Delimits piece) ↔
      ∃ r ∈ p.referencedSymbols, endDelimiter.toList ∈ Text.lines r.slice.sourceText := by
    rw [exists_mem_flatMap_iff, List.exists_mem_zipIdx', List.exists_mem_iff_exists_getElem]
    exact exists_congr fun i => exists_congr fun hi =>
      delimits_referencedPieces_iff (hreferenced _ (List.getElem_mem hi))
  rw [body, List.append_assoc, List.append_assoc, exists_mem_behind_iff hheader,
    exists_mem_append_iff, exists_mem_behind_iff hcount, htargets, hreferences]
  simp only [Payload.sourceTexts, List.mem_append, List.mem_map, or_and_right, exists_or,
    exists_exists_and_eq_and]

/-! ### The lines of a report -/

theorem endsLine_slicePieces (s : Slice) :
    ∀ piece ∈ slicePieces s, piece.toList.getLast? = some '\n' := by
  simp [slicePieces, optionalField, field, line_endsLine, source_endsLine]

theorem endsLine_targetPieces (t : Payload.Target) :
    ∀ piece ∈ targetPieces t, piece.toList.getLast? = some '\n' := by
  have himports : ∀ piece ∈ importPieces t.imports, piece.toList.getLast? = some '\n' := by
    unfold importPieces
    split <;> simp [field, line_endsLine]
  rw [targetPieces, List.forall_mem_append, List.forall_mem_append]
  exact ⟨⟨by simp [optionalField, field, line_endsLine], himports⟩, endsLine_slicePieces t.slice⟩

theorem endsLine_referencedPieces (number : Nat) (r : Usage.Referenced) :
    ∀ piece ∈ referencedPieces number r, piece.toList.getLast? = some '\n' := by
  rw [referencedPieces, List.forall_mem_append]
  exact ⟨by simp [field, line_endsLine], endsLine_slicePieces r.slice⟩

/-- Every piece of a report ends its last line. -/
theorem endsLine_pieces (p : Payload) :
    ∀ piece ∈ pieces p, piece.toList.getLast? = some '\n' := by
  simp only [pieces_eq, body, List.forall_mem_append, List.forall_mem_flatMap, List.forall_mem_map,
    List.forall_mem_singleton]
  exact ⟨⟨⟨⟨⟨line_endsLine _, fun _ _ => line_endsLine _⟩, fun t _ => endsLine_targetPieces t⟩,
    line_endsLine _⟩, fun _ _ => endsLine_referencedPieces _ _⟩, line_endsLine _⟩

/-- The lines of a report are those of its pieces, and the last one behind them. -/
theorem endedLines_render (p : Payload) :
    Text.endedLines (render p) =
      (body p).flatMap Text.endedLines ++ [endDelimiter.toList] := by
  rw [render, Text.endedLines_join (endsLine_pieces p), pieces_eq, List.map_append,
    List.flatten_append, ← List.flatMap_def, List.map_singleton, endedLines_line (by decide),
    List.flatten_singleton]

/-- The last line of a report is the same in all of them. -/
theorem getLast?_endedLines_render (p : Payload) :
    (Text.endedLines (render p)).getLast? = some endDelimiter.toList := by
  rw [endedLines_render, List.getLast?_concat]

/-- A report has a line that reads as its last one exactly when one of its source texts has. -/
theorem mem_dropLast_endedLines_render_iff {p : Payload}
    (hp : ∀ t ∈ p.lineTexts, '\n' ∉ t.toList) :
    endDelimiter.toList ∈ (Text.endedLines (render p)).dropLast ↔
      ∃ s ∈ p.sourceTexts, endDelimiter.toList ∈ Text.lines s := by
  rw [endedLines_render, List.dropLast_concat, List.mem_flatMap, ← delimits_body_iff hp]
  rfl

end Text

/-! ### Reports in a log -/

/-- The files after a report was made and added to the log at a path, if it could be. -/
def emitTo? (fs : FileSystem) (format : Format) (log : Path) (p : Payload) : Option FileSystem :=
  let (next, report) := emit fs format (some log) p
  report.toOption.map fun _ => next

/-- The files after one report after the other was made and added to the log at a path, if all of
them could be. -/
def emitAll? (fs : FileSystem) (format : Format) (log : Path) (ps : List Payload) :
    Option FileSystem :=
  ps.foldlM (fun fs p => emitTo? fs format log p) fs

/-- The reports of payloads, one behind the other. -/
def reports (format : Format) (ps : List Payload) : String := String.join (ps.map (render format))

section Log

variable {fs fs' : FileSystem} {format : Format} {log : Path} {place : List String} {p : Payload}
  {ps : List Payload}

theorem emitTo?_eq_some_iff :
    emitTo? fs format log p = some fs' ↔
      ∃ report, emit fs format (some log) p = (fs', .ok report) := by
  unfold emitTo?
  rcases emit fs format (some log) p with ⟨next, e | report⟩ <;> simp [Except.toOption]

/-- The first report is added, and the others behind it. -/
theorem emitAll?_cons_eq_some_iff :
    emitAll? fs format log (p :: ps) = some fs' ↔
      ∃ next, emitTo? fs format log p = some next ∧ emitAll? next format log ps = some fs' := by
  rw [emitAll?, List.foldlM_cons, Option.bind_eq_bind, Option.bind_eq_some_iff]
  rfl

/-- A log that is there stays where it is. -/
theorem place?_emitTo? (hplace : fs.place? log = some place)
    (h : emitTo? fs format log p = some fs') : fs'.place? log = some place := by
  obtain ⟨report, hemit⟩ := emitTo?_eq_some_iff.1 h
  obtain ⟨made, hmade, happend⟩ := exists_append_of_emit hemit
  have hparent := FileSystem.place?_makeParent hplace log
  rw [hmade] at hparent
  exact FileSystem.place?_append hparent happend

theorem toUTF8_reports_cons (format : Format) (p : Payload) (ps : List Payload) :
    (reports format (p :: ps)).toUTF8 = (render format p).toUTF8 ++ (reports format ps).toUTF8 := by
  simp [reports]

/-- Reports are added behind the bytes of a log that is there. -/
theorem content?_of_place? {old : ByteArray} (hplace : fs.place? log = some place)
    (hold : fs.content? place = some old) (h : emitAll? fs format log ps = some fs') :
    fs'.place? log = some place ∧
      fs'.content? = Function.update fs.content? place
        (some (old ++ (reports format ps).toUTF8)) := by
  induction ps generalizing fs old with
  | nil =>
      obtain rfl : fs = fs' := Option.some.inj h
      refine ⟨hplace, (Function.update_eq_self_iff.2 ?_).symm⟩
      simp [reports, hold]
  | cons p ps ih =>
      obtain ⟨next, hfirst, hrest⟩ := emitAll?_cons_eq_some_iff.1 h
      have hnext := place?_emitTo? hplace hfirst
      obtain ⟨report, hemit⟩ := emitTo?_eq_some_iff.1 hfirst
      obtain ⟨other, hother, hcontent⟩ := exists_place_of_emit hemit
      obtain rfl : other = place := Option.some.inj (hother.symm.trans hnext)
      rw [hold, Option.getD_some] at hcontent
      obtain ⟨hlast, hlogged⟩ := ih hnext (by rw [hcontent, Function.update_self]) hrest
      refine ⟨hlast, ?_⟩
      rw [hlogged, hcontent, Function.update_idem, ByteArray.append_assoc, toUTF8_reports_cons]

/-- **What a log holds behind its earlier bytes are the reports**, one behind the other; no other
file changes. -/
theorem content?_of_emitAll? (hps : ps ≠ []) (h : emitAll? fs format log ps = some fs') :
    ∃ place, fs'.place? log = some place ∧
      fs'.content? = Function.update fs.content? place
        (some ((fs.content? place).getD ByteArray.empty ++ (reports format ps).toUTF8)) := by
  obtain ⟨p, ps, rfl⟩ := List.exists_cons_of_ne_nil hps
  -- the first report puts the log in its place, where the others find it
  obtain ⟨next, hfirst, hrest⟩ := emitAll?_cons_eq_some_iff.1 h
  obtain ⟨report, hemit⟩ := emitTo?_eq_some_iff.1 hfirst
  obtain ⟨place, hplace, hcontent⟩ := exists_place_of_emit hemit
  obtain ⟨hlast, hlogged⟩ :=
    content?_of_place? hplace (by rw [hcontent, Function.update_self]) hrest
  refine ⟨place, hlast, ?_⟩
  rw [hlogged, hcontent, Function.update_idem, ByteArray.append_assoc, toUTF8_reports_cons]

end Log

/-! ### To take a log apart -/

/-- Every report ends its last line. -/
theorem forall_endsLine (ps : List Payload) :
    ∀ r ∈ ps.map (render .text), r.toList.getLast? = some '\n' :=
  List.forall_mem_map.2 fun p _ => render_getLast? .text p

theorem forall_getLast?_endedLines (ps : List Payload) :
    ∀ r ∈ ps.map (render .text),
      (Text.endedLines r).getLast? = some Text.endDelimiter.toList :=
  List.forall_mem_map.2 fun p _ => Text.getLast?_endedLines_render p

section Apart

variable {ps : List Payload} (hlines : ∀ p ∈ ps, ∀ t ∈ p.lineTexts, '\n' ∉ t.toList)
include hlines

/-- No report has the last line within it exactly when no source text has it. -/
theorem forall_notMem_dropLast_iff :
    (∀ r ∈ ps.map (render .text),
        Text.endDelimiter.toList ∉ (Text.endedLines r).dropLast) ↔
      ∀ p ∈ ps, ∀ s ∈ p.sourceTexts, Text.endDelimiter.toList ∉ Text.lines s := by
  rw [List.forall_mem_map]
  refine forall₂_congr fun p hp => ?_
  rw [render, Text.mem_dropLast_endedLines_render_iff (hlines p hp)]
  simp only [not_exists, not_and]

/-- So the lines of a log that read as the last of a report are exactly those. -/
theorem getElem?_lines_reports_iff :
    (∀ i, (Text.lines (reports .text ps))[i]? = some Text.endDelimiter.toList ↔
        ∃ k < ps.length, i + 1 = (Text.endedLines (reports .text (ps.take (k + 1)))).length) ↔
      ∀ p ∈ ps, ∀ s ∈ p.sourceTexts, Text.endDelimiter.toList ∉ Text.lines s := by
  rw [← forall_notMem_dropLast_iff hlines, ← Text.getElem?_lines_join_iff
    (forall_endsLine ps) (forall_getLast?_endedLines ps) (by decide)]
  simp only [reports, List.map_take, List.length_map]

/-- And to cut behind each of them gives the reports. -/
theorem blocks_reports_iff :
    Text.blocks Text.endDelimiter (reports .text ps) = ps.map (render .text) ↔
      ∀ p ∈ ps, ∀ s ∈ p.sourceTexts, Text.endDelimiter.toList ∉ Text.lines s := by
  rw [← forall_notMem_dropLast_iff hlines, ← Text.blocks_join_iff
    (forall_endsLine ps) (forall_getLast?_endedLines ps), reports]

end Apart

/-- **A log of reports can be taken apart again when no source text holds the last line of a
report**, and only then.  Let no text but the source texts of some payloads have a line feed.  To
report them one after the other adds their reports to the log, one behind the other.  There the
lines that read as the last line of a report are exactly the last lines of the reports, and to cut
behind each of them gives the reports, exactly when no source text of the payloads has such a
line. -/
theorem log_apart_iff (ps : List Payload)
    (hlines : ∀ p ∈ ps, ∀ t ∈ p.lineTexts, '\n' ∉ t.toList) :
    (∀ fs fs' log, ps ≠ [] → emitAll? fs .text log ps = some fs' →
      ∃ place, fs'.place? log = some place ∧
        fs'.content? = Function.update fs.content? place
          (some ((fs.content? place).getD ByteArray.empty ++ (reports .text ps).toUTF8))) ∧
    ((∀ i, (Text.lines (reports .text ps))[i]? = some Text.endDelimiter.toList ↔
        ∃ k < ps.length, i + 1 = (Text.endedLines (reports .text (ps.take (k + 1)))).length) ↔
      ∀ p ∈ ps, ∀ s ∈ p.sourceTexts, Text.endDelimiter.toList ∉ Text.lines s) ∧
    (Text.blocks Text.endDelimiter (reports .text ps) = ps.map (render .text) ↔
      ∀ p ∈ ps, ∀ s ∈ p.sourceTexts, Text.endDelimiter.toList ∉ Text.lines s) :=
  ⟨fun _ _ _ hps h => content?_of_emitAll? hps h, getElem?_lines_reports_iff hlines,
    blocks_reports_iff hlines⟩

/-! ### A function whose text speaks of the last line -/

namespace Quoting

/-- The slice of a function with the given source text. -/
def slice (source : String) : Slice where
  sourceText := source
  filePath := ⟨"A.kt"⟩
  caret := ⟨0, 1, 1⟩
  qualifiedName := some "f"
  relativeQualifiedName := some "f"
  presentableText := some "f()"
  simpleName := some "f"
  nodeKind := "function_declaration"
  origin := .source

/-- The payload of a function with the given source text, which calls itself. -/
def payload (source : String) : Payload where
  target := some ⟨none, ["import a.B"], slice source⟩
  referencedSymbols := [⟨slice source, [.call]⟩]
  warning := none

/-- The line stands behind the sign of a comment. -/
def commented : List Payload :=
  [payload "fun f() \x7b\n    f() // === END SYMBOL CONTEXT ===\n\x7d",
    .ofWarning Payload.notReadyWarning]

/-- The line stands by itself within a comment. -/
def quoted : Payload := payload "fun f() \x7b\n    f() /*\n=== END SYMBOL CONTEXT ===\n*/\n\x7d"

/-- A log with a line in it. -/
def files : FileSystem where
  top := .directory [("log", .file "=== EARLIER ===\n".toUTF8)]
  here := []

end Quoting

open Quoting in
theorem log_apart_iff_commented :
    (∀ p ∈ commented, ∀ t ∈ p.lineTexts, '\n' ∉ t.toList) ∧
      ((emitAll? files .text ⟨"log"⟩ commented).bind fun fs => fs.content? ["log"]) =
        some ("=== EARLIER ===\n".toUTF8 ++ (reports .text commented).toUTF8) ∧
      Text.blocks Text.endDelimiter (reports .text commented) = commented.map (render .text) := by
  have hlines : ∀ p ∈ commented, ∀ t ∈ p.lineTexts, '\n' ∉ t.toList := by decide +kernel
  obtain ⟨hlogged, -, hblocks⟩ := log_apart_iff commented hlines
  have hplace : ((emitAll? files .text ⟨"log"⟩ commented).bind fun fs => fs.place? ⟨"log"⟩) =
      some ["log"] := by decide +kernel
  obtain ⟨fs, hfs, hat⟩ := Option.bind_eq_some_iff.1 hplace
  obtain ⟨place, hplace, hcontent⟩ := hlogged files fs ⟨"log"⟩ (by decide) hfs
  obtain rfl : place = ["log"] := Option.some.inj (hplace.symm.trans hat)
  have hbefore : files.content? ["log"] = some "=== EARLIER ===\n".toUTF8 := by decide
  refine ⟨hlines, ?_, hblocks.2 (by decide +kernel)⟩
  rw [hfs, Option.bind_some, hcontent, Function.update_self, hbefore, Option.getD_some]

open Quoting in
/-- Where a source text has the line, a log is cut within a report. -/
theorem log_not_apart_quoted :
    (∀ p ∈ [quoted], ∀ t ∈ p.lineTexts, '\n' ∉ t.toList) ∧
    ¬ (∀ i, (Text.lines (reports .text [quoted]))[i]? = some Text.endDelimiter.toList ↔
        ∃ k < [quoted].length,
          i + 1 = (Text.endedLines (reports .text ([quoted].take (k + 1)))).length) ∧
    Text.blocks Text.endDelimiter (reports .text [quoted]) ≠ [quoted].map (render .text) := by
  have hlines : ∀ p ∈ [quoted], ∀ t ∈ p.lineTexts, '\n' ∉ t.toList := by decide +kernel
  have hquoted : ¬ ∀ p ∈ [quoted], ∀ s ∈ p.sourceTexts,
      Text.endDelimiter.toList ∉ Text.lines s := by decide +kernel
  exact ⟨hlines, mt (getElem?_lines_reports_iff hlines).1 hquoted,
    mt (blocks_reports_iff hlines).1 hquoted⟩

end Report

end Crossref
