import Crossref.CommandLine
import Crossref.Proofs.Text.LineTable

/-!
# Proofs — command line — where the caret is

A caret is given by the characters before it, or by a line and a column.  Inside of a file both are
turned into bytes, and the three ways of saying where a place is agree.

* `plan_congr`: a use depends on its caret only through the characters before it.
* `positions_agree`: bytes, characters, and lines with columns address the same places.
-/

namespace Crossref.CommandLine
open Text

/-- The caret counts for nothing but the characters before it. -/
theorem plan_congr {fs : FileSystem} {i : Invocation} {c₁ c₂ : Caret}
    (h : ∀ file, fs.canonical? i.file = some file →
      caretOffset fs c₁ file = caretOffset fs c₂ file) :
    plan fs { i with caret := c₁ } = plan fs { i with caret := c₂ } := by
  have hsettings (c : Caret) : settings fs { i with caret := c } = settings fs i := rfl
  cases hfile : fs.canonical? i.file with
  | none => simp only [plan, hsettings, hfile]; rfl
  | some file =>
      simp only [plan, hsettings, hfile, Option.elim_some, bind, Except.bind, h file hfile]
      rfl

/-- The characters before a line and column of a file that can be read. -/
theorem caretOffset_position {fs : FileSystem} {file : Path} {s : String}
    (hread : fs.readText? file = some s) (line column : Nat) :
    caretOffset fs (.position line column) file =
      match (offsetOf? s line column).bind (charOffset? s) with
      | some n => .ok n
      | none => .error (.outside line column file) := by
  cases h : (offsetOf? s line column).bind (charOffset? s) <;> simp only [caretOffset, hread, h]

/-- Every place of a text has a number of characters before it. -/
theorem exists_byteOffset? {s : String} {b : Nat} (h : OnBoundary s b) :
    ∃ n, byteOffset? s n = some b := by
  obtain ⟨before, after, hstands⟩ := h
  exact ⟨before.length, charOffset?_eq_some_iff.1 hstands.charOffset?_eq⟩

theorem onBoundary_of_offsetOf? {s : String} {b line column : Nat}
    (h : offsetOf? s line column = some b) : OnBoundary s b := by
  rw [← isSome_lineColumn?_iff, lineColumn?_eq_some_iff.2 h]
  rfl

/-- **The three ways of giving a position agree.**  A byte has a line and a column exactly where it
stands between two characters, or at an end; a line and a column lead to a byte exactly where the
line is there and has as many characters, or one less; a number of characters leads to a byte up to
the characters of the text.  Each leads back.  So a use of the program with a line and a column is
the one with the characters before them, and one with a position that is not there fails.  No step
of a look-up in the table of lines leaves its range, whatever the arguments. -/
theorem positions_agree (s : String) :
    (∀ b, (lineColumn? s b).isSome = true ↔ OnBoundary s b) ∧
    (∀ b line column, lineColumn? s b = some (line, column) ↔ offsetOf? s line column = some b) ∧
    (∀ line column, (offsetOf? s line column).isSome = true ↔
      1 ≤ line ∧ 1 ≤ column ∧ ∃ l, (lines s)[line - 1]? = some l ∧ column ≤ l.length + 1) ∧
    (∀ n, (byteOffset? s n).isSome = true ↔ n ≤ s.toList.length) ∧
    (∀ n b, byteOffset? s n = some b ↔ charOffset? s b = some n) ∧
    (∀ (fs : FileSystem) (file : Path), fs.readText? file = some s → ∀ line column,
      (∀ n, caretOffset fs (.position line column) file = .ok n ↔
        ∃ b, offsetOf? s line column = some b ∧ byteOffset? s n = some b) ∧
      (offsetOf? s line column = none →
        caretOffset fs (.position line column) file = .error (.outside line column file))) ∧
    (∀ (fs : FileSystem) (parse : Path → String → Tree) (i : Invocation) (file : Path),
      fs.canonical? i.file = some file → fs.readText? file = some s →
      ∀ line column b n, offsetOf? s line column = some b → byteOffset? s n = some b →
        run fs parse { i with caret := .position line column } =
          run fs parse { i with caret := .offset n }) ∧
    (LineTable.ofText s).starts.length = (lines s).length ∧
    (∀ b, (LineTable.ofText s).lineColumn s b = .ok (lineColumn? s b)) ∧
    (∀ line column, (LineTable.ofText s).offsetOf s line column = .ok (offsetOf? s line column) ∧
      (LineTable.ofText s).charsBefore s line column =
        .ok ((offsetOf? s line column).bind (charOffset? s))) := by
  have hcaret {fs : FileSystem} {file : Path} (hread : fs.readText? file = some s)
      {line column b n : Nat} (hb : offsetOf? s line column = some b)
      (hn : byteOffset? s n = some b) : caretOffset fs (.position line column) file = .ok n := by
    rw [caretOffset_position hread, hb, Option.bind_some, charOffset?_eq_some_iff.2 hn]
  refine ⟨fun b => isSome_lineColumn?_iff, fun b line column => lineColumn?_eq_some_iff,
    fun line column => isSome_offsetOf?_iff, fun n => isSome_byteOffset?_iff,
    fun n b => charOffset?_eq_some_iff.symm, ?_, ?_, ?_, lineColumn_ofText s,
    fun line column => ⟨offsetOf_ofText s line column, charsBefore_ofText s line column⟩⟩
  · intro fs file hread line column
    cases hb : offsetOf? s line column with
    | none =>
        have hnone := caretOffset_position hread line column
        rw [hb, Option.bind_none] at hnone
        exact ⟨fun n => by simp [hnone], fun _ => hnone⟩
    | some b =>
        obtain ⟨n, hn⟩ := exists_byteOffset? (onBoundary_of_offsetOf? hb)
        refine ⟨fun m => ⟨fun h => ⟨b, rfl, ?_⟩, ?_⟩, by simp⟩
        · rw [hcaret hread hb hn] at h
          cases h
          exact hn
        · rintro ⟨b', hb', hm⟩
          cases hb'
          exact hcaret hread hb hm
  · intro fs parse i file hfile hread line column b n hb hn
    have hplan : plan fs { i with caret := .position line column } =
        plan fs { i with caret := .offset n } := by
      refine plan_congr fun other hother => ?_
      obtain rfl : file = other := Option.some.inj (hfile.symm.trans hother)
      exact hcaret hread hb hn
    rw [run, run, hplan]
  · rw [starts_ofText, List.length_map, List.length_range]

namespace Accented

/-- ```
é
b
``` -/
def text : String := "é\nb"

/-- A file system with the text in one file. -/
def files : FileSystem where
  top := .directory [("a.kt", .file text.toUTF8)]
  here := []

def file : Path := ⟨"/a.kt"⟩

theorem readText?_file : files.readText? file = some text := by decide

theorem canonical?_file : files.canonical? file = some file := by decide

/-- A use of the program at a place of the file. -/
def use (caret : Caret) : Invocation := { file, caret }

end Accented

open Accented in
theorem positions_agree_accented :
    files.readText? file = some text ∧ lineColumn? text 3 = some (2, 1) ∧
      offsetOf? text 2 1 = some 3 ∧ byteOffset? text 2 = some 3 ∧
      caretOffset files (.position 2 1) file = .ok 2 ∧
      ∀ parse, run files parse (use (.position 2 1)) = run files parse (use (.offset 2)) := by
  obtain ⟨-, hline, -, -, -, hcaret, hrun, -⟩ := positions_agree text
  have hcolumn : lineColumn? text 3 = some (2, 1) := by decide
  have hb : offsetOf? text 2 1 = some 3 := (hline 3 2 1).1 hcolumn
  have hn : byteOffset? text 2 = some 3 := by decide
  have hoffset := ((hcaret files file readText?_file 2 1).1 2).2 ⟨3, hb, hn⟩
  exact ⟨readText?_file, hcolumn, hb, hn, hoffset, fun parse =>
    hrun files parse (use (.offset 2)) file canonical?_file readText?_file 2 1 3 2 hb hn⟩

end Crossref.CommandLine
