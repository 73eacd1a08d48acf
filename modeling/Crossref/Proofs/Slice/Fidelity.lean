import Crossref.Proofs.Index.Reachable
import Crossref.Proofs.SourceFile.Keys
import Crossref.Proofs.Text.Position
import Crossref.Slice

/-!
# Proofs — slices — what a slice shows

The slice of an indexed symbol shows its declaration: the text of the declaration's bytes, and the
place of their first character as an offset and as a line and a column.  The declaration's node is
found because it is not empty, and its bytes stand between characters because the spans of the tree
do, those of the accessors behind a property among them.

* `exists_ofSymbol`: the slice of a declaration that is not empty can be made.
* `ofSymbol_shows`: the slice of an indexed symbol shows its declaration.
-/

namespace Crossref

/-- Every node of the file begins and ends between two characters of its text. -/
def SourceFile.OnBoundaries (f : SourceFile) : Prop :=
  ∀ n, Node.Within f.tree n → Text.OnBoundary f.text n.start ∧ Text.OnBoundary f.text n.stop

namespace SourceFile
open Node

variable {f : SourceFile}

instance (f : SourceFile) : Decidable f.OnBoundaries :=
  decidable_of_iff (∀ n ∈ f.top.preorder,
      Text.OnBoundary f.text n.start ∧ Text.OnBoundary f.text n.stop)
    (forall_congr' fun _ => by rw [within_iff_mem_preorder]; rfl)

/-- A tree whose spans stand between characters is a tree of its text. -/
theorem OnBoundaries.wellFormed (hb : f.OnBoundaries) (ht : f.tree.WellFormed) : f.WellFormed :=
  ⟨ht, (hb f.top .top).2.le_size⟩

theorem OnBoundaries.keyOf_stop (hb : f.OnBoundaries) {n : Node} (hn : Within f.tree n) :
    Text.OnBoundary f.text (f.keyOf n).stop := by
  rcases SourceFile.keyOf_stop f n with h | h
  · exact h ▸ (hb n hn).2
  · rcases Kotlin.spanStop_eq n with hs | ⟨a, ha, hs⟩
    · exact h ▸ hs ▸ (hb n hn).2
    · have haw := hn.following
        (Kotlin.mem_following_of_mem_siblingAccessors (List.mem_of_getLast? ha))
      exact h ▸ hs ▸ (hb a haw).2

/-- The bytes of a declaration are a piece of the text. -/
theorem OnBoundaries.exists_slice?_keyOf (hb : f.OnBoundaries) (ht : f.tree.WellFormed) {n : Node}
    (hn : Within f.tree n) :
    ∃ t, Text.slice? f.text (f.keyOf n).start (f.keyOf n).stop = some t := by
  refine Text.exists_slice? ?_ (hb.keyOf_stop hn) ?_
  · rw [keyOf_start]
    exact (hb n hn).1
  · rw [keyOf_start]
    exact Nat.le_trans (ht.start_le_stop hn) (stop_le_keyOf_stop ht hn)

end SourceFile

namespace Slice
open Node

/-- **The slice of a declaration that is not empty can be made**: its node is found, or another
with its key. -/
theorem exists_ofSymbol {i : Index} {f : SourceFile} {s : Symbol} (hf : f.WellFormed)
    (hfile : i.file? s.declaration.file = some f) (hshown : f.ShownAt s.declaration) :
    ∃ m, f.keyOf m = s.declaration ∧ ofSymbol i s = .ok (ofNode i f m s.origin) := by
  obtain ⟨m, hm⟩ := hshown.exists_nodeFor? hf
  exact ⟨m, SourceFile.keyOf_of_nodeFor? hm, by rw [ofSymbol, hfile]; simp only [hm]⟩

/-- The slice shows the declaration with the key: its text, and where this begins. -/
structure Shows (f : SourceFile) (k : DeclKey) (slice : Slice) : Prop where
  /-- The text is that of the declaration's bytes. -/
  sourceText : Text.slice? f.text k.start k.stop = some slice.sourceText
  /-- The offset counts the characters before the declaration's first byte; behind them the file
  goes on with the text. -/
  offset : ∃ offset : Nat, slice.caret.offset = offset ∧
    Text.byteSize (f.text.toList.take offset) = k.start ∧
    (f.text.toList.drop offset).take slice.sourceText.toList.length = slice.sourceText.toList
  /-- The line and the column are those of the declaration's first byte, counted from one. -/
  lineColumn : ∃ lead line after, Text.Stands f.text k.start (lead ++ line) after ∧
    (lead = [] ∨ lead.getLast? = some '\n') ∧ '\n' ∉ line ∧
    slice.caret.line = lead.count '\n' + 1 ∧ slice.caret.column = line.length + 1

/-- A snapshot in a file with a document shows the declaration whose bytes it takes. -/
theorem shows_snapshot {f : SourceFile} {n : Node} {k : DeclKey} {origin : Origin} {t : String}
    (ha : f.attached = true) (hk : f.keyOf n = k)
    (ht : Text.slice? f.text k.start k.stop = some t) : Shows f k (snapshot f n origin) := by
  subst hk
  obtain ⟨before, after, hb, -⟩ := Text.slice?_eq_some_iff.1 ht
  have hspan : SourceFile.spanOf f.language n = ((f.keyOf n).start, (f.keyOf n).stop) := rfl
  have htext : (snapshot f n origin).sourceText = t := by simp [snapshot, hspan, ht]
  refine ⟨by rw [htext, ht], ⟨before.length, ?_, ?_, ?_⟩, ?_⟩
  · simp [snapshot, hspan, hb.charOffset?_eq, orMinusOne]
  · rw [hb.split, List.take_left, hb.bytes]
  · rw [htext]
    exact Text.take_drop_of_stands hb
  · obtain ⟨lead, line, rfl, hlead, hline, hlc⟩ := hb.lineColumn?_eq
    have hcol : f.lineColumn? (f.keyOf n).start = some (lead.count '\n' + 1, line.length + 1) := by
      rw [SourceFile.lineColumn?, if_pos ha, hlc]
    refine ⟨lead, line, t.toList ++ after, hb, hlead, hline, ?_, ?_⟩
    · simp [snapshot, hspan, hcol, orMinusOne]
    · simp [snapshot, hspan, hcol, orMinusOne]

/-- A snapshot of an indexed declaration shows it. -/
theorem shows_snapshot_of_mem {i : Index} (hi : i.Consistent)
    (hw : ∀ f ∈ i.files, f.tree.WellFormed ∧ f.OnBoundaries) {s : Symbol} (hs : s ∈ i.symbols)
    {f : SourceFile} (hf : i.file? s.declaration.file = some f) {m : Node} {origin : Origin}
    (hm : f.keyOf m = s.declaration) : Shows f s.declaration (snapshot f m origin) := by
  obtain ⟨hff, -, n, hn, hd⟩ := hi.place_of_file? hs hf
  obtain ⟨ht, hb⟩ := hw f hff
  obtain ⟨text, htext⟩ := hb.exists_slice?_keyOf ht hn
  exact shows_snapshot (hi.attached f hff) hm (hd ▸ htext)

/-- **The slice of an indexed symbol shows its declaration**, for every index that is built from
well-formed trees with spans between characters. -/
theorem ofSymbol_shows {i : Index} (hi : i.Reachable)
    (hw : ∀ f ∈ i.files, f.tree.WellFormed ∧ f.OnBoundaries) {s : Symbol} (hs : s ∈ i.symbols)
    {f : SourceFile} (hf : i.file? s.declaration.file = some f) (hc : f.compiled = false)
    (hsolid : f.SolidAt s.declaration) :
    ∃ slice, ofSymbol i s = .ok slice ∧ Shows f s.declaration slice := by
  obtain ⟨hff, -, n, hn, hd⟩ := hi.consistent.place_of_file? hs hf
  obtain ⟨ht, hb⟩ := hw f hff
  obtain ⟨m, hm, hslice⟩ := exists_ofSymbol (hb.wellFormed ht) hf (hsolid n hn hd.symm)
  refine ⟨_, hslice, ?_⟩
  -- the node that was found may be another one, but it has the same key and so the same bytes
  rw [ofNode, if_neg (by simp [hc])]
  exact shows_snapshot_of_mem hi.consistent hw hs hf hm

end Slice

/-! ### A project of one file -/

namespace TwoProperties

def text : String := "val a = 1\nval b = a\n"

/-- The tree of a property with one name, from the byte at which it starts. -/
def property (start : Nat) (value : String) : Tree :=
  .named "property_declaration" start (start + 9)
    [.named "binding_pattern_kind" start (start + 3) [.token "val" start (start + 3)],
     .named "variable_declaration" (start + 4) (start + 5)
       [.named "simple_identifier" (start + 4) (start + 5) []],
     .token "=" (start + 6) (start + 7),
     .named value (start + 8) (start + 9) []]

def tree : Tree :=
  .named "source_file" 0 20 [property 0 "integer_literal", property 10 "simple_identifier"]

def given : ParsedText := ⟨⟨"/p/a.kt"⟩, text, tree⟩

def file : SourceFile := Project.sourceFile ⟨"/p"⟩ {} 0 .kotlin given

/-- A project with the one file. -/
def index : Index := Project.indexOf ⟨"/p"⟩ {} [given]

/-- The symbol of the property on the second line. -/
def second : Symbol := index.symbols.getLastD default

theorem wellFormed : ∀ f ∈ index.files, f.tree.WellFormed ∧ f.OnBoundaries := by decide

/-- The node of the property on the second line. -/
def secondNode : Node := file.top.children.getLast (by decide)

theorem secondNode_within : Node.Within file.tree secondNode :=
  .child .top (List.getLast_mem _)

theorem file_mem : file ∈ index.files := List.mem_of_getElem? (i := 0) rfl

theorem nonempty : ∀ f ∈ index.files, ∀ n, Node.Within f.tree n → n.start < n.stop := by
  have h : ∀ f ∈ index.files, ∀ n ∈ f.top.preorder, n.start < n.stop := by decide
  exact fun f hf n hn => h f hf n (Node.within_iff_mem_preorder.1 hn)

theorem second_mem : second ∈ index.symbols := by decide

theorem file?_second : index.file? second.declaration.file = some file := by
  have h : second.declaration.file = 0 := by decide
  rw [h]
  rfl

end TwoProperties

open TwoProperties in
theorem Slice.ofSymbol_shows_second :
    ∃ slice, Slice.ofSymbol index second = .ok slice ∧ Shows file second.declaration slice :=
  Slice.ofSymbol_shows (.built _ _ _) TwoProperties.wellFormed second_mem file?_second
    (by decide) (by decide)

end Crossref
