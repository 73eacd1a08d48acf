import Mathlib.Data.List.Find
import Crossref.Proofs.Index.Reachable
import Crossref.Proofs.Kotlin.Blanked
import Crossref.Proofs.SourceFile.Keys

/-!
# Proofs — index — files with comments left out

Two indexes of the same files, in the second without some of their comments.  They hold the same
symbols, so every table leads to the same ones; only the files differ.  A declaration is found from
its key in both, since no comment stands at the first byte of a declaration.

* `keyOf_blanked`, `nodeFor?_blanked`: keys are the same, and lead to the same nodes.
* `indexOf_blanked`: files that are read without the comments are the files, each without them.
* `blanks_ofFiles`: the indexes of the files hold the same symbols.
* `anchor?_blanked`: the declarations of symbols are the same nodes.
-/

namespace Crossref

namespace SourceFile
open Node

section Keys

variable {b : Blanking} {f : SourceFile} (h : f.OffDeclarations b)
include h

theorem spanOf_blanked {n : Node} (hn : Stays b.out f.tree n) (language : Language) :
    spanOf language (n.without b.out) = spanOf language n := by
  cases language with
  | kotlin => rw [spanOf, spanOf, start_without, h.spanStop_without hn]
  | java => rw [spanOf, spanOf, start_without, stop_without]

/-- **A declaration has the same key.** -/
theorem keyOf_blanked {n : Node} (hn : Stays b.out f.tree n) :
    (f.blanked b).keyOf (n.without b.out) = f.keyOf n := by
  rw [keyOf, keyOf, language_blanked, spanOf_blanked h hn]
  rfl

/-- The byte lies in no comment that is left out of the file. -/
def ClearAt (b : Blanking) (f : SourceFile) (start : Nat) : Prop :=
  ∀ x, Within f.tree x → x.isKept b.out = false → start < x.start ∨ x.stop ≤ start

theorem clearAt_start {n : Node} (hn : Stays b.out f.tree n) : f.ClearAt b n.start :=
  fun _ hx hk => h.apart hx hk hn

/-- **A key leads to the same node**, if no comment stands at its first byte. -/
theorem nodeFor?_blanked {k : DeclKey} (hk : f.ClearAt b k.start) :
    (f.blanked b).nodeFor? k = (f.nodeFor? k).map (without b.out) ∧
      ∀ n ∈ f.nodeFor? k, Stays b.out f.tree n := by
  obtain ⟨hlow, hstays⟩ := h.atByte_without hk
  have hlow : (f.blanked b).top.atByte k.start = (f.top.atByte k.start).without b.out := hlow
  have hall : ∀ n ∈ f.top.atByte k.start :: (f.top.atByte k.start).ancestors,
      Stays b.out f.tree n := by
    intro n hn
    rcases List.mem_cons.1 hn with rfl | hn
    · exact hstays
    · exact Comments.Between.stays_of_mem_ancestors hstays.within hn
  have hlist : (f.blanked b).top.atByte k.start :: ((f.blanked b).top.atByte k.start).ancestors =
      (f.top.atByte k.start :: (f.top.atByte k.start).ancestors).map (without b.out) := by
    rw [hlow, ancestors_without, List.map_cons]
  have hway : ∀ l : List Node, (∀ n ∈ l, Stays b.out f.tree n) →
      ((l.map (without b.out)).takeWhile fun n => k.start ≤ n.start).find?
          (fun n => spanOf f.language n = (k.start, k.stop)) =
        ((l.takeWhile fun n => k.start ≤ n.start).find?
          fun n => spanOf f.language n = (k.start, k.stop)).map (without b.out) := by
    intro l hl
    rw [List.takeWhile_map, List.find?_map]
    simp only [Function.comp_def, start_without]
    refine congrArg _ (List.find?_congr fun n hn => ?_)
    rw [spanOf_blanked h (hl n ((List.takeWhile_sublist _).subset hn))]
  unfold nodeFor?
  rw [id_blanked, text_blanked, h.size, language_blanked]
  split
  · exact ⟨rfl, fun n hn => nomatch hn⟩
  · dsimp only
    rw [hlist]
    refine ⟨hway _ hall, fun n hn => hall n ?_⟩
    exact (List.takeWhile_sublist _).subset (List.mem_of_find?_eq_some hn)

end Keys

theorem symbols_blanked {b : Blanking} {f : SourceFile} (h : f.OffDeclarations b)
    (hjava : f.language = .java → f.blanked b = f) : (f.blanked b).symbols = f.symbols := by
  cases hl : f.language with
  | java => rw [hjava hl]
  | kotlin =>
      rw [symbols, symbols, language_blanked, hl]
      exact Kotlin.symbols_blanked h

end SourceFile

/-! ### Files as they are given -/

/-- The comments stand where neither a declaration nor the head of the file is read; only Kotlin
files have any. -/
structure SourceFile.OffHead (b : Blanking) (f : SourceFile) : Prop
    extends b.out.OffDeclarations f.text b.text f.tree where
  head : ∀ n, Node.Stays b.out f.tree n → n.kind ∈ Kotlin.headerKinds →
    n.text b.text = n.text f.text
  kotlin : f.language = .java → f.blanked b = f

/-- The given file without the comments of the file at its path. -/
def ParsedText.blanked (b : Path → Blanking) (given : ParsedText) : ParsedText :=
  ⟨given.path, (b given.path).text, given.tree.without (b given.path).out⟩

namespace Project

variable {root : Path} {config : Config} {b : Path → Blanking}

/-- What is left of a file is the file that is read from what is left. -/
theorem sourceFile_blanked {id : FileId} {language : Language} {given : ParsedText}
    (hu : (sourceFile root config id language given).OffHead (b given.path)) :
    sourceFile root config id language (given.blanked b) =
      (sourceFile root config id language given).blanked (b given.path) := by
  cases language with
  | kotlin =>
      have hpackage := hu.package?_without hu.head
      have himports := hu.imports_without hu.head
      have hleft : (sourceFile root config id .kotlin given).blanked (b given.path) =
          { sourceFile root config id .kotlin (given.blanked b) with
            package := Kotlin.package? (.ofTree given.tree) given.text
            imports := Kotlin.imports (.ofTree given.tree) given.text } := rfl
      rw [hleft]
      exact (congrArg₂ (fun package imports =>
        { sourceFile root config id .kotlin (given.blanked b) with package, imports })
        hpackage himports)
  | java =>
      have hsame := hu.kotlin rfl
      have htree : given.tree.without (b given.path).out = given.tree :=
        congrArg SourceFile.tree hsame
      have htext : (b given.path).text = given.text := congrArg SourceFile.text hsame
      have hgiven : given.blanked b = given := by
        rw [ParsedText.blanked, htree, htext]
      rw [hgiven, hsame]

theorem recognized_blanked (files : List ParsedText) :
    recognized (files.map (·.blanked b)) =
      (recognized files).map fun f => (f.1.blanked b, f.2) := by
  rw [recognized, recognized, List.filterMap_map, List.map_filterMap]
  refine List.filterMap_congr fun f _ => ?_
  change ((Language.ofPath? f.path).map fun language => (f.blanked b, language)) = _
  rw [Option.map_map]
  rfl

/-- The index of what is left of the files is that of the files, each without its comments. -/
theorem indexOf_blanked {files : List ParsedText}
    (hu : ∀ f ∈ (indexOf root config files).files, f.OffHead (b f.path)) :
    indexOf root config (files.map (·.blanked b)) =
      .ofFiles ((indexOf root config files).files.map fun f => f.blanked (b f.path)) := by
  have hfiles : (indexOf root config files).files = (recognized files).zipIdx.map fun numbered =>
      sourceFile root config numbered.2 numbered.1.2 numbered.1.1 := rfl
  rw [hfiles, indexOf, recognized_blanked, List.zipIdx_map, List.map_map, List.map_map]
  refine congrArg Index.ofFiles (List.map_congr_left fun numbered hmem => ?_)
  obtain ⟨⟨given, language⟩, id⟩ := numbered
  exact sourceFile_blanked (hu (sourceFile root config id language given)
    (List.mem_map.2 ⟨_, hmem, rfl⟩))

end Project

namespace Index
open Node

/-- The second index holds the files of the first without some of their comments, and the same
symbols. -/
structure Blanks (bs : FileId → Blanking) (i j : Index) : Prop where
  files : j.files = i.files.map fun f => f.blanked (bs f.id)
  symbols : j.symbols = i.symbols
  /-- No comment stands where a declaration is read. -/
  off : ∀ f ∈ i.files, f.OffDeclarations (bs f.id)
  /-- Only Kotlin files differ. -/
  java : ∀ f ∈ i.files, f.language = .java → f.blanked (bs f.id) = f
  consistent : i.Consistent
  tables : j = ofParts j.files j.symbols

/-- **Files declare the same symbols when comments are left out.** -/
theorem blanks_ofFiles {bs : FileId → Blanking} {files : List SourceFile}
    (hi : (ofFiles files).Consistent) (hoff : ∀ f ∈ files, f.OffDeclarations (bs f.id))
    (hjava : ∀ f ∈ files, f.language = .java → f.blanked (bs f.id) = f) :
    Blanks bs (ofFiles files) (ofFiles (files.map fun f => f.blanked (bs f.id))) where
  files := rfl
  symbols := by
    change (files.map fun f => f.blanked (bs f.id)).flatMap SourceFile.symbols =
      files.flatMap SourceFile.symbols
    rw [List.flatMap_map]
    exact List.flatMap_congr fun f hf => SourceFile.symbols_blanked (hoff f hf) (hjava f hf)
  off := hoff
  java := hjava
  consistent := hi
  tables := rfl

/-- No comment stands at the first byte of the symbol's declaration. -/
def Clear (bs : FileId → Blanking) (i : Index) (s : Symbol) : Prop :=
  ∀ f ∈ i.files, s.declaration.file = f.id → f.ClearAt (bs f.id) s.declaration.start

/-- What is left of a file and one of its places. -/
def leftAt (bs : FileId → Blanking) (p : SourceFile × Node) : SourceFile × Node :=
  (p.1.blanked (bs p.1.id), p.2.without (bs p.1.id).out)

namespace Blanks

variable {bs : FileId → Blanking} {i j : Index} (h : Blanks bs i j)
include h

theorem file?_eq (id : FileId) : j.file? id = (i.file? id).map fun f => f.blanked (bs f.id) := by
  rw [file?, file?, h.files, List.getElem?_map]

/-- What is made of the symbols alone is the same. -/
theorem table_eq {α : Type} (table : Index → α) {make : List Symbol → α}
    (hmake : ∀ files symbols, table (ofParts files symbols) = make symbols) : table j = table i :=
  calc table j = make j.symbols := by rw [← hmake j.files, ← h.tables]
    _ = make i.symbols := by rw [h.symbols]
    _ = table i := by rw [← hmake i.files, ← h.consistent.tables]

theorem findByName : j.findByName = i.findByName := by
  funext name
  rw [Index.findByName, Index.findByName, h.table_eq byName fun _ _ => rfl]

theorem findByQualifiedName : j.findByQualifiedName = i.findByQualifiedName := by
  funext name
  rw [Index.findByQualifiedName, Index.findByQualifiedName,
    h.table_eq byQualifiedName fun _ _ => rfl]

theorem membersOf : j.membersOf = i.membersOf := by
  funext owner
  rw [Index.membersOf, Index.membersOf, h.table_eq byParent fun _ _ => rfl]

theorem topLevelIn : j.topLevelIn = i.topLevelIn := by
  funext id
  rw [Index.topLevelIn, Index.topLevelIn, h.table_eq topLevelByFile fun _ _ => rfl]

theorem symbol? : j.symbol? = i.symbol? := by
  funext handle
  rw [Index.symbol?, Index.symbol?, h.table_eq byHandle fun _ _ => rfl]

theorem classifierAt? : j.classifierAt? = i.classifierAt? := by
  funext k
  rw [Index.classifierAt?, Index.classifierAt?, symbolsAt, symbolsAt,
    h.table_eq byDeclaration fun _ _ => rfl]

/-! ### Declarations of symbols -/

/-- A symbol that is declared by a place of what is left of a file. -/
theorem clear_of_keyOf {f : SourceFile} (hf : f ∈ i.files) {m : Node}
    (hm : Within (f.blanked (bs f.id)).tree m) {s : Symbol}
    (hs : s.declaration = (f.blanked (bs f.id)).keyOf m) : Clear bs i s := by
  intro g hg hid
  have hoff := h.off f hf
  obtain ⟨n, hn, rfl⟩ := hoff.exists_of_within_without hm
  rw [SourceFile.keyOf_blanked hoff hn] at hs
  have hstart : s.declaration.start = n.start := by rw [hs, SourceFile.keyOf_start]
  rw [hstart]
  have hid : f.id = g.id := by
    rw [hs] at hid
    exact hid
  obtain rfl : f = g := by
    have hfound := h.consistent.file?_id hf
    rw [hid, h.consistent.file?_id hg] at hfound
    exact (Option.some.inj hfound).symm
  exact SourceFile.clearAt_start hoff hn

/-- **No comment stands at the declaration of an indexed symbol.** -/
theorem clear_of_mem {s : Symbol} (hs : s ∈ i.symbols) : Clear bs i s := by
  obtain ⟨f, hf, hsf⟩ := h.consistent.sourced s hs
  rw [← SourceFile.symbols_blanked (h.off f hf) (h.java f hf)] at hsf
  obtain ⟨m, hm, hd, -⟩ := SourceFile.exists_place hsf
  exact h.clear_of_keyOf hf hm hd

/-- **The declaration of a symbol is the same node.** -/
theorem anchor?_eq {s : Symbol} (hs : Clear bs i s) :
    j.anchor? s = (i.anchor? s).map (leftAt bs) ∧
      ∀ p ∈ i.anchor? s, p.1 ∈ i.files ∧ Stays (bs p.1.id).out p.1.tree p.2 := by
  rw [anchor?, anchor?, h.file?_eq]
  cases hfile : i.file? s.handle.file with
  | none => exact ⟨rfl, fun p hp => absurd hp (Option.not_mem_none p)⟩
  | some f =>
      have hf : f ∈ i.files := List.mem_of_getElem? hfile
      have hoff := h.off f hf
      have hnode : (f.blanked (bs f.id)).nodeFor? s.declaration =
            (f.nodeFor? s.declaration).map (without (bs f.id).out) ∧
          ∀ n ∈ f.nodeFor? s.declaration, Stays (bs f.id).out f.tree n := by
        by_cases hid : s.declaration.file = f.id
        · exact SourceFile.nodeFor?_blanked hoff (hs f hf hid)
        · have hnone : ∀ g : SourceFile, g.id = f.id → g.nodeFor? s.declaration = none := by
            intro g hg
            rw [SourceFile.nodeFor?, if_pos (.inl (by rw [hg]; exact hid))]
          rw [hnone f rfl, hnone (f.blanked (bs f.id)) rfl]
          exact ⟨rfl, fun n hn => absurd hn (Option.not_mem_none n)⟩
      refine ⟨?_, fun p hp => ?_⟩
      · simp only [Option.map_some, hnode.1, leftAt]
        cases f.nodeFor? s.declaration <;> rfl
      · obtain rfl := Option.some.inj hp
        refine ⟨hf, ?_⟩
        change Stays (bs f.id).out f.tree ((f.nodeFor? s.declaration).getD f.top)
        cases hn : f.nodeFor? s.declaration with
        | none => exact hoff.top
        | some n => exact hnode.2 n hn

end Blanks

end Index

end Crossref
