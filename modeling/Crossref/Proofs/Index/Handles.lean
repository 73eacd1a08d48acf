import Crossref.Proofs.Index.Members
import Crossref.Proofs.Index.Updates
import Crossref.Proofs.Java.Handles
import Crossref.Proofs.Kotlin.Handles

/-!
# Proofs — index — handles identify symbols

A handle carries the number of a file, so handles of different files differ, and within a file they
differ when no two declarations have the same key and no class is both a data class and an enum.  So
an indexed symbol is found by its own handle, and those who point to one handle are members of the
one class that has it.

* `Reachable.filter_symbols`: the symbols with a file's number are those of the file.
* `Reachable.handles_identify`: what handles are good for.
-/

namespace Crossref

namespace SourceFile
open Node

variable {f : SourceFile}

/-- **The handles of a file's symbols are different.** -/
theorem nodup_handles (hkeys : f.KeysDiffer)
    (hmods : f.language = .kotlin → Kotlin.NoDataEnum f) :
    (f.symbols.map Symbol.handle).Nodup := by
  unfold symbols
  cases hl : f.language with
  | kotlin => exact (Kotlin.keyed_symbols hl hkeys (hmods hl)).nodup
  | java => exact (Java.keyed_symbols hl hkeys).nodup

theorem IsClassNode.isDeclaration {n : Node} (h : f.IsClassNode n) : f.IsDeclaration n := by
  unfold IsClassNode at h
  unfold IsDeclaration
  cases hl : f.language with
  | kotlin =>
      rw [hl] at h
      have hkind := (Kotlin.kind_of_mem_classKinds h).2
      have hmem := (show Kotlin.classKinds ⊆ Kotlin.declarationKinds by decide) h
      simp [Kotlin.isCaretDeclaration, hkind, hmem]
  | java =>
      rw [hl] at h
      exact (show Java.classKinds ⊆ Java.declarationKinds by decide) h

/-- A class is introduced by one node only. -/
theorem Owns.node_unique (hkeys : f.KeysDiffer) {n n' m m' : Node} {c s t : Symbol}
    (h : f.Owns n c m s) (h' : f.Owns n' c m' t) : n = n' := by
  refine hkeys n n' h.within h'.within h.isClass.isDeclaration h'.isClass.isDeclaration ?_
  rw [← h.introduced.declaredBy.1, ← h'.introduced.declaredBy.1]

end SourceFile

namespace Index

/-- Symbols have different handles when those of each file do. -/
theorem nodup_handles_of_files {l : List Symbol}
    (h : ∀ id, ((l.filter (·.handle.file == id)).map Symbol.handle).Nodup) :
    (l.map Symbol.handle).Nodup := by
  refine List.pairwise_map.2 (List.pairwise_iff_forall_sublist.2 fun {s t} hst heq => ?_)
  have hfile := hst.filter (·.handle.file == s.handle.file)
  rw [List.filter_eq_self.2 (by simp [heq])] at hfile
  have hpairwise := List.pairwise_map.1 (h s.handle.file)
  exact List.pairwise_iff_forall_sublist.1 hpairwise hfile heq

variable {i : Index}

/-- **The symbols with a file's number are those of the file.** -/
theorem Reachable.filter_symbols (hi : i.Reachable) :
    ∀ f ∈ i.files, i.symbols.filter (·.handle.file == f.id) = f.symbols := by
  induction hi with
  | built root config files => exact fun f hf => Project.filter_symbols_indexOf hf
  | updated hi h ih =>
      obtain ⟨f, hid, -, rfl⟩ := hi.consistent.exists_replaceFile h
      exact fun g hg => hi.consistent.filter_symbols_replaceFile hid ih hg

/-- **Indexed symbols have different handles**, when those of each file have. -/
theorem Reachable.nodup_handles (hi : i.Reachable)
    (hfiles : ∀ f ∈ i.files, (f.symbols.map Symbol.handle).Nodup) :
    (i.symbols.map Symbol.handle).Nodup := by
  refine nodup_handles_of_files fun id => ?_
  by_cases hid : ∃ f ∈ i.files, f.id = id
  · obtain ⟨f, hf, rfl⟩ := hid
    rw [hi.filter_symbols f hf]
    exact hfiles f hf
  · have hnone : i.symbols.filter (·.handle.file == id) = [] := by
      refine List.filter_eq_nil_iff.2 fun s hs heq => hid ?_
      obtain ⟨f, hf, hsf⟩ := hi.consistent.sourced s hs
      exact ⟨f, hf, (SourceFile.standsIn hsf).handle.symm.trans (beq_iff_eq.1 heq)⟩
    rw [hnone]
    exact List.nodup_nil

/-- Where handles differ a symbol is found by its own. -/
theorem Consistent.symbol?_handle (hi : i.Consistent) (hnodup : (i.symbols.map Symbol.handle).Nodup)
    {s : Symbol} (hs : s ∈ i.symbols) : i.symbol? s.handle = some s := by
  obtain ⟨t, ht⟩ := Option.isSome_iff_exists.1 (hi.isSome_symbol? hs)
  have hfound := ht
  rw [hi.tables, symbol?_ofParts] at hfound
  obtain ⟨htmem, htest⟩ := List.mem_filter.1 (List.mem_of_getLast? hfound)
  rw [ht, List.inj_on_of_nodup_map hnodup htmem hs (beq_iff_eq.1 htest)]

/-- The symbols that have the handle as their parent. -/
theorem Consistent.mem_membersOf_iff (hi : i.Consistent) {h : Handle} {s : Symbol} :
    s ∈ i.membersOf h ↔ s ∈ i.symbols ∧ s.parent = some h := by
  rw [hi.tables, membersOf_ofParts, List.mem_filter, beq_iff_eq]
  rfl

/-- **Handles identify symbols.**  For every index that is built and updated, where no two
declarations of a file have the same key and no class is both a data class and an enum: the indexed
symbols have different handles, each is found by its own, and all members of a handle are owned by
one class of one file, the one that is found by the handle. -/
theorem Reachable.handles_identify (hi : i.Reachable) (hkeys : ∀ f ∈ i.files, f.KeysDiffer)
    (hmods : ∀ f ∈ i.files, f.language = .kotlin → Kotlin.NoDataEnum f) :
    (i.symbols.map Symbol.handle).Nodup ∧
    (∀ s ∈ i.symbols, i.symbol? s.handle = some s) ∧
    ∀ h, i.membersOf h ≠ [] → ∃ f ∈ i.files, ∃ n c, i.symbol? h = some c ∧
      ∀ s ∈ i.membersOf h, ∃ m, f.Owns n c m s := by
  have hnodup := hi.nodup_handles fun f hf => SourceFile.nodup_handles (hkeys f hf) (hmods f hf)
  refine ⟨hnodup, fun s => hi.consistent.symbol?_handle hnodup, fun h hne => ?_⟩
  -- every member has a class with the handle, and there is one symbol with it only
  have howner : ∀ s ∈ i.membersOf h, ∃ f ∈ i.files, ∃ n c m, f.Owns n c m s ∧ c ∈ i.symbols ∧
      c.handle = h := by
    intro s hs
    obtain ⟨hs, hp⟩ := hi.consistent.mem_membersOf_iff.1 hs
    obtain ⟨f, hf, hsf⟩ := hi.consistent.sourced s hs
    obtain ⟨n, c, m, howns, -⟩ := SourceFile.exists_class hsf (by simp [hp])
    exact ⟨f, hf, n, c, m, howns, hi.mem_symbols f hf c howns.mem,
      Option.some.inj (howns.parent.symm.trans hp)⟩
  obtain ⟨s, hs⟩ := List.exists_mem_of_ne_nil _ hne
  obtain ⟨f, hf, n, c, m, howns, hc, hch⟩ := howner s hs
  have hfound : i.symbol? h = some c := hch ▸ hi.consistent.symbol?_handle hnodup hc
  refine ⟨f, hf, n, c, hfound, fun t ht => ?_⟩
  obtain ⟨g, hg, n', c', m', howns', hc', hch'⟩ := howner t ht
  obtain rfl := List.inj_on_of_nodup_map hnodup hc hc' (hch.trans hch'.symm)
  have hid : f.id = g.id := by
    rw [← (SourceFile.standsIn howns.mem).handle, ← (SourceFile.standsIn howns'.mem).handle]
  obtain rfl : f = g := by
    have hsame := hi.consistent.file?_id hf
    rw [hid, hi.consistent.file?_id hg] at hsame
    exact (Option.some.inj hsame).symm
  obtain rfl := howns.node_unique (hkeys f hf) howns'
  exact ⟨m', howns'⟩

/-! ### A data class and two fields -/

namespace DataAndFields

/-- ```
data class P(val x: Int, val y: Int)
``` -/
def text : String := "data class P(val x: Int, val y: Int)\n"

/-- A parameter `val x: Int` of one letter. -/
def parameter (start : Nat) : Tree :=
  .named "class_parameter" start (start + 10)
    [.named "binding_pattern_kind" start (start + 3) [.token "val" start (start + 3)],
     .named "simple_identifier" (start + 4) (start + 5) [], .token ":" (start + 5) (start + 6),
     .named "user_type" (start + 7) (start + 10)
      [.named "type_identifier" (start + 7) (start + 10) []]]

def tree : Tree :=
  .named "source_file" 0 36
    [.named "class_declaration" 0 36
      [.named "modifiers" 0 4 [.named "class_modifier" 0 4 [.token "data" 0 4]],
       .token "class" 5 10, .named "type_identifier" 11 12 [],
       .named "primary_constructor" 12 36
        [.token "(" 12 13, parameter 13, .token "," 23 24, parameter 25, .token ")" 35 36]]]

/-- The data class and, behind it, a Java enum with two fields in one declaration. -/
def index : Index :=
  Project.indexOf ⟨"/p"⟩ {} [⟨⟨"/p/P.kt"⟩, text, tree⟩,
    ⟨⟨"/p/E.java"⟩, SourceFile.EnumWithFields.text, SourceFile.EnumWithFields.tree⟩]

/-- The handle of the data class. -/
def dataClass : Handle := ⟨0, 0, 36, .plainClass, 0⟩

end DataAndFields

open DataAndFields in
theorem Reachable.handles_identify_dataClass :
    (∀ f ∈ index.files, f.KeysDiffer) ∧
      (∀ f ∈ index.files, f.language = .kotlin → Kotlin.NoDataEnum f) ∧
      index.symbols.map (fun s => (s.name, s.handle.slot)) =
        [("x", 0), ("y", 0), ("<init>", 0), ("component1", 1), ("component2", 2), ("copy", 3),
          ("P", 0), ("<init>", 0), ("E", 0), ("A", 0), ("x", 0), ("y", 1)] ∧
      (index.symbols.map Symbol.handle).Nodup ∧
      (∀ s ∈ index.symbols, index.symbol? s.handle = some s) ∧
      index.membersOf dataClass ≠ [] ∧
      ∃ f ∈ index.files, ∃ n c, index.symbol? dataClass = some c ∧
        ∀ s ∈ index.membersOf dataClass, ∃ m, f.Owns n c m s := by
  have hnodup : ∀ f ∈ index.files,
      ((f.top.preorder.filter fun n => f.IsDeclaration n).map f.keyOf).Nodup := by decide
  have hkeys : ∀ f ∈ index.files, f.KeysDiffer := fun f hf =>
    SourceFile.keysDiffer_of_nodup (hnodup f hf)
  have hmods : ∀ f ∈ index.files, f.language = .kotlin → Kotlin.NoDataEnum f := by decide
  have hmember : ∃ s ∈ index.symbols, s.parent = some dataClass := by decide
  have hmembers : index.membersOf dataClass ≠ [] := by
    obtain ⟨s, hs⟩ := hmember
    exact List.ne_nil_of_mem ((Reachable.built _ _ _).consistent.mem_membersOf_iff.2 hs)
  obtain ⟨hdiffer, hfound, howned⟩ := Reachable.handles_identify (.built _ _ _) hkeys hmods
  exact ⟨hkeys, hmods, by decide, hdiffer, hfound, hmembers, howned _ hmembers⟩

end Index

end Crossref
