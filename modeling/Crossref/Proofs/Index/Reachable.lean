import Crossref.Project
import Crossref.Proofs.Java.Symbols
import Crossref.Proofs.Kotlin.Symbols

/-!
# Proofs — index — the indexes that are built

An index is built from files at once and then changed by reading single files anew.  Every index
that is made in this way is consistent: its tables are those of its files and symbols, a file's
number is its place, every file has its document, and every symbol is one that a file declares.
So the declaration of a symbol leads to a file and to a place of the file's tree.

* `Reachable.consistent`: every index that is built is consistent.
* `Consistent.exists_place`: an indexed symbol is declared by a place of an indexed file's tree.
-/

namespace Crossref

namespace SourceFile

variable {f : SourceFile} {n : Node} {s : Symbol}

/-- The node of the file introduces the symbol, in the language of the file. -/
def Introduces (f : SourceFile) (n : Node) (s : Symbol) : Prop :=
  match f.language with
  | .kotlin => Kotlin.Introduces f n s
  | .java => Java.Introduces f n s

/-- **Every symbol of a file is introduced by a place of its tree.** -/
theorem exists_introduces (h : s ∈ f.symbols) : ∃ n, Node.Within f.tree n ∧ f.Introduces n s := by
  unfold symbols at h
  unfold Introduces
  cases hl : f.language with
  | kotlin =>
      rw [hl] at h
      exact Kotlin.exists_introduces h
  | java =>
      rw [hl] at h
      exact Java.exists_introduces h

/-- The symbol is declared by the key of the node and belongs to the file, as does its class. -/
theorem Introduces.declaredBy (h : f.Introduces n s) :
    s.declaration = f.keyOf n ∧ s.handle.file = f.id ∧ ∀ p ∈ s.parent, p.file = f.id := by
  unfold Introduces at h
  cases hl : f.language with
  | kotlin =>
      rw [hl] at h
      obtain ⟨hd, hf, hp⟩ := (Kotlin.Introduces.traits h).toDeclaredBy
      exact ⟨by rw [hd, keyOf, hl]; rfl, hf, hp⟩
  | java =>
      rw [hl] at h
      obtain ⟨hd, hf, hp⟩ := (Java.Introduces.traits h).toDeclaredBy
      exact ⟨by rw [hd, keyOf, hl]; rfl, hf, hp⟩

/-- **Every symbol of a file is declared by a place of its tree.** -/
theorem exists_place (h : s ∈ f.symbols) :
    ∃ n, Node.Within f.tree n ∧ s.declaration = f.keyOf n ∧ s.handle.file = f.id := by
  obtain ⟨n, hn, hi⟩ := exists_introduces h
  exact ⟨n, hn, hi.declaredBy.1, hi.declaredBy.2.1⟩

end SourceFile

namespace Index

/-- The index is built from the files of a project, or reads one file of another index anew. -/
inductive Reachable : Index → Prop where
  | built (root : Path) (config : Config) (files : List ParsedText) :
      Reachable (Project.indexOf root config files)
  | updated {root : Path} {config : Config} {given : ParsedText} {i j : Index}
      (hi : Reachable i) (h : Project.updateIndex root config i given = .ok j) : Reachable j

/-- What holds of every index that is built. -/
structure Consistent (i : Index) : Prop where
  /-- The tables are those of the files and the symbols. -/
  tables : i = ofParts i.files i.symbols
  /-- A file's number is its place. -/
  numbered : ∀ (k : Nat) (f : SourceFile), i.files[k]? = some f → f.id = k
  /-- Every file has its document. -/
  attached : ∀ f ∈ i.files, f.attached = true
  /-- Every symbol is one that a file declares. -/
  sourced : ∀ s ∈ i.symbols, ∃ f ∈ i.files, s ∈ f.symbols

/-! ### Building and updating -/

theorem id_sourceFile (root : Path) (config : Config) (id : FileId) (language : Language)
    (given : ParsedText) : (Project.sourceFile root config id language given).id = id := rfl

theorem attached_sourceFile (root : Path) (config : Config) (id : FileId) (language : Language)
    (given : ParsedText) : (Project.sourceFile root config id language given).attached = true := rfl

theorem consistent_indexOf (root : Path) (config : Config) (files : List ParsedText) :
    Consistent (Project.indexOf root config files) where
  tables := rfl
  numbered k f h := by
    change (List.map _ _)[k]? = some f at h
    rw [List.getElem?_map] at h
    obtain ⟨⟨given, j⟩, hj, rfl⟩ := Option.map_eq_some_iff.1 h
    rw [List.getElem?_zipIdx, Nat.zero_add] at hj
    obtain ⟨_, -, hgiven⟩ := Option.map_eq_some_iff.1 hj
    exact (congrArg Prod.snd hgiven).symm
  attached f h := by
    obtain ⟨⟨given, j⟩, -, rfl⟩ := List.mem_map.1 h
    exact attached_sourceFile _ _ _ _ _
  sourced s h := List.mem_flatMap.1 h

theorem Consistent.file?_id {i : Index} (hi : Consistent i) {f : SourceFile} (hf : f ∈ i.files) :
    i.file? f.id = some f := by
  obtain ⟨k, hk⟩ := List.getElem?_of_mem hf
  rw [hi.numbered k f hk]
  exact hk

/-- Reading a file anew changes the file with its number, or adds one behind all of them. -/
theorem getElem?_files_replaceFile {i : Index} {f : SourceFile} (hid : f.id ≤ i.files.length)
    (k : Nat) : (i.replaceFile f).files[k]? = if k = f.id then some f else i.files[k]? := by
  change (if f.id < i.files.length then i.files.set f.id f else i.files ++ [f])[k]? = _
  split
  · next hlt =>
    rw [List.getElem?_set]
    by_cases hk : f.id = k
    · simp [hk, hk ▸ hlt]
    · simp [hk, Ne.symm hk]
  · next hge =>
    rw [Nat.le_antisymm hid (Nat.le_of_not_lt hge)]
    rcases Nat.lt_trichotomy k i.files.length with hk | hk | hk
    · rw [List.getElem?_append_left hk, if_neg (Nat.ne_of_lt hk)]
    · rw [hk, List.getElem?_concat_length, if_pos rfl]
    · rw [if_neg (Nat.ne_of_gt hk), List.getElem?_eq_none (Nat.le_of_lt hk)]
      exact List.getElem?_eq_none (by simpa using Nat.succ_le_of_lt hk)

/-- Reading a file anew, in the place of another or behind all of them, keeps an index
consistent. -/
theorem Consistent.replaceFile {i : Index} (hi : Consistent i) {f : SourceFile}
    (hid : f.id ≤ i.files.length) (ha : f.attached = true) : Consistent (i.replaceFile f) := by
  have hfiles := getElem?_files_replaceFile hid
  refine ⟨rfl, fun k g h => ?_, fun g hg => ?_, fun s hs => ?_⟩
  · rw [hfiles] at h
    split at h
    · next hk => cases h; exact hk.symm
    · exact hi.numbered k g h
  · obtain ⟨k, hk⟩ := List.getElem?_of_mem hg
    rw [hfiles] at hk
    split at hk
    · cases hk; exact ha
    · exact hi.attached g (List.mem_of_getElem? hk)
  · change s ∈ (i.symbols.filter fun s => s.handle.file != f.id) ++ f.symbols at hs
    rcases List.mem_append.1 hs with hs | hs
    · obtain ⟨hs, hne⟩ := List.mem_filter.1 hs
      obtain ⟨g, hg, hsg⟩ := hi.sourced s hs
      obtain ⟨k, hk⟩ := List.getElem?_of_mem hg
      -- the file of a symbol that stays is not the one that is read anew
      obtain ⟨-, -, -, hfile⟩ := SourceFile.exists_place hsg
      have hkf : k ≠ f.id := by
        rintro rfl
        simp [hfile, hi.numbered _ g hk] at hne
      exact ⟨g, List.mem_of_getElem? ((hfiles k).trans (if_neg hkf ▸ hk)), hsg⟩
    · exact ⟨f, List.mem_of_getElem? ((hfiles f.id).trans (if_pos rfl)), hs⟩

/-- What is given is read in the place of another file or behind all of them. -/
theorem Consistent.exists_replaceFile {root : Path} {config : Config} {given : ParsedText}
    {i j : Index} (hi : Consistent i) (h : Project.updateIndex root config i given = .ok j) :
    ∃ f, f.id ≤ i.files.length ∧ f.attached = true ∧ j = i.replaceFile f := by
  unfold Project.updateIndex at h
  split at h
  · cases h
  · next language _ =>
    cases h
    refine ⟨_, ?_, attached_sourceFile _ _ _ _ _, rfl⟩
    rw [id_sourceFile]
    split
    · next f hf =>
      obtain ⟨g, -, hg⟩ := Option.bind_eq_some_iff.1 hf
      have hid := hi.numbered _ _ hg
      exact Nat.le_of_lt (hid ▸ (List.getElem?_eq_some_iff.1 hg).1)
    · exact Nat.le_refl _

theorem Consistent.updateIndex {root : Path} {config : Config} {given : ParsedText} {i j : Index}
    (hi : Consistent i) (h : Project.updateIndex root config i given = .ok j) : Consistent j := by
  obtain ⟨f, hid, hattached, rfl⟩ := hi.exists_replaceFile h
  exact hi.replaceFile hid hattached

/-- **Every index that is built is consistent.** -/
theorem Reachable.consistent {i : Index} (h : Reachable i) : Consistent i := by
  induction h with
  | built root config files => exact consistent_indexOf root config files
  | updated _ h ih => exact ih.updateIndex h

/-! ### Every symbol of a file is indexed -/

theorem Consistent.mem_symbols_replaceFile {i : Index} (hi : Consistent i) {f : SourceFile}
    (hid : f.id ≤ i.files.length) (hall : ∀ g ∈ i.files, ∀ s ∈ g.symbols, s ∈ i.symbols) :
    ∀ g ∈ (i.replaceFile f).files, ∀ s ∈ g.symbols, s ∈ (i.replaceFile f).symbols := by
  intro g hg s hs
  change s ∈ (i.symbols.filter fun s => s.handle.file != f.id) ++ f.symbols
  obtain ⟨k, hk⟩ := List.getElem?_of_mem hg
  rw [getElem?_files_replaceFile hid] at hk
  split at hk
  · cases hk
    exact List.mem_append_right _ hs
  · next hne =>
    -- the symbols of another file have its number and stay
    obtain ⟨-, -, -, hfile⟩ := SourceFile.exists_place hs
    have hother : s.handle.file ≠ f.id := by rwa [hfile, hi.numbered k g hk]
    exact List.mem_append_left _
      (List.mem_filter.2 ⟨hall g (List.mem_of_getElem? hk) s hs, by simpa using hother⟩)

/-- **Every symbol that an indexed file declares is indexed.** -/
theorem Reachable.mem_symbols {i : Index} (hi : Reachable i) :
    ∀ f ∈ i.files, ∀ s ∈ f.symbols, s ∈ i.symbols := by
  induction hi with
  | built root config files => exact fun f hf s hs => List.mem_flatMap.2 ⟨f, hf, hs⟩
  | updated hi h ih =>
      obtain ⟨f, hid, -, rfl⟩ := hi.consistent.exists_replaceFile h
      exact hi.consistent.mem_symbols_replaceFile hid ih

/-! ### Origins -/

/-- A project's files are those of its sources and libraries. -/
theorem origin_sourceFile_ne (root : Path) (config : Config) (id : FileId) (language : Language)
    (given : ParsedText) :
    (Project.sourceFile root config id language given).origin ≠ .synthetic := by
  change (config.originOf root given.path language).1 ≠ .synthetic
  unfold Config.originOf
  cases language <;> (repeat' split) <;> simp

theorem mem_files_replaceFile {i : Index} {f g : SourceFile} (h : g ∈ (i.replaceFile f).files) :
    g ∈ i.files ∨ g = f := by
  change g ∈ (if f.id < i.files.length then i.files.set f.id f else i.files ++ [f]) at h
  split at h
  · exact List.mem_or_eq_of_mem_set h
  · exact (List.mem_append.1 h).imp_right List.mem_singleton.1

/-- **No indexed file is synthetic.** -/
theorem Reachable.origin_ne {i : Index} (hi : Reachable i) :
    ∀ f ∈ i.files, f.origin ≠ .synthetic := by
  induction hi with
  | built root config files =>
      intro f hf
      obtain ⟨⟨given, id⟩, -, rfl⟩ := List.mem_map.1 hf
      exact origin_sourceFile_ne root config id given.2 given.1
  | updated hi h ih =>
      intro f hf
      unfold Project.updateIndex at h
      split at h
      · cases h
      · cases h
        rcases mem_files_replaceFile hf with hf | rfl
        · exact ih f hf
        · exact origin_sourceFile_ne _ _ _ _ _

/-! ### What the tables lead to -/

section Tables

variable {i : Index} (hi : Consistent i)
include hi

/-- Every member of a classifier is an indexed symbol. -/
theorem Consistent.mem_of_membersOf {h : Handle} {s : Symbol} (hs : s ∈ i.membersOf h) :
    s ∈ i.symbols := by
  rw [hi.tables, membersOf_ofParts] at hs
  exact (List.mem_filter.1 hs).1

theorem Consistent.mem_of_findByName {name : String} {s : Symbol} (hs : s ∈ i.findByName name) :
    s ∈ i.symbols := by
  rw [hi.tables, findByName_ofParts] at hs
  exact (List.mem_filter.1 hs).1

theorem Consistent.mem_of_findByQualifiedName {name : String} {s : Symbol}
    (hs : s ∈ i.findByQualifiedName name) : s ∈ i.symbols := by
  rw [hi.tables, findByQualifiedName_ofParts] at hs
  exact (List.mem_filter.1 hs).1

theorem Consistent.mem_of_topLevelIn {id : FileId} {s : Symbol} (hs : s ∈ i.topLevelIn id) :
    s ∈ i.symbols := by
  rw [hi.tables, topLevelIn_ofParts] at hs
  exact (List.mem_filter.1 hs).1

/-- **An indexed symbol is found by its handle**, or another one that has the same handle. -/
theorem Consistent.isSome_symbol? {s : Symbol} (hs : s ∈ i.symbols) :
    (i.symbol? s.handle).isSome = true := by
  rw [hi.tables, symbol?_ofParts, List.getLast?_isSome]
  exact List.ne_nil_of_mem (List.mem_filter.2 ⟨hs, by simp⟩)

end Tables

/-! ### From a symbol to its declaration -/

/-- **An indexed symbol is declared by a place of an indexed file's tree**, and the file is found
by the number in the declaration. -/
theorem Consistent.exists_place {i : Index} (hi : Consistent i) {s : Symbol} (hs : s ∈ i.symbols) :
    ∃ f n, i.file? s.declaration.file = some f ∧ f ∈ i.files ∧ s ∈ f.symbols ∧
      Node.Within f.tree n ∧ s.declaration = f.keyOf n := by
  obtain ⟨f, hf, hsf⟩ := hi.sourced s hs
  obtain ⟨n, hn, hd, -⟩ := SourceFile.exists_place hsf
  refine ⟨f, n, ?_, hf, hsf, hn, hd⟩
  rw [hd]
  exact hi.file?_id hf

/-- The file that is found by the number in a declaration has the declaration in its tree. -/
theorem Consistent.place_of_file? {i : Index} (hi : Consistent i) {s : Symbol} (hs : s ∈ i.symbols)
    {f : SourceFile} (hf : i.file? s.declaration.file = some f) :
    f ∈ i.files ∧ s ∈ f.symbols ∧ ∃ n, Node.Within f.tree n ∧ s.declaration = f.keyOf n := by
  obtain ⟨g, n, hg, hgf, hsg, hn, hd⟩ := hi.exists_place hs
  obtain rfl : g = f := Option.some.inj (hg.symm.trans hf)
  exact ⟨hgf, hsg, n, hn, hd⟩

end Index

end Crossref
