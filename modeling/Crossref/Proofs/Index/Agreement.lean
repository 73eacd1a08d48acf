import Crossref.Proofs.Index.Reachable
import Crossref.Resolve.Level

/-!
# Proofs — index — indexes that answer alike

Two indexes agree when every look-up gives the same, up to one: a name that several declarations
have is never looked at in their order, so that only the answers for names that stand for one
declaration are compared.  Reading a file anew with the text it had moves the symbols of the file
behind all others and changes nothing else.  Handles, keys and classes of symbols tell the files
apart, so that a look-up by one of these finds symbols of one file and does not notice; and neither
does a look-up by qualified name, as long as nothing behind the file shares a qualified name with
it.

* `Agree.of_moved`: symbols that move behind others without a qualified name in common.
* `Agree.replaceFile`: reading a file anew with the text it had.
* `replaceFile_replaceFile`: reading a file twice is reading it once.
-/

namespace Crossref

/-! ### Lists -/

/-- What a property picks does not depend on the order of two blocks, when it picks from one of them
at most. -/
theorem filter_append_swap {α : Type} {q : α → Bool} {before xs ys : List α}
    (h : ∀ x ∈ xs, ∀ y ∈ ys, q x = true → q y = true → False) :
    (before ++ (xs ++ ys)).filter q = (before ++ (ys ++ xs)).filter q := by
  simp only [List.filter_append]
  cases hx : xs.filter q with
  | nil => simp
  | cons x rest =>
      obtain ⟨hx, hqx⟩ := List.mem_filter.1 (hx ▸ List.mem_cons_self : x ∈ xs.filter q)
      have hys : ys.filter q = [] :=
        List.filter_eq_nil_iff.2 fun y hy hqy => h x hx y hy hqx hqy
      rw [hys, List.append_nil, List.nil_append]

namespace Resolve

/-- Symbols that stand for one declaration have the same declaration. -/
theorem declaration_eq_of_oneDeclaration {symbols : List Symbol}
    (h : oneDeclaration symbols = true) {s t : Symbol} (hs : s ∈ symbols) (ht : t ∈ symbols) :
    s.declaration = t.declaration := by
  obtain ⟨k, hk⟩ := List.length_eq_one_iff.1 (by simpa [oneDeclaration] using h)
  have only : ∀ u ∈ symbols, u.declaration = k := fun u hu => by
    have hmem := List.mem_eraseDups.2 (List.mem_map_of_mem (f := Symbol.declaration) hu)
    exact List.mem_singleton.1 (hk ▸ hmem)
  rw [only s hs, only t ht]

end Resolve

/-! ### Symbols of one file -/

/-- All that a symbol is looked up by, but for its names, belongs to the file with the number. -/
structure Symbol.StandsIn (id : FileId) (s : Symbol) : Prop where
  handle : s.handle.file = id
  declaration : s.declaration.file = id
  parent : ∀ p ∈ s.parent, p.file = id

theorem SourceFile.standsIn {f : SourceFile} {s : Symbol} (h : s ∈ f.symbols) :
    s.StandsIn f.id := by
  obtain ⟨n, -, hi⟩ := SourceFile.exists_introduces h
  obtain ⟨hd, hf, hp⟩ := hi.declaredBy
  exact ⟨hf, by rw [hd]; rfl, hp⟩

/-- The two symbols stand in different files. -/
def Symbol.InOtherFiles (s t : Symbol) : Prop :=
  ∃ k l, k ≠ l ∧ s.StandsIn k ∧ t.StandsIn l

namespace Symbol.InOtherFiles

variable {s t : Symbol} (h : s.InOtherFiles t)
include h

theorem handle_ne : s.handle ≠ t.handle := by
  obtain ⟨k, l, hkl, hs, ht⟩ := h
  intro e
  exact hkl (by rw [← hs.handle, ← ht.handle, e])

theorem declaration_ne : s.declaration ≠ t.declaration := by
  obtain ⟨k, l, hkl, hs, ht⟩ := h
  intro e
  exact hkl (by rw [← hs.declaration, ← ht.declaration, e])

theorem parent_ne {p : Handle} (hs : s.parent = some p) (ht : t.parent = some p) : False := by
  obtain ⟨k, l, hkl, hsk, htl⟩ := h
  exact hkl (by rw [← hsk.parent p hs, ← htl.parent p ht])

theorem topLevelFile_ne {id : FileId} (hs : Index.topLevelFile s = some id)
    (ht : Index.topLevelFile t = some id) : False := by
  obtain ⟨k, l, hkl, hsk, htl⟩ := h
  unfold Index.topLevelFile at hs ht
  split at hs
  · split at ht
    · rw [hsk.handle] at hs
      rw [htl.handle] at ht
      exact hkl (Option.some.inj (hs.trans ht.symm))
    · cases ht
  · cases hs

end Symbol.InOtherFiles

/-! ### Agreement -/

namespace Index

/-- The two indexes answer alike. -/
structure Agree (i j : Index) : Prop where
  file? : i.file? = j.file?
  fileForPath? : i.fileForPath? = j.fileForPath?
  symbol? : i.symbol? = j.symbol?
  symbolsAt : i.symbolsAt = j.symbolsAt
  findByQualifiedName : i.findByQualifiedName = j.findByQualifiedName
  membersOf : i.membersOf = j.membersOf
  topLevelIn : i.topLevelIn = j.topLevelIn
  /-- What is found by a name is compared where it stands for one declaration. -/
  unambiguous : ∀ (name : String) (p : Symbol → Bool),
    Resolve.unambiguous ((i.findByName name).filter p) =
      Resolve.unambiguous ((j.findByName name).filter p)

namespace Agree

variable {i j : Index} (h : Agree i j)
include h

theorem classifierAt? : i.classifierAt? = j.classifierAt? := by
  funext k
  rw [Index.classifierAt?, Index.classifierAt?, h.symbolsAt]

theorem anchor? : i.anchor? = j.anchor? := by
  funext s
  rw [Index.anchor?, Index.anchor?, h.file?]

theorem sourceEquivalent? : i.sourceEquivalent? = j.sourceEquivalent? := by
  funext s
  rw [Index.sourceEquivalent?, Index.sourceEquivalent?, h.findByQualifiedName, h.file?]

end Agree

/-! ### Symbols that move -/

section Moved

variable {files : List SourceFile} {before moved passed : List Symbol}
  (hfiles : ∀ s ∈ moved, ∀ t ∈ passed, s.InOtherFiles t)
include hfiles

/-- The symbols with a name that stand for one declaration do not notice the move: if some moved and
others were passed they stand for several. -/
theorem unambiguous_of_moved (q : Symbol → Bool) :
    Resolve.unambiguous ((before ++ (moved ++ passed)).filter q) =
      Resolve.unambiguous ((before ++ (passed ++ moved)).filter q) := by
  by_cases hboth : ∃ s ∈ moved, ∃ t ∈ passed, q s = true ∧ q t = true
  · -- one of each: in either order the symbols stand for several declarations
    obtain ⟨s, hs, t, ht, hqs, hqt⟩ := hboth
    have hne := (hfiles s hs t ht).declaration_ne
    have several : ∀ symbols : List Symbol, s ∈ symbols → t ∈ symbols →
        Resolve.unambiguous (symbols.filter q) = [] := by
      intro symbols hs ht
      refine if_neg fun hone => hne ?_
      exact Resolve.declaration_eq_of_oneDeclaration hone (List.mem_filter.2 ⟨hs, hqs⟩)
        (List.mem_filter.2 ⟨ht, hqt⟩)
    rw [several _ (by simp [hs]) (by simp [ht]), several _ (by simp [hs]) (by simp [ht])]
  · rw [filter_append_swap fun s hs t ht hqs hqt => hboth ⟨s, hs, t, ht, hqs, hqt⟩]

/-- What a property picks from symbols of one file only does not notice the move. -/
theorem filter_of_moved {q : Symbol → Bool}
    (h : ∀ s t : Symbol, s.InOtherFiles t → q s = true → q t = true → False) :
    (before ++ (moved ++ passed)).filter q = (before ++ (passed ++ moved)).filter q :=
  filter_append_swap fun s hs t ht => h s t (hfiles s hs t ht)

/-- **Symbols that move behind others** are found as before, when they stand in other files and
share no qualified name with them. -/
theorem Agree.of_moved
    (hnames : ∀ s ∈ moved, ∀ t ∈ passed, ∀ name, s.qualifiedName = some name →
      t.qualifiedName ≠ some name) :
    Agree (ofParts files (before ++ (moved ++ passed)))
      (ofParts files (before ++ (passed ++ moved))) where
  file? := rfl
  fileForPath? := rfl
  symbol? := by
    funext k
    rw [symbol?_ofParts, symbol?_ofParts, filter_of_moved hfiles]
    intro s t hst hs ht
    exact hst.handle_ne ((beq_iff_eq.1 hs).trans (beq_iff_eq.1 ht).symm)
  symbolsAt := by
    funext k
    rw [symbolsAt_ofParts, symbolsAt_ofParts, filter_of_moved hfiles]
    intro s t hst hs ht
    exact hst.declaration_ne ((beq_iff_eq.1 hs).trans (beq_iff_eq.1 ht).symm)
  findByQualifiedName := by
    -- a name does not tell the files apart, so here the names must differ
    funext name
    rw [findByQualifiedName_ofParts, findByQualifiedName_ofParts, filter_append_swap]
    intro s hs t ht hsn htn
    exact hnames s hs t ht name (beq_iff_eq.1 hsn) (beq_iff_eq.1 htn)
  membersOf := by
    funext k
    rw [membersOf_ofParts, membersOf_ofParts, filter_of_moved hfiles]
    intro s t hst hs ht
    exact hst.parent_ne (beq_iff_eq.1 hs) (beq_iff_eq.1 ht)
  topLevelIn := by
    funext id
    rw [topLevelIn_ofParts, topLevelIn_ofParts, filter_of_moved hfiles]
    intro s t hst hs ht
    exact hst.topLevelFile_ne (beq_iff_eq.1 hs) (beq_iff_eq.1 ht)
  unambiguous name p := by
    rw [findByName_ofParts, findByName_ofParts, List.filter_filter, List.filter_filter]
    exact unambiguous_of_moved hfiles _

end Moved

/-! ### Reading a file anew with the text it had -/

section Replaced

variable {i : Index} {f : SourceFile}

/-- Behind the file there is no declaration with a qualified name that it declares, too. -/
def LastOfItsNames (i : Index) (f : SourceFile) : Prop :=
  ∀ g ∈ i.files, f.id < g.id → ∀ s ∈ f.symbols, ∀ t ∈ g.symbols,
    s.qualifiedName ≠ none → s.qualifiedName ≠ t.qualifiedName

instance : Decidable (LastOfItsNames i f) :=
  inferInstanceAs (Decidable (∀ g ∈ i.files, f.id < g.id → ∀ s ∈ f.symbols, ∀ t ∈ g.symbols,
    s.qualifiedName ≠ none → s.qualifiedName ≠ t.qualifiedName))

/-- Files stand in the order of their numbers. -/
theorem Consistent.ascending (hi : Consistent i) : i.files.Pairwise fun g h => g.id < h.id := by
  refine List.pairwise_iff_getElem.2 fun k l hk hl hkl => ?_
  rw [hi.numbered k _ (List.getElem?_eq_getElem hk), hi.numbered l _ (List.getElem?_eq_getElem hl)]
  exact hkl

theorem Consistent.id_le (hi : Consistent i) (hf : f ∈ i.files) : f.id ≤ i.files.length :=
  Nat.le_of_lt (List.getElem?_eq_some_iff.1 (hi.file?_id hf)).1

/-- A file that is put in its own place leaves the files as they are. -/
theorem Consistent.files_replaceFile (hi : Consistent i) (hf : f ∈ i.files) :
    (i.replaceFile f).files = i.files := by
  refine List.ext_getElem? fun k => ?_
  -- at its own place there was the same file, and every other place is left alone
  rw [getElem?_files_replaceFile (hi.id_le hf)]
  split
  · next hk => rw [hk]; exact (hi.file?_id hf).symm
  · rfl

/-- The symbols of the files around a file are those that stay when it is read anew. -/
theorem filter_flatMap_symbols {files : List SourceFile} (h : ∀ g ∈ files, g.id ≠ f.id) :
    (files.flatMap SourceFile.symbols).filter (fun s => s.handle.file != f.id) =
      files.flatMap SourceFile.symbols := by
  refine List.filter_eq_self.2 fun s hs => ?_
  obtain ⟨g, hg, hs⟩ := List.mem_flatMap.1 hs
  exact bne_iff_ne.2 ((SourceFile.standsIn hs).handle ▸ h g hg)

theorem filter_symbols (f : SourceFile) :
    f.symbols.filter (fun s => s.handle.file != f.id) = [] :=
  List.filter_eq_nil_iff.2 fun s hs => by simp [(SourceFile.standsIn hs).handle]

/-- A file that is read anew with the text it had stays among the files, and its symbols move behind
those of the files after it. -/
theorem replaceFile_ofFiles {before after : List SourceFile}
    (hi : Consistent (ofFiles (before ++ f :: after))) :
    (ofFiles (before ++ f :: after)).replaceFile f = ofParts (before ++ f :: after)
      (before.flatMap SourceFile.symbols ++ (after.flatMap SourceFile.symbols ++ f.symbols)) := by
  have hasc : (before ++ f :: after).Pairwise fun g h => g.id < h.id := hi.ascending
  obtain ⟨-, hafter, hbefore⟩ := List.pairwise_append.1 hasc
  have hafter := (List.pairwise_cons.1 hafter).1
  -- the files before it have smaller numbers and those after it greater ones, so their symbols stay
  have hothers :
      ((ofFiles (before ++ f :: after)).symbols.filter fun s => s.handle.file != f.id) =
        before.flatMap SourceFile.symbols ++ after.flatMap SourceFile.symbols := by
    change ((before ++ f :: after).flatMap SourceFile.symbols).filter _ = _
    rw [List.flatMap_append, List.flatMap_cons, List.filter_append, List.filter_append,
      filter_flatMap_symbols fun g hg => Nat.ne_of_lt (hbefore g hg f List.mem_cons_self),
      filter_flatMap_symbols fun g hg => Nat.ne_of_gt (hafter g hg), filter_symbols,
      List.nil_append]
  have hfiles := hi.files_replaceFile (List.mem_append_right before List.mem_cons_self)
  change ofParts _ _ = _
  rw [hothers, List.append_assoc]
  exact congrArg (ofParts · _) hfiles

/-- A file that is read anew with the text it had changes nothing but the order of the symbols. -/
theorem perm_replaceFile {files : List SourceFile} (hi : Consistent (ofFiles files))
    (hf : f ∈ files) : ((ofFiles files).replaceFile f).symbols.Perm (ofFiles files).symbols := by
  obtain ⟨before, after, rfl⟩ := List.append_of_mem hf
  rw [replaceFile_ofFiles hi, ofFiles, List.flatMap_append, List.flatMap_cons]
  exact List.perm_append_comm.append_left _

/-- **A file that is read anew with the text it had** changes no answer, as long as nothing behind
it shares a qualified name with it. -/
theorem Agree.replaceFile {files : List SourceFile} (hi : Consistent (ofFiles files))
    (hf : f ∈ files) (hnames : LastOfItsNames (ofFiles files) f) :
    Agree (ofFiles files) ((ofFiles files).replaceFile f) := by
  obtain ⟨before, after, rfl⟩ := List.append_of_mem hf
  have hasc : (before ++ f :: after).Pairwise fun g h => g.id < h.id := hi.ascending
  have hafter : ∀ g ∈ after, f.id < g.id :=
    (List.pairwise_cons.1 (List.pairwise_append.1 hasc).2.1).1
  rw [replaceFile_ofFiles hi, ofFiles, List.flatMap_append, List.flatMap_cons]
  refine Agree.of_moved (fun s hs t ht => ?_) fun s hs t ht name hsn htn => ?_
  · obtain ⟨g, hg, ht⟩ := List.mem_flatMap.1 ht
    exact ⟨f.id, g.id, Nat.ne_of_lt (hafter g hg), SourceFile.standsIn hs, SourceFile.standsIn ht⟩
  · obtain ⟨g, hg, ht⟩ := List.mem_flatMap.1 ht
    have hgmem : g ∈ before ++ f :: after := by simp [hg]
    exact hnames g hgmem (hafter g hg) s hs t ht (by simp [hsn]) (hsn.trans htn.symm)

/-- **Reading a file twice is reading it once.** -/
theorem replaceFile_replaceFile (hid : f.id ≤ i.files.length) :
    (i.replaceFile f).replaceFile f = i.replaceFile f := by
  have hlength : f.id < (i.replaceFile f).files.length := by
    have hplace := getElem?_files_replaceFile hid f.id
    rw [if_pos rfl] at hplace
    exact (List.getElem?_eq_some_iff.1 hplace).1
  have hfiles : ((i.replaceFile f).replaceFile f).files = (i.replaceFile f).files := by
    refine List.ext_getElem? fun k => ?_
    rw [getElem?_files_replaceFile (Nat.le_of_lt hlength), getElem?_files_replaceFile hid]
    split <;> rfl
  have hsymbols : (i.replaceFile f).symbols.filter (fun s => s.handle.file != f.id) =
      i.symbols.filter fun s => s.handle.file != f.id := by
    change ((i.symbols.filter fun s => s.handle.file != f.id) ++ f.symbols).filter _ = _
    rw [List.filter_append, List.filter_filter, filter_symbols, List.append_nil]
    simp only [Bool.and_self]
  change ofParts _ (((i.replaceFile f).symbols.filter fun s => s.handle.file != f.id) ++ f.symbols)
    = ofParts _ _
  rw [hsymbols]
  exact congrArg (ofParts · _) hfiles

end Replaced

end Index

end Crossref
