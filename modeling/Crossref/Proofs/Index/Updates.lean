import Crossref.Proofs.Index.Agreement
import Crossref.Proofs.Index.Paths
import Crossref.Proofs.Tree.Spans
import Mathlib.Data.List.Dedup

/-!
# Proofs — index — files that are updated one after the other

A project is made of given files, and then single files are given anew, in any order, some of them
under new paths and some that are no sources at all.  What the index holds afterwards is told by the
list of everything that was given: one file for each path, with what was given for it last, and the
symbols that these files declare.

The induction is on the updates.  It carries, besides consistency, that no two files share a path,
that the symbols of each file are those with its number, and that each file is the last one given
for its path.

* `Carried.attempt`: what one update preserves.
* `mirrors_afterUpdates`: what the index holds after any updates.
-/

namespace Crossref

namespace SourceFile

/-- The symbols of a file have its number. -/
theorem filter_symbols_eq (f : SourceFile) (id : FileId) :
    f.symbols.filter (·.handle.file == id) = if f.id = id then f.symbols else [] := by
  split
  · next h =>
    exact List.filter_eq_self.2 fun s hs => beq_iff_eq.2 ((standsIn hs).handle.trans h)
  · next h =>
    exact List.filter_eq_nil_iff.2 fun s hs heq =>
      h ((standsIn hs).handle.symm.trans (beq_iff_eq.1 heq))

end SourceFile

/-- When a file is read anew the symbols of the other files stay as they are, and those of the file
are the ones with its number. -/
theorem Index.Consistent.filter_symbols_replaceFile {i : Index} (hi : i.Consistent) {f : SourceFile}
    (hid : f.id ≤ i.files.length)
    (hdeclared : ∀ g ∈ i.files, i.symbols.filter (·.handle.file == g.id) = g.symbols)
    {g : SourceFile} (hg : g ∈ (i.replaceFile f).files) :
    (i.replaceFile f).symbols.filter (·.handle.file == g.id) = g.symbols := by
  change ((i.symbols.filter fun s => s.handle.file != f.id) ++ f.symbols).filter _ = _
  rw [List.filter_append, List.filter_filter, SourceFile.filter_symbols_eq]
  obtain ⟨k, hk⟩ := List.getElem?_of_mem hg
  rw [getElem?_files_replaceFile hid] at hk
  split at hk
  · cases hk
    have hothers : i.symbols.filter
        (fun s => s.handle.file == f.id && s.handle.file != f.id) = [] :=
      List.filter_eq_nil_iff.2 fun s _ => by simp
    rw [hothers, if_pos rfl, List.nil_append]
  · next hne =>
    have hgid : g.id ≠ f.id := (hi.numbered k g hk).symm ▸ hne
    have hold : i.symbols.filter (fun s => s.handle.file == g.id && s.handle.file != f.id) =
        g.symbols := by
      rw [← hdeclared g (List.mem_of_getElem? hk)]
      refine List.filter_congr fun s _ => ?_
      by_cases h : s.handle.file = g.id <;> simp [h, hgid]
    rw [hold, if_neg hgid.symm, List.append_nil]

namespace Project

/-! ### What was given -/

/-- The project after an update, or the same one where the update fails. -/
def attempt (p : Project) (given : ParsedText) : Project :=
  match p.update given with
  | .ok q => q
  | .error _ => p

/-- The project after one update after the other. -/
def afterUpdates (p : Project) (updates : List ParsedText) : Project := updates.foldl attempt p

/-- The given files that a project reads. -/
def sources (seen : List ParsedText) : List ParsedText :=
  seen.filter fun given => (Language.ofPath? given.path).isSome

/-- The paths of the given files that a project reads, by components and in their order. -/
def sourcePaths (seen : List ParsedText) : List (List Path.Component) :=
  (sources seen).map (·.path.components)

/-- What was given last for a path. -/
def latest? (seen : List ParsedText) (path : Path) : Option ParsedText :=
  (sources seen).reverse.find? fun given => given.path.Same path

/-- The project holds what was given, in the order of `seen`. -/
structure Mirrors (root : Path) (config : Config) (seen : List ParsedText) (p : Project) :
    Prop where
  /-- A file's number is its place. -/
  numbered : ∀ (k : Nat) (f : SourceFile), p.index.files[k]? = some f → f.id = k
  /-- At a path there is the file with the text and the tree that were given for it last. -/
  held : ∀ path given, latest? seen path = some given → ∃ id language,
    Language.ofPath? given.path = some language ∧
    p.index.fileForPath? path = some (sourceFile root config id language given)
  /-- Where no source was given there is none. -/
  missing : ∀ path, latest? seen path = none → p.index.fileForPath? path = none
  /-- There are as many files as different paths of sources. -/
  counted : p.index.files.length = (sourcePaths seen).dedup.length
  /-- The symbols with a file's number are those of the file, in its order. -/
  declared : ∀ (k : Nat) (f : SourceFile), p.index.files[k]? = some f →
    p.index.symbols.filter (·.handle.file == k) = f.symbols
  /-- No symbol has another number. -/
  bounded : ∀ s ∈ p.index.symbols, s.handle.file < p.index.files.length
  /-- Each table finds the matching symbols in the order of all symbols. -/
  byQualifiedName : ∀ name,
    p.index.findByQualifiedName name = p.index.symbols.filter (·.qualifiedName == some name)
  byName : ∀ name, p.index.findByName name = p.index.symbols.filter (·.name == name)
  byDeclaration : ∀ k, p.index.symbolsAt k = p.index.symbols.filter (·.declaration == k)
  byParent : ∀ h, p.index.membersOf h = p.index.symbols.filter (·.parent == some h)
  byFile : ∀ k, p.index.topLevelIn k =
    p.index.symbols.filter fun s => s.parent == none && s.handle.file == k

/-! ### What is carried from update to update -/

/-- What every update preserves. -/
structure Carried (root : Path) (config : Config) (seen : List ParsedText) (p : Project) :
    Prop where
  atRoot : p.root = root
  settings : p.config = config
  consistent : p.index.Consistent
  apart : ∀ f ∈ p.index.files, ∀ g ∈ p.index.files, f.path.Same g.path → f = g
  declared : ∀ f ∈ p.index.files, p.index.symbols.filter (·.handle.file == f.id) = f.symbols
  /-- A file is the last one given for its path. -/
  last : ∀ f ∈ p.index.files, ∃ given language, latest? seen f.path = some given ∧
    Language.ofPath? given.path = some language ∧ f = sourceFile root config f.id language given
  /-- For every source that was given there is a file. -/
  known : ∀ given ∈ sources seen, ∃ f ∈ p.index.files, f.path.Same given.path

/-! ### The last one given for a path -/

section Latest

variable {seen : List ParsedText} {given : ParsedText} {path : Path}

theorem mem_sources : given ∈ sources seen ↔
    given ∈ seen ∧ (Language.ofPath? given.path).isSome = true := List.mem_filter

theorem latest?_eq_none_iff :
    latest? seen path = none ↔ ∀ given ∈ sources seen, ¬ given.path.Same path := by
  simp [latest?]

theorem of_latest? (h : latest? seen path = some given) :
    given ∈ sources seen ∧ given.path.Same path :=
  ⟨List.mem_reverse.1 (List.mem_of_find?_eq_some h), by simpa using List.find?_some h⟩

/-- The spelling of a path does not matter. -/
theorem latest?_of_same {other : Path} (h : path.Same other) :
    latest? seen path = latest? seen other := by
  have hpick : (fun given : ParsedText => decide (given.path.Same path)) =
      fun given => decide (given.path.Same other) := by
    funext given
    exact decide_eq_decide.2 ⟨fun hg => hg.trans h, fun hg => hg.trans h.symm⟩
  rw [latest?, latest?, hpick]

/-- What was given later counts first. -/
theorem latest?_append (seen more : List ParsedText) (path : Path) :
    latest? (seen ++ more) path = (latest? more path).or (latest? seen path) := by
  rw [latest?, sources, List.filter_append, List.reverse_append, List.find?_append]
  rfl

/-- What is given last counts, if it is a source with the path. -/
theorem latest?_concat (seen : List ParsedText) (given : ParsedText) (path : Path) :
    latest? (seen ++ [given]) path =
      if (Language.ofPath? given.path).isSome ∧ given.path.Same path then some given
      else latest? seen path := by
  rw [latest?, sources, List.filter_append, List.reverse_append, List.find?_append]
  by_cases hsource : (Language.ofPath? given.path).isSome = true
  · by_cases hpath : given.path.Same path <;> simp [hsource, hpath, latest?, sources]
  · simp [hsource, latest?, sources]

/-- Among files with different paths each is the last one given for its path. -/
theorem latest?_of_pairwise (hpaths : seen.Pairwise fun a b => ¬ a.path.Same b.path)
    (h : given ∈ sources seen) : latest? seen given.path = some given := by
  have hsome : latest? seen given.path ≠ none :=
    fun hnone => latest?_eq_none_iff.1 hnone given h rfl
  obtain ⟨found, hfound⟩ := Option.ne_none_iff_exists'.1 hsome
  obtain ⟨hmem, hsame⟩ := of_latest? hfound
  have hnodup : (seen.map (·.path.components)).Nodup := List.pairwise_map.2 hpaths
  obtain rfl := List.inj_on_of_nodup_map hnodup (mem_sources.1 hmem).1 (mem_sources.1 h).1 hsame
  exact hfound

theorem latest?_eq_some_iff (hpaths : seen.Pairwise fun a b => ¬ a.path.Same b.path) :
    latest? seen path = some given ↔ given ∈ sources seen ∧ given.path.Same path := by
  refine ⟨of_latest?, fun ⟨hgiven, hsame⟩ => ?_⟩
  rw [← latest?_of_same hsame]
  exact latest?_of_pairwise hpaths hgiven

end Latest

/-- The text of the file at a path is the one that was given last. -/
theorem Mirrors.text {root : Path} {config : Config} {seen : List ParsedText} {p : Project}
    (h : Mirrors root config seen p) (path : Path) :
    (p.index.fileForPath? path).map (·.text) = (latest? seen path).map (·.text) := by
  cases hlast : latest? seen path with
  | none => rw [h.missing path hlast, Option.map_none, Option.map_none]
  | some given =>
      obtain ⟨id, language, -, hfile⟩ := h.held path given hlast
      rw [hfile]
      rfl

/-! ### The place of an update -/

/-- The number that a file takes which is given for the path. -/
def slot (p : Project) (path : Path) : FileId :=
  match p.index.fileForPath? path with
  | some f => f.id
  | none => p.index.nextFileId

/-- The project after an update that succeeds. -/
def replaced (p : Project) (given : ParsedText) (language : Language) : Project :=
  { p with
    index := p.index.replaceFile
      (sourceFile p.root p.config (p.slot given.path) language given) }

theorem attempt_of_error {p : Project} {given : ParsedText} {e : UpdateError}
    (h : p.update given = .error e) : p.attempt given = p := by
  rw [attempt, h]

theorem attempt_of_none {p : Project} {given : ParsedText}
    (h : Language.ofPath? given.path = none) : p.attempt given = p := by
  obtain ⟨e, he⟩ := update_eq_error_iff.2 h
  exact attempt_of_error he

theorem updateIndex_of_language {p : Project} {given : ParsedText} {language : Language}
    (h : Language.ofPath? given.path = some language) :
    updateIndex p.root p.config p.index given = .ok (p.replaced given language).index := by
  rw [updateIndex, h]
  rfl

theorem attempt_of_language {p : Project} {given : ParsedText} {language : Language}
    (h : Language.ofPath? given.path = some language) :
    p.attempt given = p.replaced given language := by
  rw [attempt, update, updateIndex_of_language h]
  rfl

namespace Carried

variable {root : Path} {config : Config} {seen : List ParsedText} {p : Project}
  (hp : Carried root config seen p)
include hp

/-- Files at different paths have different components. -/
theorem nodup_components : (p.index.files.map (·.path.components)).Nodup := by
  have hfiles : p.index.files.Nodup :=
    hp.consistent.ascending.imp fun {f g} hlt heq => Nat.ne_of_lt hlt (congrArg SourceFile.id heq)
  exact hfiles.map_on hp.apart

/-- The number that an update of a path takes is that of the file at the path, and of no other. -/
theorem id_eq_slot_iff {f : SourceFile} (hf : f ∈ p.index.files) (path : Path) :
    f.id = p.slot path ↔ f.path.Same path := by
  unfold slot
  cases hfound : p.index.fileForPath? path with
  | some g =>
      obtain ⟨hg, hpath⟩ := (hp.consistent.fileForPath?_eq_some_iff hp.nodup_components).1 hfound
      constructor
      · intro hid
        have hsame := hp.consistent.file?_id hf
        rw [hid, hp.consistent.file?_id hg] at hsame
        exact Option.some.inj hsame ▸ hpath
      · exact fun h => congrArg SourceFile.id (hp.apart f hf g hg (h.trans hpath.symm))
  | none =>
      have hnone := (hp.consistent.fileForPath?_eq_none_iff hp.nodup_components).1 hfound
      have hlt := (List.getElem?_eq_some_iff.1 (hp.consistent.file?_id hf)).1
      exact iff_of_false (Nat.ne_of_lt hlt) (hnone f hf)

theorem slot_le (path : Path) : p.slot path ≤ p.index.files.length := by
  unfold slot
  cases hfound : p.index.fileForPath? path with
  | some f => exact hp.consistent.id_le (Index.mem_of_fileForPath? hfound)
  | none => exact Nat.le_refl _

/-- An update puts its file in the place of the one at its path, or behind all of them. -/
theorem mem_files_replaced (given : ParsedText) (language : Language) {g : SourceFile} :
    g ∈ (p.replaced given language).index.files ↔
      g = sourceFile root config (p.slot given.path) language given ∨
      g ∈ p.index.files ∧ ¬ g.path.Same given.path := by
  have hplaces := Index.getElem?_files_replaceFile
    (f := sourceFile p.root p.config (p.slot given.path) language given) (hp.slot_le given.path)
  rw [List.mem_iff_getElem?]
  simp only [replaced, hplaces]
  rw [hp.atRoot, hp.settings]
  constructor
  · rintro ⟨k, hk⟩
    split at hk
    · exact .inl (Option.some.inj hk).symm
    · next hne =>
      have hg := List.mem_of_getElem? hk
      refine .inr ⟨hg, fun hsame => hne ?_⟩
      rw [← hp.consistent.numbered k g hk]
      exact (hp.id_eq_slot_iff hg given.path).2 hsame
  · rintro (rfl | ⟨hg, hsame⟩)
    · exact ⟨p.slot given.path, if_pos rfl⟩
    · exact ⟨g.id, (if_neg fun h => hsame ((hp.id_eq_slot_iff hg given.path).1 h)).trans
        (hp.consistent.file?_id hg)⟩

theorem filter_symbols_replaced {given : ParsedText} {language : Language} {g : SourceFile}
    (hg : g ∈ (p.replaced given language).index.files) :
    (p.replaced given language).index.symbols.filter (·.handle.file == g.id) = g.symbols :=
  hp.consistent.filter_symbols_replaceFile (hp.slot_le given.path) hp.declared hg

/-- What is no source is given in vain. -/
theorem append_of_none {given : ParsedText} (h : Language.ofPath? given.path = none) :
    Carried root config (seen ++ [given]) p := by
  have hsources : sources (seen ++ [given]) = sources seen := by simp [sources, h]
  exact { hp with
    last := by simpa only [latest?, hsources] using hp.last
    known := by simpa only [hsources] using hp.known }

/-- A source is read in the place of the file at its path, or behind all others. -/
theorem replaced {given : ParsedText} {language : Language}
    (h : Language.ofPath? given.path = some language) :
    Carried root config (seen ++ [given]) (p.replaced given language) := by
  have hmem := fun g => hp.mem_files_replaced given language (g := g)
  refine ⟨hp.atRoot, hp.settings, hp.consistent.updateIndex (updateIndex_of_language h), ?_,
    fun g => hp.filter_symbols_replaced, ?_, ?_⟩
  · intro f hf g hg hsame
    rcases (hmem f).1 hf with rfl | ⟨hf, hne⟩ <;> rcases (hmem g).1 hg with rfl | ⟨hg, hne'⟩
    · rfl
    · exact absurd hsame.symm hne'
    · exact absurd hsame hne
    · exact hp.apart f hf g hg hsame
  · intro f hf
    rw [latest?_concat]
    rcases (hmem f).1 hf with rfl | ⟨hf, hne⟩
    · exact ⟨given, language, if_pos ⟨by simp [h], rfl⟩, h, rfl⟩
    · rw [if_neg fun hlast => hne hlast.2.symm]
      exact hp.last f hf
  · intro other hother
    rw [sources, List.filter_append, List.mem_append] at hother
    rcases hother with hother | hother
    · obtain ⟨f, hf, hsame⟩ := hp.known other hother
      by_cases hplace : f.path.Same given.path
      · exact ⟨_, (hmem _).2 (.inl rfl), hplace.symm.trans hsame⟩
      · exact ⟨f, (hmem f).2 (.inr ⟨hf, hplace⟩), hsame⟩
    · obtain rfl := List.mem_singleton.1 (List.mem_filter.1 hother).1
      exact ⟨_, (hmem _).2 (.inl rfl), rfl⟩

/-- **What is carried from update to update.** -/
theorem attempt (given : ParsedText) : Carried root config (seen ++ [given]) (p.attempt given) := by
  cases hlanguage : Language.ofPath? given.path with
  | none =>
      rw [attempt_of_none hlanguage]
      exact hp.append_of_none hlanguage
  | some language =>
      rw [attempt_of_language hlanguage]
      exact hp.replaced hlanguage

/-- One update after the other. -/
theorem afterUpdates (updates : List ParsedText) :
    Carried root config (seen ++ updates) (p.afterUpdates updates) := by
  induction updates generalizing seen p with
  | nil =>
      rw [List.append_nil]
      exact hp
  | cons given rest ih =>
      rw [List.append_cons]
      exact ih (hp.attempt given)

/-- At a path there is the file with what was given for it last. -/
theorem fileForPath?_of_latest? {path : Path} {given : ParsedText}
    (h : latest? seen path = some given) : ∃ id language,
      Language.ofPath? given.path = some language ∧
      p.index.fileForPath? path = some (sourceFile root config id language given) := by
  obtain ⟨hgiven, hsame⟩ := of_latest? h
  obtain ⟨f, hf, hpath⟩ := hp.known given hgiven
  have hfpath : f.path.Same path := hpath.trans hsame
  obtain ⟨given', language, hlast, hlanguage, hfile⟩ := hp.last f hf
  -- the file and the path have the same components, so they were given the same last
  rw [latest?_of_same hfpath, h] at hlast
  obtain rfl := Option.some.inj hlast
  refine ⟨f.id, language, hlanguage, ?_⟩
  rw [← hfile]
  exact (hp.consistent.fileForPath?_eq_some_iff hp.nodup_components).2 ⟨hf, hfpath⟩

theorem fileForPath?_of_nothing_given {path : Path} (h : latest? seen path = none) :
    p.index.fileForPath? path = none := by
  refine (hp.consistent.fileForPath?_eq_none_iff hp.nodup_components).2 fun f hf hpath => ?_
  obtain ⟨given, -, hlast, -⟩ := hp.last f hf
  rw [latest?_of_same hpath, h] at hlast
  cases hlast

/-- The files are at the paths of the sources that were given, each once. -/
theorem perm_sourcePaths :
    (p.index.files.map (·.path.components)).Perm (sourcePaths seen).dedup := by
  refine (List.perm_ext_iff_of_nodup hp.nodup_components (List.nodup_dedup _)).2 fun path => ?_
  rw [List.mem_dedup, sourcePaths, List.mem_map, List.mem_map]
  constructor
  · rintro ⟨f, hf, rfl⟩
    obtain ⟨given, -, hlast, -⟩ := hp.last f hf
    exact ⟨given, of_latest? hlast⟩
  · rintro ⟨given, hgiven, rfl⟩
    exact hp.known given hgiven

/-- **What is carried** is what the project promises. -/
theorem mirrors : Mirrors root config seen p where
  numbered := hp.consistent.numbered
  held _ _ := hp.fileForPath?_of_latest?
  missing _ := hp.fileForPath?_of_nothing_given
  counted := by simpa using hp.perm_sourcePaths.length_eq
  declared k f hf := by
    rw [← hp.consistent.numbered k f hf]
    exact hp.declared f (List.mem_of_getElem? hf)
  bounded s hs := by
    obtain ⟨f, hf, hsf⟩ := hp.consistent.sourced s hs
    rw [(SourceFile.standsIn hsf).handle]
    exact (List.getElem?_eq_some_iff.1 (hp.consistent.file?_id hf)).1
  byQualifiedName name := by
    rw [hp.consistent.tables]
    exact Index.findByQualifiedName_ofParts _ _ name
  byName name := by
    rw [hp.consistent.tables]
    exact Index.findByName_ofParts _ _ name
  byDeclaration k := by
    rw [hp.consistent.tables]
    exact Index.symbolsAt_ofParts _ _ k
  byParent h := by
    rw [hp.consistent.tables]
    exact Index.membersOf_ofParts _ _ h
  byFile k := by
    rw [hp.consistent.tables, Index.topLevelIn_ofParts]
    refine List.filter_congr fun s _ => ?_
    cases hparent : s.parent <;> simp [Index.topLevelFile, hparent]

end Carried

/-! ### Given files -/

section Given

variable {root : Path} {config : Config} {files : List ParsedText}

/-- A file of the index is one that was given. -/
theorem exists_given_of_mem_indexOf {f : SourceFile} (hf : f ∈ (indexOf root config files).files) :
    ∃ given language, given ∈ files ∧ Language.ofPath? given.path = some language ∧
      f = sourceFile root config f.id language given := by
  obtain ⟨⟨⟨given, language⟩, id⟩, hmem, rfl⟩ := List.mem_map.1 hf
  obtain ⟨source, hsource, hlanguage⟩ :=
    List.mem_filterMap.1 (List.mem_of_getElem? (List.mem_zipIdx_iff_getElem?.1 hmem))
  obtain ⟨language', hlanguage', heq⟩ := Option.map_eq_some_iff.1 hlanguage
  obtain ⟨rfl, rfl⟩ := Prod.mk.inj heq
  exact ⟨source, language', hsource, hlanguage', rfl⟩

/-- The index of given files holds the symbols of each of them. -/
theorem filter_symbols_indexOf {f : SourceFile} (hf : f ∈ (indexOf root config files).files) :
    (indexOf root config files).symbols.filter (·.handle.file == f.id) = f.symbols := by
  have hi := Index.consistent_indexOf root config files
  have hasc := hi.ascending
  have hsymbols : (indexOf root config files).symbols =
      (indexOf root config files).files.flatMap SourceFile.symbols := rfl
  obtain ⟨before, after, hsplit⟩ := List.append_of_mem hf
  rw [hsplit] at hasc hsymbols
  obtain ⟨-, hafter, hbefore⟩ := List.pairwise_append.1 hasc
  have hafter := (List.pairwise_cons.1 hafter).1
  have others : ∀ files : List SourceFile, (∀ g ∈ files, g.id ≠ f.id) →
      (files.flatMap SourceFile.symbols).filter (·.handle.file == f.id) = [] := by
    intro files h
    rw [List.filter_flatMap]
    refine List.flatMap_eq_nil_iff.2 fun g hg => ?_
    rw [SourceFile.filter_symbols_eq, if_neg (h g hg)]
  rw [hsymbols, List.flatMap_append, List.flatMap_cons, List.filter_append, List.filter_append,
    others before fun g hg => Nat.ne_of_lt (hbefore g hg f List.mem_cons_self),
    others after fun g hg => Nat.ne_of_gt (hafter g hg), SourceFile.filter_symbols_eq, if_pos rfl,
    List.nil_append, List.append_nil]

/-- The project of files that were given with different paths. -/
theorem carried_ofSources (hpaths : files.Pairwise fun a b => ¬ a.path.Same b.path) :
    Carried root config files (ofSources root config files) where
  atRoot := rfl
  settings := rfl
  consistent := Index.consistent_indexOf root config files
  apart f hf g hg := List.inj_on_of_nodup_map (nodup_components_indexOf hpaths) hf hg
  declared f := filter_symbols_indexOf
  last f hf := by
    obtain ⟨given, language, hgiven, hlanguage, hfile⟩ := exists_given_of_mem_indexOf hf
    have hlast := latest?_of_pairwise hpaths (mem_sources.2 ⟨hgiven, by simp [hlanguage]⟩)
    refine ⟨given, language, ?_, hlanguage, hfile⟩
    rw [hfile]
    exact hlast
  known given hgiven := by
    obtain ⟨hmem, hsome⟩ := mem_sources.1 hgiven
    obtain ⟨language, hlanguage⟩ := Option.isSome_iff_exists.1 hsome
    obtain ⟨id, hid⟩ := exists_mem_indexOf root config hmem hlanguage
    exact ⟨_, hid, rfl⟩

/-- **What the index holds after any updates** of files that were given with different paths is what
was given last for each path, and an update that fails leaves the project as it was. -/
theorem mirrors_afterUpdates (root : Path) (config : Config)
    (hpaths : files.Pairwise fun a b => ¬ a.path.Same b.path) (updates : List ParsedText) :
    Mirrors root config (files ++ updates) ((ofSources root config files).afterUpdates updates) ∧
    ∀ given e, ((ofSources root config files).afterUpdates updates).update given = .error e →
      (ofSources root config files).afterUpdates (updates ++ [given]) =
        (ofSources root config files).afterUpdates updates := by
  refine ⟨((carried_ofSources hpaths).afterUpdates updates).mirrors, fun given e h => ?_⟩
  rw [afterUpdates, List.foldl_append]
  exact attempt_of_error h

end Given

/-! ### A respelled path -/

namespace Respelled

/-- An empty file. -/
def given (path text : String) : ParsedText := ⟨⟨path⟩, text, .named "source_file" 0 0 []⟩

def files : List ParsedText := [given "/p/a.kt" "", given "/p/B.java" ""]

/-- The first file under another spelling of its path, a file that is no source, and a new one. -/
def updates : List ParsedText :=
  [given "/p//./a.kt" "// again", given "/p/c.txt" "", given "/p/c.kt" ""]

end Respelled

open Respelled in
theorem mirrors_afterUpdates_respelled :
    files.Pairwise (fun a b => ¬ a.path.Same b.path) ∧
    ((ofSources ⟨"/p"⟩ {} files).afterUpdates updates).index.files.length = 3 ∧
    ∃ f, ((ofSources ⟨"/p"⟩ {} files).afterUpdates updates).index.fileForPath? ⟨"/p/a.kt"⟩ =
      some f ∧ f.text = "// again" := by
  have hpaths : files.Pairwise fun a b => ¬ a.path.Same b.path := by decide
  have hmirrors := (mirrors_afterUpdates ⟨"/p"⟩ {} hpaths updates).1
  have hcount : (sourcePaths (files ++ updates)).dedup.length = 3 := by decide
  have hlast : latest? (files ++ updates) ⟨"/p/a.kt"⟩ = some (given "/p//./a.kt" "// again") := rfl
  obtain ⟨id, language, -, hfound⟩ := hmirrors.held _ _ hlast
  exact ⟨hpaths, hmirrors.counted.trans hcount, _, hfound, rfl⟩

end Project

end Crossref
