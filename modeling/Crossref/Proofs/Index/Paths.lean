import Crossref.Proofs.Index.Reachable
import Mathlib.Data.List.Nodup

/-!
# Proofs — index — files at different paths

When no two files of an index share a path, the file that is found at a path is the one that stands
there, and there is none to find exactly when no file stands there.  The index of given files has
this property when they are given with different paths, however these are spelled.

* `Consistent.fileForPath?_eq_some_iff`: what is found at a path.
* `Project.nodup_components_indexOf`: different paths stay different in the index.
-/

namespace Crossref

namespace Index

variable {i : Index} {path : Path} {f : SourceFile}

/-- A file that shares its path with no other is found at it. -/
theorem Consistent.fileForPath?_path (hi : Consistent i)
    (hpaths : (i.files.map (·.path.components)).Nodup) (hf : f ∈ i.files) :
    i.fileForPath? f.path = some f := by
  rw [hi.tables, fileForPath?_ofParts]
  have hmem : f ∈ i.files.filter (·.path.components == f.path.components) :=
    List.mem_filter.2 ⟨hf, beq_self_eq_true _⟩
  obtain ⟨g, hg⟩ := Option.isSome_iff_exists.1
    (List.getLast?_isSome.2 (List.ne_nil_of_mem hmem))
  -- the last one at the path is the file itself, since no other one is there
  obtain ⟨hgmem, hgpath⟩ := List.mem_filter.1 (List.mem_of_getLast? hg)
  obtain rfl := List.inj_on_of_nodup_map hpaths hgmem hf (beq_iff_eq.1 hgpath)
  rw [hg]
  exact hi.file?_id hf

/-- What is found at a path depends on the files alone. -/
theorem Consistent.fileForPath?_congr {j : Index} (hi : Consistent i) (hj : Consistent j)
    (h : i.files = j.files) : i.fileForPath? = j.fileForPath? := by
  funext path
  rw [hi.tables, hj.tables, fileForPath?_ofParts, fileForPath?_ofParts, h]

theorem mem_of_fileForPath? (h : i.fileForPath? path = some f) : f ∈ i.files := by
  obtain ⟨g, -, hg⟩ := Option.bind_eq_some_iff.1 h
  exact List.mem_of_getElem? hg

/-- The spelling of a path does not matter. -/
theorem fileForPath?_of_same {other : Path} (h : path.Same other) :
    i.fileForPath? path = i.fileForPath? other := by
  rw [fileForPath?, fileForPath?, h]

/-- What is found at a path stands there. -/
theorem Consistent.same_of_fileForPath? (hi : Consistent i)
    (h : i.fileForPath? path = some f) : f.path.Same path := by
  rw [hi.tables, fileForPath?_ofParts] at h
  obtain ⟨g, hg, hfile⟩ := Option.bind_eq_some_iff.1 h
  obtain ⟨hmem, hpath⟩ := List.mem_filter.1 (List.mem_of_getLast? hg)
  obtain rfl := Option.some.inj (hfile.symm.trans (hi.file?_id hmem))
  exact beq_iff_eq.1 hpath

/-- **What is found at a path** is the file that stands there, where no two share a path. -/
theorem Consistent.fileForPath?_eq_some_iff (hi : Consistent i)
    (hpaths : (i.files.map (·.path.components)).Nodup) :
    i.fileForPath? path = some f ↔ f ∈ i.files ∧ f.path.Same path := by
  constructor
  · exact fun h => ⟨mem_of_fileForPath? h, hi.same_of_fileForPath? h⟩
  · rintro ⟨hf, hpath⟩
    rw [← fileForPath?_of_same hpath]
    exact hi.fileForPath?_path hpaths hf

/-- Nothing is found at a path exactly when no file stands there. -/
theorem Consistent.fileForPath?_eq_none_iff (hi : Consistent i)
    (hpaths : (i.files.map (·.path.components)).Nodup) :
    i.fileForPath? path = none ↔ ∀ f ∈ i.files, ¬ f.path.Same path := by
  rw [Option.eq_none_iff_forall_not_mem]
  simp only [Option.mem_def, hi.fileForPath?_eq_some_iff hpaths, not_and]

end Index

namespace Project

variable {root : Path} {config : Config} {files : List ParsedText} {given : ParsedText}
  {language : Language}

theorem files_indexOf (root : Path) (config : Config) (files : List ParsedText) :
    (indexOf root config files).files =
      (recognized files).zipIdx.map fun ((f, language), id) =>
        sourceFile root config id language f := rfl

/-- A file of the index stands at the path that it was given with. -/
theorem components_indexOf (root : Path) (config : Config) (files : List ParsedText) :
    (indexOf root config files).files.map (·.path.components) =
      (recognized files).map (·.1.path.components) := by
  rw [files_indexOf, List.map_map]
  conv_rhs => rw [← List.zipIdx_map_fst 0 (recognized files), List.map_map]
  rfl

/-- Different paths stay different in the index. -/
theorem nodup_components_indexOf (hpaths : files.Pairwise fun a b => ¬ a.path.Same b.path) :
    ((indexOf root config files).files.map (·.path.components)).Nodup := by
  rw [components_indexOf]
  refine List.pairwise_map.2 (hpaths.filterMap _ fun a b hab x hx y hy => ?_)
  obtain ⟨_, -, rfl⟩ := Option.map_eq_some_iff.1 hx
  obtain ⟨_, -, rfl⟩ := Option.map_eq_some_iff.1 hy
  exact hab

/-- A given file in a known language is one of the index. -/
theorem exists_mem_indexOf (root : Path) (config : Config) (hgiven : given ∈ files)
    (hlanguage : Language.ofPath? given.path = some language) :
    ∃ id, sourceFile root config id language given ∈ (indexOf root config files).files := by
  have hmem : (given, language) ∈ recognized files :=
    List.mem_filterMap.2 ⟨given, hgiven, by rw [hlanguage]; rfl⟩
  obtain ⟨id, hid⟩ := List.getElem?_of_mem hmem
  refine ⟨id, List.mem_map.2 ⟨((given, language), id), ?_, rfl⟩⟩
  exact List.mem_zipIdx_iff_getElem?.2 hid

theorem fileForPath?_indexOf {id : FileId}
    (hpaths : files.Pairwise fun a b => ¬ a.path.Same b.path)
    (hmem : sourceFile root config id language given ∈ (indexOf root config files).files) :
    (indexOf root config files).fileForPath? given.path =
      some (sourceFile root config id language given) := by
  have hfound := (Index.consistent_indexOf root config files).fileForPath?_path
    (nodup_components_indexOf hpaths) hmem
  exact hfound

end Project

end Crossref
