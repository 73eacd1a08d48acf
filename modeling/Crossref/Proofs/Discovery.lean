import Crossref.Discovery
import Crossref.Proofs.Path
import Mathlib.Data.List.Sort

/-!
# Proofs — discovery — the files of a project are a sorted set

Places to look for files may overlap, repeat and be spelled in several ways, and a file below two of
them is met under two paths.  What is found has every path once, in the order of the components, and
it has the path of a file exactly when some spelling under which the file is met is not left out.
So nothing but the spelling hangs on the order in which places are given.

* `Entry.mem_visible_iff`: what a search below a directory lists.
* `pairwise_find`, `exists_mem_find_iff`: the order of what is found, and what it has.
* `find_sorted_set`: both, and that places may be given in any order and more than once.
-/

namespace Crossref

/-! ### Below a directory -/

namespace Entry

/-- The names lead from an entry to a file, and none of them is hidden. -/
inductive Shows : Entry → List String → Prop
  | file (content : ByteArray) : Shows (.file content) []
  | inside {entries : List (String × Entry)} {name : String} {e : Entry} {names : List String}
      (hmem : (name, e) ∈ entries) (hname : isHidden name = false) (h : Shows e names) :
      Shows (.directory entries) (name :: names)

mutual

/-- The files that a search lists are those that names without a hidden one lead to. -/
theorem mem_visible_iff : ∀ (e : Entry) (names : List String), names ∈ e.visible ↔ e.Shows names
  | .file content, names => by
      rw [visible, List.mem_singleton]
      constructor
      · rintro rfl
        exact .file content
      · rintro ⟨⟩
        rfl
  | .directory entries, names => by
      rw [visible, mem_visibleIn_iff]
      constructor
      · rintro ⟨name, e, below, hmem, hname, h, rfl⟩
        exact .inside hmem hname h
      · rintro (_ | ⟨hmem, hname, h⟩)
        exact ⟨_, _, _, hmem, hname, h, rfl⟩

theorem mem_visibleIn_iff : ∀ (entries : List (String × Entry)) (names : List String),
    names ∈ visibleIn entries ↔ ∃ name e below, (name, e) ∈ entries ∧ isHidden name = false ∧
      e.Shows below ∧ names = name :: below
  | [], names => by simp [visibleIn]
  | (name, e) :: rest, names => by
      have hfirst : (names ∈ if isHidden name then [] else e.visible.map (name :: ·)) ↔
          isHidden name = false ∧ ∃ below, e.Shows below ∧ names = name :: below := by
        cases isHidden name <;> simp [mem_visible_iff e, eq_comm]
      rw [visibleIn, List.mem_append, hfirst, mem_visibleIn_iff rest names]
      constructor
      · rintro (⟨hname, below, h⟩ | ⟨other, e', below, hmem, h⟩)
        · exact ⟨name, e, below, List.mem_cons_self, hname, h⟩
        · exact ⟨other, e', below, List.mem_cons_of_mem _ hmem, h⟩
      · rintro ⟨other, e', below, hmem, hname, h⟩
        rcases List.mem_cons.1 hmem with heq | hmem
        · cases heq
          exact .inl ⟨hname, below, h⟩
        · exact .inr ⟨other, e', below, hmem, hname, h⟩

end

end Entry

/-! ### Source files -/

/-- The extension of a path follows from what it names. -/
theorem Path.Same.extension?_eq {p q : Path} (h : p.Same q) : p.extension? = q.extension? := by
  rw [Path.Same] at h
  rw [Path.extension?, Path.extension?, Path.fileName?, Path.fileName?, h]

namespace Language

/-- The extensions of source files. -/
def extensions : List String := ["kt", "kts", "java"]

theorem isSome_ofPath?_iff {p : Path} :
    (ofPath? p).isSome = true ↔ ∃ e ∈ extensions, p.extension? = some e := by
  unfold ofPath? extensions
  split <;> simp_all

end Language

namespace Discovery

/-! ### One of every path -/

section Firsts

variable {l : List Found}

/-- What is left of a run of files with the same path stands for all of them. -/
theorem exists_mem_firsts {f : Found} (h : f ∈ l) : ∃ g ∈ firsts l, g.path.Same f.path := by
  induction l with
  | nil => cases h
  | cons first l ih =>
      rcases List.mem_cons.1 h with rfl | h
      · exact ⟨f, List.mem_cons_self, rfl⟩
      obtain ⟨g, hg, hsame⟩ := ih h
      rw [← @List.takeWhile_append_dropWhile _ (fun g => first.path.compare g.path == .eq)
        (firsts l), List.mem_append] at hg
      rcases hg with hg | hg
      · have heq := List.all_eq_true.1 List.all_takeWhile g hg
        rw [beq_iff_eq, Path.compare_eq_eq_iff] at heq
        exact ⟨first, List.mem_cons_self, heq.trans hsame⟩
      · exact ⟨g, List.mem_cons_of_mem _ hg, hsame⟩

/-- Where paths do not descend, those that are left ascend. -/
theorem pairwise_firsts (h : l.Pairwise fun f g => (f.path.compare g.path).isLE) :
    (firsts l).Pairwise fun f g => f.path.compare g.path = .lt := by
  induction h with
  | nil => exact .nil
  | @cons first l hle _ ih =>
      have hrest := ih.sublist (List.dropWhile_sublist fun g => first.path.compare g.path == .eq)
      refine .cons ?_ hrest
      have hhead := List.head?_dropWhile_not (fun g => first.path.compare g.path == .eq) (firsts l)
      have hsub : ∀ g ∈ (firsts l).dropWhile fun g => first.path.compare g.path == .eq, g ∈ l :=
        fun g hg => mem_firsts ((List.dropWhile_sublist _).subset hg)
      cases hdrop : (firsts l).dropWhile fun g => first.path.compare g.path == .eq with
      | nil => simp
      | cons second rest =>
          rw [hdrop] at hrest hhead hsub
          have hsecond : first.path.compare second.path = .lt := by
            have hne : first.path.compare second.path ≠ .eq := beq_eq_false_iff_ne.1 hhead
            have hnot := hle second (hsub second List.mem_cons_self)
            revert hne hnot
            cases first.path.compare second.path <;> simp
          intro g hg
          rcases List.mem_cons.1 hg with rfl | hg
          · exact hsecond
          · exact Std.TransCmp.lt_trans hsecond (List.rel_of_pairwise_cons hrest hg)

end Firsts

theorem pairwise_find (fs : FileSystem) (config : Config) (root : Path) :
    (find fs config root).Pairwise fun f g => f.path.compare g.path = .lt := by
  have hle : ∀ f g, inOrder f g = true ↔ (f.path.compare g.path).isLE := by
    intro f g
    rw [inOrder, bne_iff_ne, Ordering.isLE_iff_ne_gt]
  refine pairwise_firsts ?_
  refine (List.pairwise_mergeSort ?_ ?_ (scanAll fs config root)).imp (hle _ _).1
  · intro f g h
    simp only [hle]
    exact Std.TransCmp.isLE_trans
  · intro f g
    rw [Bool.or_eq_true, hle, hle, @Std.OrientedCmp.eq_swap _ Path.compare _ f.path g.path]
    cases g.path.compare f.path <;> simp

/-- The files that are read have different paths. -/
theorem pairwise_sources (fs : FileSystem) (parse : Path → String → Tree) (config : Config)
    (root : Path) :
    (sources fs parse config root).Pairwise fun a b => ¬ a.path.Same b.path := by
  refine List.pairwise_map.2 (List.pairwise_filterMap.2 ?_)
  refine (pairwise_find fs config root).imp fun {f g} hlt => ?_
  rintro _ hf _ hg
  obtain ⟨_, -, rfl⟩ := Option.map_eq_some_iff.1 hf
  obtain ⟨_, -, rfl⟩ := Option.map_eq_some_iff.1 hg
  exact Path.not_same_of_compare_eq_lt hlt

/-! ### What is reached -/

/-- A path at or below which files are looked for: a target, the root where there are no targets, or
the place of a library. -/
inductive Searched (config : Config) (root : Path) : Path → Prop
  | root (h : config.targets = []) : Searched config root root
  | target {t : Path} (h : t ∈ config.targets) : Searched config root (root.join t)
  | library {d : Path} (h : d ∈ config.libraryRoots ++ config.librarySourceRoots) :
      Searched config root (root.join d)

/-- The path of what the names lead to from a path. -/
def under (t : Path) (names : List String) : Path := names.foldl (fun p name => p.join ⟨name⟩) t

/-- A file is reached under a path as it is written: the path is that of a place that is searched
and, behind it, names that lead to the file, none of them hidden. -/
def Reached (fs : FileSystem) (config : Config) (root p : Path) : Prop :=
  ∃ t, Searched config root t ∧
    ∃ e names, fs.entry? t = some e ∧ e.Shows names ∧ p = under t names

variable {fs : FileSystem} {config config' : Config} {root p q : Path} {f : Found}

theorem mem_targets_iff {t : Path} : t ∈ targets config root ↔ Searched config root t := by
  rw [targets, List.mem_append, Config.libraryDirs, List.mem_map]
  constructor
  · rintro (h | ⟨d, hd, rfl⟩)
    · split at h
      · next hnone =>
        obtain rfl := List.mem_singleton.1 h
        exact .root hnone
      · obtain ⟨t, ht, rfl⟩ := List.mem_map.1 h
        exact .target ht
    · exact .library hd
  · rintro (hnone | ht | hd)
    · simp [hnone]
    · rw [if_neg (List.ne_nil_of_mem ht)]
      exact .inl (List.mem_map_of_mem ht)
    · exact .inr ⟨_, hd, rfl⟩

theorem mem_pathsAt_iff {t : Path} :
    p ∈ pathsAt fs t ↔ ∃ e names, fs.entry? t = some e ∧ e.Shows names ∧ p = under t names := by
  unfold pathsAt
  cases fs.entry? t with
  | none => simp
  | some e => simp [Entry.mem_visible_iff, under, eq_comm]

theorem accept?_eq_some_iff :
    accept? config p = some f ↔
      config.shouldExclude p = false ∧ Language.ofPath? p = some f.language ∧ p = f.path := by
  obtain ⟨path, language⟩ := f
  unfold accept?
  cases config.shouldExclude p with
  | true => simp
  | false =>
      simp only [Bool.false_eq_true, if_false, Option.map_eq_some_iff, Found.mk.injEq, true_and]
      constructor
      · rintro ⟨l, hl, hp, rfl⟩
        exact ⟨hl, hp⟩
      · rintro ⟨hl, hp⟩
        exact ⟨language, hl, hp, rfl⟩

theorem mem_scanAll_iff :
    f ∈ scanAll fs config root ↔
      Reached fs config root f.path ∧ config.shouldExclude f.path = false ∧
        Language.ofPath? f.path = some f.language := by
  simp only [scanAll, scan, List.mem_flatMap, List.mem_filterMap, mem_targets_iff, mem_pathsAt_iff,
    accept?_eq_some_iff, Reached]
  constructor
  · rintro ⟨t, ht, p, hp, hexclude, hlanguage, rfl⟩
    exact ⟨⟨t, ht, hp⟩, hexclude, hlanguage⟩
  · rintro ⟨⟨t, ht, hp⟩, hexclude, hlanguage⟩
    exact ⟨t, ht, f.path, hp, hexclude, hlanguage, rfl⟩

/-- A path is found under some spelling exactly when one of its spellings is that of a source file
that is reached and not left out. -/
theorem exists_mem_find_iff :
    (∃ f ∈ find fs config root, f.path.Same q) ↔
      ∃ p, p.Same q ∧ Reached fs config root p ∧ config.shouldExclude p = false ∧
        ∃ e ∈ Language.extensions, q.extension? = some e := by
  constructor
  · rintro ⟨f, hf, hsame⟩
    obtain ⟨hreached, hexclude, hlanguage⟩ := mem_scanAll_iff.1 (mem_scanAll_of_mem_find hf)
    refine ⟨f.path, hsame, hreached, hexclude, ?_⟩
    rw [← hsame.extension?_eq, ← Language.isSome_ofPath?_iff, hlanguage]
    rfl
  · rintro ⟨p, hsame, hreached, hexclude, hextension⟩
    rw [← hsame.extension?_eq, ← Language.isSome_ofPath?_iff] at hextension
    obtain ⟨language, hlanguage⟩ := Option.isSome_iff_exists.1 hextension
    obtain ⟨g, hg, hg'⟩ := exists_mem_firsts
      (List.mem_mergeSort.2 (mem_scanAll_iff.2 ⟨hreached, hexclude, hlanguage⟩ :
        (⟨p, language⟩ : Found) ∈ scanAll fs config root))
    exact ⟨g, hg, hg'.trans hsame⟩

/-! ### Other ways to say where -/

/-- Two configurations look for files at the same places, however often and in whatever order they
say so, and leave out the same. -/
structure SearchedAlike (config config' : Config) : Prop where
  targets : ∀ t, t ∈ config.targets ↔ t ∈ config'.targets
  libraries : ∀ d, d ∈ config.libraryRoots ++ config.librarySourceRoots ↔
    d ∈ config'.libraryRoots ++ config'.librarySourceRoots
  exclude : config.exclude = config'.exclude

/-- The same file, perhaps under another spelling of its path. -/
def Found.Alike (f g : Found) : Prop := f.path.Same g.path ∧ f.language = g.language

theorem SearchedAlike.symm (h : SearchedAlike config config') : SearchedAlike config' config :=
  ⟨fun t => (h.targets t).symm, fun d => (h.libraries d).symm, h.exclude.symm⟩

namespace SearchedAlike

variable (h : SearchedAlike config config')
include h

theorem searched {t : Path} (ht : Searched config root t) : Searched config' root t := by
  cases ht with
  | root hnone =>
      refine .root (List.eq_nil_iff_forall_not_mem.2 fun t ht => ?_)
      exact List.not_mem_nil (hnone ▸ (h.targets t).2 ht)
  | target ht => exact .target ((h.targets _).1 ht)
  | library hd => exact .library ((h.libraries _).1 hd)

theorem searched_iff {t : Path} : Searched config root t ↔ Searched config' root t :=
  ⟨h.searched, h.symm.searched⟩

theorem exists_mem_find_iff :
    (∃ f ∈ find fs config root, f.path.Same q) ↔ ∃ f ∈ find fs config' root, f.path.Same q := by
  rw [Discovery.exists_mem_find_iff, Discovery.exists_mem_find_iff]
  simp only [Reached, h.searched_iff, Config.shouldExclude, h.exclude]

/-- The components of the paths that are found are the same, one by one. -/
theorem components_find :
    (find fs config root).map (·.path.components) =
      (find fs config' root).map (·.path.components) := by
  have hordered (c : Config) : ((find fs c root).map (·.path.components)).Pairwise
      fun as bs => Path.compareComponents as bs = .lt :=
    List.pairwise_map.2 (pairwise_find fs c root)
  have : Std.Antisymm fun as bs => Path.compareComponents as bs = .lt :=
    ⟨fun as bs hlt hgt => by
      rw [@Std.OrientedCmp.eq_swap _ Path.compareComponents _ as bs, hgt] at hlt
      cases hlt⟩
  have : Std.Irrefl fun as bs => Path.compareComponents as bs = .lt :=
    ⟨fun as hlt => by
      rw [@Std.ReflCmp.compare_self _ Path.compareComponents _ as] at hlt
      cases hlt⟩
  refine (hordered config).eq_of_mem_iff (hordered config') fun as => ?_
  simp only [List.mem_map]
  constructor
  · rintro ⟨f, hf, rfl⟩
    exact h.exists_mem_find_iff.1 ⟨f, hf, rfl⟩
  · rintro ⟨f, hf, rfl⟩
    exact h.exists_mem_find_iff.2 ⟨f, hf, rfl⟩

theorem alike_find :
    List.Forall₂ Found.Alike (find fs config root) (find fs config' root) := by
  have hsame : List.Forall₂ (fun f g : Found => f.path.Same g.path)
      (find fs config root) (find fs config' root) := by
    have heq : (find fs config root).map (·.path.components) =
        (find fs config' root).map (·.path.components) := h.components_find
    rwa [← List.forall₂_eq_eq_eq, List.forall₂_map_left_iff, List.forall₂_map_right_iff] at heq
  rw [List.forall₂_iff_zip] at hsame ⊢
  refine ⟨hsame.1, fun {f g} hmem => ⟨hsame.2 hmem, ?_⟩⟩
  obtain ⟨hf, hg⟩ := List.of_mem_zip hmem
  have hlanguage : Language.ofPath? f.path = Language.ofPath? g.path := by
    rw [Language.ofPath?, Language.ofPath?, (hsame.2 hmem).extension?_eq]
  rw [extension_of_mem_find hf, extension_of_mem_find hg] at hlanguage
  exact Option.some.inj hlanguage

end SearchedAlike

/-- **The files of a project are a sorted set.**  They ascend in the order of the components, so no
two have the same path; a path is among them, under some spelling, exactly when it is reached under
a spelling that is not left out and is one of a source file; and it makes no difference but to the
spelling in what order, and how often, the places to search are given. -/
theorem find_sorted_set (fs : FileSystem) (config : Config) (root : Path) :
    (find fs config root).Pairwise
      (fun f g => f.path.compare g.path = .lt ∧ ¬ f.path.Same g.path) ∧
    (∀ q, (∃ f ∈ find fs config root, f.path.Same q) ↔
      ∃ p, p.Same q ∧ Reached fs config root p ∧ config.shouldExclude p = false ∧
        ∃ e ∈ Language.extensions, q.extension? = some e) ∧
    ∀ config', SearchedAlike config config' →
      List.Forall₂ Found.Alike (find fs config root) (find fs config' root) :=
  ⟨(pairwise_find fs config root).imp fun hlt => ⟨hlt, Path.not_same_of_compare_eq_lt hlt⟩,
    fun _ => exists_mem_find_iff, fun _ h => h.alike_find⟩

/-- A source directory that is given twice and lies in another that is given, too. -/
theorem find_sorted_set_overlapping :
    let fs : FileSystem :=
      { top :=
          .directory [("p", .directory [("src", .directory [("A.kt", .file ByteArray.empty)])])]
        here := [] }
    let config : Config := { targets := [⟨"src"⟩, ⟨"."⟩] }
    let config' : Config := { targets := [⟨"."⟩, ⟨"src"⟩, ⟨"src"⟩] }
    SearchedAlike config config' ∧
    List.Forall₂ Found.Alike (find fs config ⟨"/p"⟩) (find fs config' ⟨"/p"⟩) ∧
    (∃ f ∈ find fs config ⟨"/p"⟩, f.path.Same ⟨"/p//src/A.kt"⟩) ∧
    ¬ ∃ f ∈ find fs config ⟨"/p"⟩, f.path.Same ⟨"/p/src"⟩ := by
  intro fs config config'
  have hsearched : SearchedAlike config config' :=
    ⟨by simp [config, config', or_comm], by simp [config, config'], rfl⟩
  obtain ⟨-, hfound, halike⟩ := find_sorted_set fs config ⟨"/p"⟩
  have hshows : Entry.Shows (.directory [("A.kt", .file ByteArray.empty)]) ["A.kt"] :=
    .inside List.mem_cons_self (by decide) (.file _)
  refine ⟨hsearched, halike _ hsearched, (hfound _).2 ?_, ?_⟩
  · exact ⟨under (Path.join ⟨"/p"⟩ ⟨"src"⟩) ["A.kt"], by decide,
      ⟨_, .target (by simp [config]), _, _, rfl, hshows, rfl⟩, by decide, "kt", by decide,
      by decide⟩
  · rw [hfound]
    rintro ⟨p, -, -, -, e, he, hextension⟩
    revert e
    decide

end Discovery

end Crossref
