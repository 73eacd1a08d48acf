import Crossref.Payload
import Crossref.Proofs.Index.Placed
import Crossref.Proofs.Resolve.Answers
import Crossref.Proofs.Usage.Aggregated
import Crossref.Proofs.Usage.Recorded

/-!
# Proofs — payloads — every dependency is reported once

The entries of a payload stand for declarations of which none lies in another, nor in the
declaration that is looked at.  Every usage that a run collects is covered: its declaration lies in
that of exactly one entry, unless it lies in the declaration that is looked at.  Entries are not
lost on the way, because whatever an answer leads to is declared at a place where it can be shown.

* `reports_aggregate`: grouping covers every usage once.
* `build_reports`: a payload reports every usage of its run once.
-/

namespace Crossref
open Node

namespace Usage

/-- The one member of a list that passes a test which no two of its members pass. -/
theorem filter_eq_singleton {α : Type} {p : α → Bool} {a : α} (hp : p a = true) :
    ∀ {l : List α}, a ∈ l → (l.Pairwise fun x y => ¬(p x = true ∧ p y = true)) → l.filter p = [a]
  | x :: l, ha, h => by
      obtain ⟨hx, hl⟩ := List.pairwise_cons.1 h
      rcases List.mem_cons.1 ha with rfl | ha
      · have hnone : l.filter p = [] :=
          List.filter_eq_nil_iff.2 fun y hy hpy => hx y hy ⟨hp, hpy⟩
        rw [List.filter_cons_of_pos hp, hnone]
      · have hpx : ¬p x = true := fun hpx => hx a ha ⟨hpx, hp⟩
        rw [List.filter_cons_of_neg hpx]
        exact filter_eq_singleton hp ha hl

/-- The entries report the usages, outside the declaration with the given key: each entry comes
with the key of its declaration. -/
structure Reports (i : Index) (target : DeclKey) (usages : List Usage)
    (entries : List (DeclKey × Referenced)) : Prop where
  /-- An entry shows the declaration of a usage. -/
  shown : ∀ e ∈ entries, ∃ u ∈ usages, u.symbol.declaration = e.1 ∧
    Slice.ofSymbol i u.symbol = .ok e.2.slice
  /-- No declaration lies in another. -/
  apart : entries.Pairwise fun a b => a.1.contains b.1 = false ∧ b.1.contains a.1 = false
  /-- No declaration lies in the one that is left out. -/
  outside : ∀ e ∈ entries, target.contains e.1 = false
  /-- A usage whose declaration is not left out lies in exactly one entry, and its kind is among
  the entry's when the declaration is the entry's own. -/
  covered : ∀ u ∈ usages, target.contains u.symbol.declaration = false →
    ∃ e, entries.filter (fun e => e.1.contains u.symbol.declaration) = [e] ∧
      (e.1 = u.symbol.declaration → u.kind ∈ e.2.usageKinds)

/-- The selection that leaves out what lies in a declaration, and nothing else. -/
def Selection.outside (target : DeclKey) : Selection :=
  { projectOnly := false, excluding := some target }

theorem keeps_outside (i : Index) (target key : DeclKey) :
    (Selection.outside target).keeps i key = !target.contains key := by
  simp [Selection.keeps, Selection.outside]

section Selected

variable {i : Index} {target : DeclKey} {usages : List Usage}

theorem mem_groups_of_mem_selected {g : Group}
    (h : g ∈ selected i (.outside target) usages) :
    g ∈ groups usages ∧ target.contains g.key = false := by
  obtain ⟨hg, hk⟩ := List.mem_filter.1 ((outermost_sublist _).subset h)
  rw [keeps_outside] at hk
  exact ⟨hg, by simpa using hk⟩

/-- Of the groups that are reported none lies in another. -/
theorem selected_pairwise :
    (selected i (.outside target) usages).Pairwise fun a b =>
      a.key.contains b.key = false ∧ b.key.contains a.key = false := by
  have hkept : (selected i (.outside target) usages).Pairwise fun a b => a.key ≠ b.key :=
    (groups_pairwise usages).sublist ((outermost_sublist _).trans List.filter_sublist)
  have hout : ∀ {a b : Group}, a ∈ selected i (.outside target) usages →
      b ∈ selected i (.outside target) usages → a.key ≠ b.key →
      a.key.contains b.key = false := by
    intro a b ha hb hne
    by_contra h
    exact hne (key_eq_of_contains ((outermost_sublist _).subset ha) hb (Bool.of_not_eq_false h))
  exact hkept.imp_of_mem fun ha hb hne => ⟨hout ha hb hne, hout hb ha hne.symm⟩

variable (hplaced : ∀ u ∈ usages, i.Placed u.symbol.declaration)
include hplaced

theorem placed_of_mem_groups {g : Group} (h : g ∈ groups usages) : i.Placed g.key := by
  obtain ⟨⟨u, hu, hs⟩, hkey, -⟩ := groupsUses_of_mem h
  rw [← hkey, ← hs]
  exact hplaced u hu

/-- A group can be shown. -/
theorem exists_referenced? {g : Group} (h : g ∈ groups usages) :
    ∃ slice, Slice.ofSymbol i g.symbol = .ok slice ∧ referenced? i g = some ⟨slice, g.kinds⟩ := by
  obtain ⟨⟨u, hu, hs⟩, -, -⟩ := groupsUses_of_mem h
  obtain ⟨slice, hslice⟩ := (hplaced u hu).exists_ofSymbol
  rw [hs] at hslice
  exact ⟨slice, hslice, by rw [referenced?, hslice]⟩

/-- An entry is one of a group that is reported. -/
theorem exists_group_of_mem_entries {e : DeclKey × Referenced}
    (h : e ∈ entries i (.outside target) usages) :
    ∃ g ∈ selected i (.outside target) usages, e.1 = g.key ∧ e.2.usageKinds = g.kinds ∧
      Slice.ofSymbol i g.symbol = .ok e.2.slice := by
  obtain ⟨g, hg, he⟩ := List.mem_filterMap.1 h
  obtain ⟨slice, hslice, hr⟩ := exists_referenced? hplaced (mem_groups_of_mem_selected hg).1
  rw [hr] at he
  cases he
  exact ⟨g, hg, rfl, rfl, hslice⟩

/-- A group that is reported has an entry. -/
theorem exists_entry_of_mem_selected {g : Group}
    (h : g ∈ selected i (.outside target) usages) :
    ∃ e ∈ entries i (.outside target) usages, e.1 = g.key ∧ e.2.usageKinds = g.kinds := by
  obtain ⟨slice, -, hr⟩ := exists_referenced? hplaced (mem_groups_of_mem_selected h).1
  exact ⟨(g.key, ⟨slice, g.kinds⟩), List.mem_filterMap.2 ⟨g, h, by rw [hr]; rfl⟩, rfl, rfl⟩

omit hplaced in
theorem entries_pairwise :
    (entries i (.outside target) usages).Pairwise fun a b =>
      a.1.contains b.1 = false ∧ b.1.contains a.1 = false := by
  refine List.pairwise_filterMap.2 (selected_pairwise.imp ?_)
  intro a b hab e he e' he'
  obtain ⟨_, -, rfl⟩ := Option.map_eq_some_iff.1 he
  obtain ⟨_, -, rfl⟩ := Option.map_eq_some_iff.1 he'
  exact hab

/-- No two entries lie around one declaration. -/
theorem entries_pairwise_around {d : DeclKey} (hd : i.Placed d) :
    (entries i (.outside target) usages).Pairwise fun a b =>
      ¬(a.1.contains d = true ∧ b.1.contains d = true) := by
  refine entries_pairwise.imp_of_mem fun {a b} ha hb hab => ?_
  rintro ⟨had, hbd⟩
  obtain ⟨g, hg, hga, -⟩ := exists_group_of_mem_entries hplaced ha
  obtain ⟨g', hg', hgb, -⟩ := exists_group_of_mem_entries hplaced hb
  have hpa : i.Placed a.1 :=
    hga ▸ placed_of_mem_groups hplaced (mem_groups_of_mem_selected hg).1
  have hpb : i.Placed b.1 :=
    hgb ▸ placed_of_mem_groups hplaced (mem_groups_of_mem_selected hg').1
  -- they would be nested, and entries are not
  rcases hpa.nested_of_overlap hpb hd had hbd with h | h
  · rw [hab.1] at h; cases h
  · rw [hab.2] at h; cases h

omit hplaced in
/-- The declaration of a usage that is not left out lies in a group that is reported. -/
theorem exists_selected_around {u : Usage} (hu : u ∈ usages)
    (hout : target.contains u.symbol.declaration = false) :
    ∃ g ∈ selected i (.outside target) usages, g.key.contains u.symbol.declaration = true := by
  obtain ⟨g, hg, hkey⟩ := exists_group_of_mem hu
  have hkept : g ∈ (groups usages).filter fun g => (Selection.outside target).keeps i g.key := by
    refine List.mem_filter.2 ⟨hg, ?_⟩
    rw [keeps_outside, hkey, hout]
    rfl
  obtain ⟨outer, houter, hcontains⟩ := exists_outermost hkept
  exact ⟨outer, houter, hkey ▸ hcontains⟩

/-- **Grouping covers every usage once**, where declarations have places. -/
theorem reports_aggregate : Reports i target usages (entries i (.outside target) usages) where
  shown e he := by
    obtain ⟨g, hg, hkey, -, hslice⟩ := exists_group_of_mem_entries hplaced he
    obtain ⟨⟨u, hu, hs⟩, hd, -⟩ := groupsUses_of_mem (mem_groups_of_mem_selected hg).1
    exact ⟨u, hu, by rw [hs, hd, hkey], by rw [hs, hslice]⟩
  apart := entries_pairwise
  outside e he := by
    obtain ⟨g, hg, hkey, -⟩ := exists_group_of_mem_entries hplaced he
    rw [hkey]
    exact (mem_groups_of_mem_selected hg).2
  covered u hu hout := by
    -- the group of the usage may be left out for one around it, and that one has an entry
    obtain ⟨g, hg, hcontains⟩ := exists_selected_around hu hout
    obtain ⟨e, he, hkey, hkinds⟩ := exists_entry_of_mem_selected hplaced hg
    rw [← hkey] at hcontains
    refine ⟨e, filter_eq_singleton (p := fun e => e.1.contains u.symbol.declaration) hcontains he
      (entries_pairwise_around hplaced (hplaced u hu)), fun heq => ?_⟩
    rw [hkinds]
    exact (groupsUses_of_mem (mem_groups_of_mem_selected hg).1).kinds u hu
      (heq.symm.trans hkey)

end Selected

end Usage

namespace Payload

/-- The symbols of what a run over an index collects are those that answers lead to. -/
theorem sourced_of_collect {σ : Type} {i : Index} (hi : i.Consistent) {f : SourceFile} {n : Node}
    (hn : Within f.tree n) {l : Usage.Limits} {w : Usage.Watch σ} {tick : σ → σ} {s : σ}
    {usages : List Usage}
    (h : (Usage.collect (.ofAnswers f (.ofIndex i f) tick) l w n s).1 = .ok usages) :
    ∀ u ∈ usages, Resolve.Sourced i f u.symbol := by
  intro u hu
  have hfollows := Usage.follows_recordedAlong (Resolve.sourced_ofIndex hi f tick) s
    fun v hv => Usage.within_of_mem_itinerary hn hv
  exact hfollows.symbol u ((Usage.sublist_of_collect h).subset hu)

/-- A run that nobody cancels makes the payload of the usages that it collects. -/
theorem build_uncancelled {σ : Type} (i : Index) (f : SourceFile) (n : Node)
    (options : ExtractOptions) (tick : σ → σ) (s : σ) :
    ∃ usages,
      (Usage.collect (.ofAnswers f (.ofIndex i f) tick)
        ⟨options.maxUsages, options.includeLocalReads⟩ (.never options.cancelCheckInterval) n s).1
          = .ok usages ∧
      (build i f n options ⟨fun _ => false, tick⟩ s).1
        = .ok (ofUsages i f n options.projectOnly usages) := by
  have hcollect := Usage.collect_uncancelled (.ofAnswers f (.ofIndex i f) tick)
    ⟨options.maxUsages, options.includeLocalReads⟩ options.cancelCheckInterval n s
  refine ⟨_, hcollect, ?_⟩
  unfold build
  dsimp only
  split
  · next e s' h =>
    cases (congrArg Prod.fst h).symm.trans hcollect
  · next usages s' h =>
    cases (congrArg Prod.fst h).symm.trans hcollect
    rfl

/-- **A payload reports every usage of its run once**: for every index that is built from trees in
which no declaration is empty, every place of a file, and all options but the one that keeps to the
project. -/
theorem build_reports {σ : Type} {i : Index} (hi : i.Reachable) (hw : ∀ f ∈ i.files, f.WellFormed)
    (hsolid : ∀ f ∈ i.files, ∀ k, f.Declares k → f.SolidAt k) {f : SourceFile} (hf : f ∈ i.files)
    {n : Node} (hn : Within f.tree n) {options : ExtractOptions}
    (hoptions : options.projectOnly = false) (tick : σ → σ) (s : σ) :
    ∃ usages payload entries,
      (Usage.collect (.ofAnswers f (.ofIndex i f) tick)
        ⟨options.maxUsages, options.includeLocalReads⟩ (.never options.cancelCheckInterval) n s).1
          = .ok usages ∧
      (build i f n options ⟨fun _ => false, tick⟩ s).1 = .ok payload ∧
      entries.map Prod.snd = payload.referencedSymbols ∧
      Usage.Reports i (f.keyOf n) usages entries := by
  obtain ⟨usages, hcollect, hbuild⟩ := build_uncancelled i f n options tick s
  have hplaced : ∀ u ∈ usages, i.Placed u.symbol.declaration := fun u hu =>
    Index.placed_of_sourced hi.consistent hw hsolid hf
      (sourced_of_collect hi.consistent hn hcollect u hu)
  refine ⟨usages, _, Usage.entries i (.outside (f.keyOf n)) usages, hcollect, hbuild, ?_,
    Usage.reports_aggregate hplaced⟩
  rw [Usage.map_snd_entries, hoptions]
  rfl

open TwoProperties in
theorem build_reports_second :
    ∃ usages payload entries,
      (Usage.collect (.ofAnswers file (.ofIndex index file) id) ⟨1000, true⟩ (.never 64)
        secondNode ()).1 = .ok usages ∧
      (build index file secondNode ⟨1000, true, false, 64⟩ (.fixed false) ()).1 = .ok payload ∧
      entries.map Prod.snd = payload.referencedSymbols ∧
      Usage.Reports index (file.keyOf secondNode) usages entries :=
  have hoptions : (⟨1000, true, false, 64⟩ : ExtractOptions).projectOnly = false := rfl
  build_reports (.built _ _ _) (fun f hf => (wellFormed f hf).2.wellFormed (wellFormed f hf).1)
    (fun f hf k _ => SourceFile.solidAt_of_forall_lt (nonempty f hf) k) file_mem secondNode_within
    hoptions id ()

end Payload

end Crossref
