import Crossref.Usage.Aggregate
import Mathlib.Data.List.Basic

/-!
# Proofs — usages — what grouping keeps

Usages of one declaration make one group, which has the kinds of all of them.  Among finitely many
groups every one lies in an outermost one, because strict containment of keys goes up only finitely
often.  Where keys that overlap are nested, a declaration lies in at most one outermost group.

* `exists_group_of_mem`: a usage is in the group of its declaration.
* `exists_outermost`: every group lies in an outermost one.
* `key_eq_of_contains`: of two outermost groups that overlap both are one.
-/

namespace Crossref

namespace DeclKey

theorem strictlyContains_iff {a b : DeclKey} :
    a.strictlyContains b = true ↔ a.contains b = true ∧ a ≠ b := by
  simp only [contains, Bool.or_eq_true, beq_iff_eq]
  constructor
  · intro h
    refine ⟨.inr h, ?_⟩
    rintro rfl
    rw [strictlyContains_irrefl] at h
    cases h
  · rintro ⟨h | h, hne⟩
    · exact absurd h hne
    · exact h

/-- What lies in a smaller span lies in the larger one, and more deeply. -/
theorem strictlyContains_of_contains {a b c : DeclKey} (hab : a.strictlyContains b = true)
    (hbc : b.contains c = true) : a.strictlyContains c = true := by
  obtain ⟨hab, hne⟩ := strictlyContains_iff.1 hab
  refine strictlyContains_iff.2 ⟨contains_trans hab hbc, ?_⟩
  rintro rfl
  exact hne (contains_antisymm hab hbc)

end DeclKey

namespace Usage

/-! ### Groups -/

theorem nodup_eraseDups {α : Type} [BEq α] [LawfulBEq α] : ∀ l : List α, l.eraseDups.Nodup
  | [] => List.nodup_nil
  | a :: l => by
      rw [List.eraseDups_cons, List.nodup_cons]
      refine ⟨fun h => ?_, nodup_eraseDups _⟩
      have := (List.mem_filter.1 (List.mem_eraseDups.1 h)).2
      simp at this
  termination_by l => l.length
  decreasing_by exact Nat.lt_succ_of_le (List.length_filter_le _ _)

/-- What the group of a declaration is made of. -/
structure GroupsUses (usages : List Usage) (g : Group) : Prop where
  /-- It shows the symbol of a usage of its declaration. -/
  symbol : ∃ u ∈ usages, u.symbol = g.symbol
  key : g.symbol.declaration = g.key
  /-- It has the kinds of all usages of its declaration. -/
  kinds : ∀ u ∈ usages, u.symbol.declaration = g.key → u.kind ∈ g.kinds

theorem groupsUses_of_groupOf? {usages : List Usage} {key : DeclKey} {g : Group}
    (h : groupOf? usages key = some g) : g.key = key ∧ GroupsUses usages g := by
  obtain ⟨first, hfirst, rfl⟩ := Option.map_eq_some_iff.1 h
  obtain ⟨hmem, hkey⟩ := List.mem_filter.1 (List.mem_of_head? hfirst)
  refine ⟨rfl, ⟨first, hmem, rfl⟩, by simpa using hkey, fun u hu hd => ?_⟩
  exact List.mem_eraseDups.2 (List.mem_map.2 ⟨u, List.mem_filter.2 ⟨hu, by simpa using hd⟩, rfl⟩)

/-- A group holds the uses of one declaration. -/
theorem groupsUses_of_mem {usages : List Usage} {g : Group} (h : g ∈ groups usages) :
    GroupsUses usages g := by
  obtain ⟨key, -, hg⟩ := List.mem_filterMap.1 h
  exact (groupsUses_of_groupOf? hg).2

/-- **A usage is in the group of its declaration.** -/
theorem exists_group_of_mem {usages : List Usage} {u : Usage} (hu : u ∈ usages) :
    ∃ g ∈ groups usages, g.key = u.symbol.declaration := by
  have hown : u ∈ usages.filter fun v => v.symbol.declaration == u.symbol.declaration :=
    List.mem_filter.2 ⟨hu, by simp⟩
  obtain ⟨g, hg⟩ : ∃ g, groupOf? usages u.symbol.declaration = some g := by
    unfold groupOf?
    dsimp only
    cases hf : usages.filter fun v => v.symbol.declaration == u.symbol.declaration with
    | nil => rw [hf] at hown; cases hown
    | cons first rest => exact ⟨_, rfl⟩
  refine ⟨g, List.mem_filterMap.2 ⟨_, ?_, hg⟩, (groupsUses_of_groupOf? hg).1⟩
  exact List.mem_eraseDups.2 (List.mem_map.2 ⟨u, hu, rfl⟩)

/-- Different groups have different keys. -/
theorem groups_pairwise (usages : List Usage) :
    (groups usages).Pairwise fun a b => a.key ≠ b.key := by
  refine List.pairwise_filterMap.2 ((nodup_eraseDups _).imp ?_)
  intro k k' hne a ha b hb
  rw [(groupsUses_of_groupOf? ha).1, (groupsUses_of_groupOf? hb).1]
  exact hne

/-! ### Outermost groups -/

theorem outermost_sublist (gs : List Group) : (outermost gs).Sublist gs := List.filter_sublist

/-- **Every group lies in an outermost one.**  The induction is on the number of groups that it lies
strictly in: a group around it lies strictly in fewer. -/
theorem exists_outermost {gs : List Group} :
    ∀ {g : Group}, g ∈ gs → ∃ outer ∈ outermost gs, outer.key.contains g.key = true := by
  suffices h : ∀ (n : Nat) (g : Group), g ∈ gs →
      (gs.filter fun a => a.key.strictlyContains g.key).length ≤ n →
      ∃ outer ∈ outermost gs, outer.key.contains g.key = true from
    fun {g} hg => h _ g hg (Nat.le_refl _)
  intro n
  induction n with
  | zero =>
      intro g hg hn
      have hnone := List.eq_nil_of_length_eq_zero (Nat.le_zero.1 hn)
      refine ⟨g, mem_outermost_iff.2 ⟨hg, fun a ha => ?_⟩, DeclKey.contains_refl _⟩
      simpa using List.filter_eq_nil_iff.1 hnone a ha
  | succ n ih =>
      intro g hg hn
      by_cases hany : ∃ a ∈ gs, a.key.strictlyContains g.key = true
      · obtain ⟨a, ha, hag⟩ := hany
        have hcontains := (DeclKey.strictlyContains_iff.1 hag).1
        have hsub : (gs.filter fun b => b.key.strictlyContains a.key).Sublist
            (gs.filter fun b => b.key.strictlyContains g.key) :=
          List.monotone_filter_right gs fun b hb =>
            DeclKey.strictlyContains_of_contains hb hcontains
        have hlt : (gs.filter fun b => b.key.strictlyContains a.key).length <
            (gs.filter fun b => b.key.strictlyContains g.key).length := by
          refine Nat.lt_of_le_of_ne hsub.length_le fun heq => ?_
          -- the group around `g` does not lie strictly in itself
          have hmem : a ∈ gs.filter fun b => b.key.strictlyContains g.key :=
            List.mem_filter.2 ⟨ha, hag⟩
          rw [← hsub.eq_of_length heq] at hmem
          simpa [DeclKey.strictlyContains_irrefl] using (List.mem_filter.1 hmem).2
        obtain ⟨outer, houter, hoa⟩ := ih a ha (Nat.le_of_lt_succ (Nat.lt_of_lt_of_le hlt hn))
        exact ⟨outer, houter, DeclKey.contains_trans hoa hcontains⟩
      · refine ⟨g, mem_outermost_iff.2 ⟨hg, fun a ha => ?_⟩, DeclKey.contains_refl _⟩
        exact Bool.eq_false_iff.2 fun h => hany ⟨a, ha, h⟩

/-- An outermost group that lies in another group has the same key. -/
theorem key_eq_of_contains {gs : List Group} {a b : Group} (ha : a ∈ gs)
    (hb : b ∈ outermost gs) (h : a.key.contains b.key = true) : a.key = b.key := by
  have hstrict := (mem_outermost_iff.1 hb).2 a ha
  by_contra hne
  rw [DeclKey.strictlyContains_iff.2 ⟨h, hne⟩] at hstrict
  cases hstrict

/-! ### Entries -/

/-- The groups that are reported, each with its key. -/
def entries (i : Index) (sel : Selection) (usages : List Usage) : List (DeclKey × Referenced) :=
  (selected i sel usages).filterMap fun g => (referenced? i g).map fun r => (g.key, r)

/-- The report shows the entries in their order. -/
theorem map_snd_entries (i : Index) (sel : Selection) (usages : List Usage) :
    (entries i sel usages).map Prod.snd = aggregate i sel usages := by
  rw [entries, aggregate, List.map_filterMap]
  refine List.filterMap_congr fun g _ => ?_
  cases referenced? i g <;> rfl

end Usage

end Crossref
