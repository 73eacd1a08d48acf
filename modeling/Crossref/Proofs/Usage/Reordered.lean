import Crossref.Proofs.Index.Origins
import Crossref.Proofs.Usage.Filtered
import Mathlib.Data.Finset.Dedup
import Mathlib.Data.List.Perm.Basic

/-!
# Proofs — usages — the order of the uses

Which declarations are reported depends only on which are used, and so do the kinds that an entry
has.  What it shows of its declaration comes from the symbol that was used first.  Symbols of one
declaration lead to one slice but for the origin: a class and the constructor that it has without
writing one are one declaration, and the one is written while the other is not.  So the order shows
in a report exactly where a declaration is used in both ways.

* `entries_eq_filterMap`: the entries are found one by one, for the declarations that are reported.
* `withOrigin_aggregate_perm`: but for the origins a report does not depend on the order.
* `sameUpToOrder_iff_origin`: when it does not depend on it at all, in terms of origins.
* `aggregate_perm_iff`: the same for indexed symbols.
-/

namespace Crossref

/-! ### Slices of one declaration -/

/-- The slice with another origin. -/
def Slice.withOrigin (s : Slice) (origin : Origin) : Slice := { s with origin := origin }

/-- The slice of the declaration with a key, if there is one. -/
def Slice.ofKey? (i : Index) (key : DeclKey) (origin : Origin) : Option Slice :=
  (i.file? key.file).bind fun f => (f.nodeFor? key).map fun n => Slice.ofNode i f n origin

theorem Slice.origin_ofNode (i : Index) (f : SourceFile) (n : Node) (origin : Origin) :
    (ofNode i f n origin).origin = origin := by
  unfold ofNode
  split
  · split <;> rfl
  · rfl

theorem Slice.withOrigin_ofNode (i : Index) (f : SourceFile) (n : Node) (o origin : Origin) :
    (ofNode i f n o).withOrigin origin = ofNode i f n origin := by
  unfold ofNode
  split
  · split <;> rfl
  · rfl

theorem Slice.withOrigin_ofKey? (i : Index) (key : DeclKey) (o origin : Origin) :
    (ofKey? i key o).map (·.withOrigin origin) = ofKey? i key origin := by
  simp only [ofKey?, Option.map_bind, Option.map_map, Function.comp_def, withOrigin_ofNode]

/-- The slice of a symbol is that of its declaration, with the symbol's origin. -/
theorem Slice.toOption_ofSymbol (i : Index) (s : Symbol) :
    (ofSymbol i s).toOption = ofKey? i s.declaration s.origin := by
  unfold ofSymbol ofKey?
  cases i.file? s.declaration.file with
  | none => rfl
  | some f =>
      simp only [Option.bind_some]
      cases f.nodeFor? s.declaration <;> rfl

theorem Slice.origin_of_ofKey? {i : Index} {key : DeclKey} {origin : Origin} {s : Slice}
    (h : ofKey? i key origin = some s) : s.origin = origin := by
  obtain ⟨f, -, h⟩ := Option.bind_eq_some_iff.1 h
  obtain ⟨n, -, rfl⟩ := Option.map_eq_some_iff.1 h
  exact origin_ofNode i f n origin

namespace Usage

/-! ### Entries that are compared -/

/-- The entry with another origin. -/
def Referenced.withOrigin (r : Referenced) (origin : Origin) : Referenced :=
  { r with slice := r.slice.withOrigin origin }

/-- What an entry says, whatever the order of its kinds. -/
def Referenced.content (r : Referenced) : Slice × Finset Kind := (r.slice, r.usageKinds.toFinset)

/-- The reports say the same, whatever the order of their entries. -/
def SameUpToOrder (as bs : List Referenced) : Prop :=
  (as.map Referenced.content).Perm (bs.map Referenced.content)

/-! ### Entries one by one -/

/-- The kinds of the uses of a declaration. -/
def kindsOf (usages : List Usage) (key : DeclKey) : List Kind :=
  ((usages.filter fun u => u.symbol.declaration == key).map Usage.kind).eraseDups

/-- The first use of a declaration, if it is used. -/
def firstUse? (usages : List Usage) (key : DeclKey) : Option Usage :=
  usages.find? fun u => u.symbol.declaration == key

/-- The entry of a declaration, if it is used and can be found. -/
def entryAt? (i : Index) (usages : List Usage) (key : DeclKey) : Option Referenced :=
  (firstUse? usages key).bind fun first =>
    (Slice.ofKey? i key first.symbol.origin).map fun slice => ⟨slice, kindsOf usages key⟩

/-- The declarations that are reported: they are kept and lie in no other one that is used. -/
def reportedKeys (i : Index) (sel : Selection) (usages : List Usage) : List DeclKey :=
  (usedKeys usages).filter fun key =>
    sel.keeps i key && !(usedKeys usages).any (·.strictlyContains key)

theorem groupOf?_eq (usages : List Usage) (key : DeclKey) :
    groupOf? usages key =
      (firstUse? usages key).map fun first => ⟨key, first.symbol, kindsOf usages key⟩ := by
  rw [firstUse?, ← List.head?_filter]
  rfl

theorem mem_usedKeys {usages : List Usage} {key : DeclKey} :
    key ∈ usedKeys usages ↔ ∃ u ∈ usages, u.symbol.declaration = key := by
  rw [usedKeys, List.mem_eraseDups, List.mem_map]

theorem exists_firstUse? {usages : List Usage} {key : DeclKey} (h : key ∈ usedKeys usages) :
    ∃ first, firstUse? usages key = some first := by
  obtain ⟨u, hu, hkey⟩ := mem_usedKeys.1 h
  exact Option.isSome_iff_exists.1 (List.find?_isSome.2 ⟨u, hu, by simpa using hkey⟩)

theorem firstUse?_some {usages : List Usage} {key : DeclKey} {first : Usage}
    (h : firstUse? usages key = some first) :
    first ∈ usages ∧ first.symbol.declaration = key :=
  ⟨List.mem_of_find?_eq_some h, by simpa using List.find?_some h⟩

theorem mem_usedKeys_of_reported {i : Index} {sel : Selection} {usages : List Usage}
    {key : DeclKey} (h : key ∈ reportedKeys i sel usages) : key ∈ usedKeys usages :=
  List.mem_of_mem_filter h

/-- The groups are those of the declarations that are used. -/
theorem map_key_groups (usages : List Usage) :
    (groups usages).map Group.key = usedKeys usages := by
  rw [groups, List.map_filterMap]
  have hown : ∀ key ∈ usedKeys usages,
      (groupOf? usages key).map Group.key = some key := by
    intro key hkey
    obtain ⟨first, hfirst⟩ := exists_firstUse? hkey
    rw [groupOf?_eq, hfirst]
    rfl
  rw [List.filterMap_congr hown, List.filterMap_some]

/-- The groups that are reported are those of the declarations that are. -/
theorem selected_eq_filterMap (i : Index) (sel : Selection) (usages : List Usage) :
    selected i sel usages = (reportedKeys i sel usages).filterMap (groupOf? usages) := by
  have hany : ∀ key : DeclKey,
      ((groups usages).any fun outer => outer.key.strictlyContains key) =
        (usedKeys usages).any (·.strictlyContains key) := by
    intro key
    rw [← map_key_groups, List.any_map]
    rfl
  rw [selected_eq_filter, selected_everything, outermost, List.filter_filter, reportedKeys,
    List.filterMap_filter, groups, List.filter_filterMap]
  refine List.filterMap_congr fun key _ => ?_
  rw [← groups]
  simp only [hany]
  rw [groupOf?_eq]
  cases firstUse? usages key with
  | none => simp
  | some first => simp [Option.filter]

/-- **The entries are found one by one**, for the declarations that are reported. -/
theorem entries_eq_filterMap (i : Index) (sel : Selection) (usages : List Usage) :
    entries i sel usages =
      (reportedKeys i sel usages).filterMap fun key =>
        (entryAt? i usages key).map fun r => (key, r) := by
  rw [entries, selected_eq_filterMap, List.filterMap_filterMap]
  refine List.filterMap_congr fun key _ => ?_
  rw [groupOf?_eq, entryAt?]
  cases hf : firstUse? usages key with
  | none => rfl
  | some first =>
      obtain ⟨-, rfl⟩ := firstUse?_some hf
      simp only [Option.map_some, Option.bind_some, referenced?, ← Slice.toOption_ofSymbol]
      cases Slice.ofSymbol i first.symbol <;> rfl

/-- So is what a report says of its entries. -/
theorem map_aggregate {β : Type} (i : Index) (sel : Selection) (usages : List Usage)
    (told : Referenced → β) :
    (aggregate i sel usages).map told =
      (reportedKeys i sel usages).filterMap fun key => (entryAt? i usages key).map told := by
  rw [← map_snd_entries, entries_eq_filterMap, List.map_filterMap, List.map_filterMap]
  refine List.filterMap_congr fun key _ => ?_
  cases entryAt? i usages key <;> rfl

theorem mem_entries_iff {i : Index} {sel : Selection} {usages : List Usage} {key : DeclKey}
    {r : Referenced} :
    (key, r) ∈ entries i sel usages ↔
      key ∈ reportedKeys i sel usages ∧ entryAt? i usages key = some r := by
  simp only [entries_eq_filterMap, List.mem_filterMap, Option.map_eq_some_iff, Prod.mk.injEq]
  constructor
  · rintro ⟨key', hmem, r', hr, rfl, rfl⟩
    exact ⟨hmem, hr⟩
  · rintro ⟨hmem, hr⟩
    exact ⟨key, hmem, r, hr, rfl, rfl⟩

/-- An entry has the origin of the symbol that was used first. -/
theorem origin_of_entryAt? {i : Index} {usages : List Usage} {key : DeclKey} {r : Referenced}
    (h : entryAt? i usages key = some r) :
    ∃ first, firstUse? usages key = some first ∧ r.slice.origin = first.symbol.origin := by
  obtain ⟨first, hfirst, h⟩ := Option.bind_eq_some_iff.1 h
  obtain ⟨slice, hslice, rfl⟩ := Option.map_eq_some_iff.1 h
  exact ⟨first, hfirst, Slice.origin_of_ofKey? hslice⟩

/-! ### The same uses in another order -/

section Perm

variable {i : Index} {sel : Selection} {usages others : List Usage}

theorem usedKeys_perm (h : usages.Perm others) : (usedKeys usages).Perm (usedKeys others) := by
  refine (List.perm_ext_iff_of_nodup (nodup_eraseDups _) (nodup_eraseDups _)).2 fun key => ?_
  rw [← usedKeys, ← usedKeys, mem_usedKeys, mem_usedKeys]
  simp only [h.mem_iff]

/-- The same declarations are reported. -/
theorem reportedKeys_perm (h : usages.Perm others) :
    (reportedKeys i sel usages).Perm (reportedKeys i sel others) := by
  have hany : ∀ key : DeclKey, (usedKeys usages).any (·.strictlyContains key) =
      (usedKeys others).any (·.strictlyContains key) := by
    intro key
    rw [Bool.eq_iff_iff]
    simp only [List.any_eq_true, (usedKeys_perm h).mem_iff]
  simp only [reportedKeys, hany]
  exact (usedKeys_perm h).filter _

/-- They are used in the same ways. -/
theorem kindsOf_perm (h : usages.Perm others) (key : DeclKey) :
    (kindsOf usages key).toFinset = (kindsOf others key).toFinset := by
  ext kind
  simp only [kindsOf, List.mem_toFinset, List.mem_eraseDups, List.mem_map, List.mem_filter,
    h.mem_iff]

/-- What is said of every declaration decides what a report says. -/
theorem map_aggregate_perm {β : Type} {told : Referenced → β} (h : usages.Perm others)
    (heq : ∀ key ∈ reportedKeys i sel usages,
      (entryAt? i usages key).map told = (entryAt? i others key).map told) :
    ((aggregate i sel usages).map told).Perm ((aggregate i sel others).map told) := by
  rw [map_aggregate, map_aggregate, List.filterMap_congr heq]
  exact (reportedKeys_perm h).filterMap _

/-- But for the origin, what is said of a declaration is the same. -/
theorem entryAt?_withOrigin_perm (h : usages.Perm others) {key : DeclKey}
    (hkey : key ∈ usedKeys usages) (origin : Origin) :
    ((entryAt? i usages key).map (·.withOrigin origin)).map Referenced.content =
      ((entryAt? i others key).map (·.withOrigin origin)).map Referenced.content := by
  have hown : ∀ us : List Usage, key ∈ usedKeys us →
      ((entryAt? i us key).map (·.withOrigin origin)).map Referenced.content =
        (Slice.ofKey? i key origin).map fun slice => (slice, (kindsOf us key).toFinset) := by
    intro us hus
    obtain ⟨first, hfirst⟩ := exists_firstUse? hus
    rw [entryAt?, hfirst, Option.bind_some, Option.map_map, Option.map_map,
      ← Slice.withOrigin_ofKey? i key first.symbol.origin origin, Option.map_map]
    rfl
  rw [hown usages hkey, hown others ((usedKeys_perm h).mem_iff.1 hkey), kindsOf_perm h]

/-- The same declarations can be found. -/
theorem isSome_entryAt?_perm (h : usages.Perm others) {key : DeclKey}
    (hkey : key ∈ usedKeys usages) :
    (entryAt? i usages key).isSome = (entryAt? i others key).isSome := by
  have hsame := congrArg Option.isSome (entryAt?_withOrigin_perm (i := i) h hkey default)
  simpa only [Option.isSome_map] using hsame

/-- **But for the origins a report does not depend on the order** of the uses. -/
theorem withOrigin_aggregate_perm (h : usages.Perm others) (origin : Origin) :
    SameUpToOrder ((aggregate i sel usages).map (·.withOrigin origin))
      ((aggregate i sel others).map (·.withOrigin origin)) := by
  rw [SameUpToOrder, List.map_map, List.map_map]
  refine map_aggregate_perm h fun key hkey => ?_
  have hused := mem_usedKeys_of_reported hkey
  simpa only [Option.map_map] using entryAt?_withOrigin_perm h hused origin

/-- Where the first uses of a declaration have one origin, the same is said of it. -/
theorem entryAt?_perm (h : usages.Perm others) {key : DeclKey} {first other : Usage}
    (hfirst : firstUse? usages key = some first) (hother : firstUse? others key = some other)
    (horigin : first.symbol.origin = other.symbol.origin) :
    (entryAt? i usages key).map Referenced.content =
      (entryAt? i others key).map Referenced.content := by
  simp only [entryAt?, hfirst, hother, Option.bind_some, horigin, Option.map_map]
  refine Option.map_congr fun slice _ => ?_
  simp only [Function.comp_apply, Referenced.content, kindsOf_perm h]

/-- A report does not depend on the order where every declaration that it shows is used with one
origin only. -/
theorem aggregate_perm (h : usages.Perm others)
    (halike : ∀ e ∈ entries i sel usages, ∀ u ∈ usages, u.symbol.declaration = e.1 →
      u.symbol.origin = e.2.slice.origin) :
    SameUpToOrder (aggregate i sel usages) (aggregate i sel others) := by
  refine map_aggregate_perm h fun key hkey => ?_
  have hused := mem_usedKeys_of_reported hkey
  obtain ⟨first, hfirst⟩ := exists_firstUse? hused
  obtain ⟨other, hother⟩ := exists_firstUse? ((usedKeys_perm h).mem_iff.1 hused)
  cases hentry : entryAt? i usages key with
  | none =>
      have hsome := isSome_entryAt?_perm (i := i) h hused
      rw [hentry] at hsome
      have hnone : entryAt? i others key = none := by simpa using hsome.symm
      rw [hnone]
  | some r =>
      have hall := halike _ (mem_entries_iff.2 ⟨hkey, hentry⟩)
      obtain ⟨hmem, hdecl⟩ := firstUse?_some hfirst
      obtain ⟨hmem', hdecl'⟩ := firstUse?_some hother
      rw [← hentry]
      exact entryAt?_perm h hfirst hother
        ((hall _ hmem hdecl).trans (hall _ (h.mem_iff.2 hmem') hdecl').symm)

end Perm

/-! ### A use that comes first -/

theorem nodup_reportedKeys (i : Index) (sel : Selection) (usages : List Usage) :
    (reportedKeys i sel usages).Nodup := (nodup_eraseDups _).filter _

/-- What is said of one declaration can be told from a report when the same is said of the
others. -/
theorem eq_of_filterMap_perm {α β : Type} [DecidableEq α] {l : List α} (hl : l.Nodup) {a : α}
    (ha : a ∈ l) {told told' : α → Option β} {x y : β} (hx : told a = some x)
    (hy : told' a = some y) (hother : ∀ b ≠ a, told b = told' b)
    (h : (l.filterMap told).Perm (l.filterMap told')) : x = y := by
  have herase := List.perm_cons_erase ha
  have h := ((herase.filterMap told).symm.trans h).trans (herase.filterMap told')
  have hrest : (l.erase a).filterMap told = (l.erase a).filterMap told' :=
    List.filterMap_congr fun b hb => hother b (hl.mem_erase_iff.1 hb).1
  rw [List.filterMap_cons_some hx, List.filterMap_cons_some hy, hrest] at h
  exact List.singleton_perm_singleton.1 ((List.perm_append_right_iff _).1 h)

theorem firstUse?_cons {u : Usage} {key : DeclKey} (h : u.symbol.declaration = key)
    (usages : List Usage) : firstUse? (u :: usages) key = some u := by
  rw [firstUse?, List.find?_cons, beq_iff_eq.2 h]

/-- A use does not matter to the other declarations, wherever it stands. -/
theorem firstUse?_middle {u : Usage} {key : DeclKey} (before after : List Usage)
    (h : u.symbol.declaration ≠ key) :
    firstUse? (before ++ u :: after) key = firstUse? (u :: (before ++ after)) key := by
  simp only [firstUse?, List.find?_append, List.find?_cons, beq_eq_false_iff_ne.2 h]

/-- With a use put in front, its declaration is shown with the origin of that use. -/
theorem origin_eq_of_sameUpToOrder {i : Index} {sel : Selection} {before after : List Usage}
    {u : Usage} {e : DeclKey × Referenced} (he : e ∈ entries i sel (before ++ u :: after))
    (hu : u.symbol.declaration = e.1)
    (h : SameUpToOrder (aggregate i sel (before ++ u :: after))
      (aggregate i sel (u :: (before ++ after)))) :
    u.symbol.origin = e.2.slice.origin := by
  obtain ⟨key, r⟩ := e
  obtain ⟨hkey, hentry⟩ := mem_entries_iff.1 he
  have hperm : (before ++ u :: after).Perm (u :: (before ++ after)) := List.perm_middle
  -- in the other order there is an entry, too, with the origin of the use
  have hsome := isSome_entryAt?_perm (i := i) hperm (mem_usedKeys_of_reported hkey)
  rw [hentry] at hsome
  obtain ⟨r', hentry'⟩ := Option.isSome_iff_exists.1 hsome.symm
  obtain ⟨first, hfirst, horigin⟩ := origin_of_entryAt? hentry'
  rw [firstUse?_cons hu] at hfirst
  obtain rfl := Option.some.inj hfirst
  rw [← horigin]
  -- of the other declarations the same is said in both orders
  have hother : ∀ other ≠ key,
      (entryAt? i (before ++ u :: after) other).map Referenced.content =
        (entryAt? i (u :: (before ++ after)) other).map Referenced.content := by
    intro other hne
    have hfirsts := firstUse?_middle before after (hu.trans_ne hne.symm)
    cases hf : firstUse? (u :: (before ++ after)) other with
    | none => simp only [entryAt?, hfirsts, hf, Option.bind_none]
    | some first => exact entryAt?_perm hperm (hfirsts.trans hf) hf rfl
  have hcontents : r.content = r'.content := by
    refine eq_of_filterMap_perm (nodup_reportedKeys i sel _) hkey (congrArg _ hentry)
      (congrArg _ hentry') hother ?_
    rw [SameUpToOrder, map_aggregate, map_aggregate] at h
    exact h.trans ((reportedKeys_perm hperm).symm.filterMap _)
  exact congrArg (fun c => c.1.origin) hcontents.symm

/-- **A report does not depend on the order of the uses** exactly when every declaration that it
shows is used with one origin only. -/
theorem sameUpToOrder_iff_origin {i : Index} {sel : Selection} {usages : List Usage} :
    (∀ others, usages.Perm others →
      SameUpToOrder (aggregate i sel usages) (aggregate i sel others)) ↔
    ∀ e ∈ entries i sel usages, ∀ u ∈ usages, u.symbol.declaration = e.1 →
      u.symbol.origin = e.2.slice.origin := by
  constructor
  · intro h e he u hu hkey
    obtain ⟨before, after, rfl⟩ := List.append_of_mem hu
    exact origin_eq_of_sameUpToOrder he hkey (h _ List.perm_middle)
  · intro halike others h
    exact aggregate_perm h halike

/-- **When a report depends on the order of the uses.**  But for the origins that it shows it never
does.  It does not depend on it at all exactly when the symbols with which a reported declaration is
used are all written or all added by the compiler. -/
theorem aggregate_perm_iff {i : Index} (hi : i.Reachable) (sel : Selection) {usages : List Usage}
    (hindexed : ∀ u ∈ usages, u.symbol ∈ i.symbols) :
    (∀ others, usages.Perm others → ∀ origin,
      SameUpToOrder ((aggregate i sel usages).map (·.withOrigin origin))
        ((aggregate i sel others).map (·.withOrigin origin))) ∧
    ((∀ others, usages.Perm others →
        SameUpToOrder (aggregate i sel usages) (aggregate i sel others)) ↔
      ∀ e ∈ entries i sel usages, ∀ u ∈ usages, u.symbol.declaration = e.1 →
        ∀ v ∈ usages, v.symbol.declaration = e.1 →
          (u.symbol.origin = .synthetic ↔ v.symbol.origin = .synthetic)) := by
  refine ⟨fun others h origin => withOrigin_aggregate_perm h origin, ?_⟩
  rw [sameUpToOrder_iff_origin]
  have horigin : ∀ {key : DeclKey} {u v : Usage}, u ∈ usages → u.symbol.declaration = key →
      v ∈ usages → v.symbol.declaration = key →
      (u.symbol.origin = v.symbol.origin ↔
        (u.symbol.origin = .synthetic ↔ v.symbol.origin = .synthetic)) :=
    fun hu hukey hv hvkey =>
      hi.origin_eq_iff (hindexed _ hu) (hindexed _ hv) (by rw [hukey, hvkey])
  constructor
  · intro h e he u hu hukey v hv hvkey
    exact (horigin hu hukey hv hvkey).1 ((h e he u hu hukey).trans (h e he v hv hvkey).symm)
  · intro h e he u hu hukey
    -- the entry shows the origin of the use that came first
    obtain ⟨first, hfirst, hshown⟩ := origin_of_entryAt? (mem_entries_iff.1 he).2
    obtain ⟨hmem, hkey⟩ := firstUse?_some hfirst
    rw [hshown]
    exact (horigin hu hukey hmem hkey).2 (h e he u hu hukey first hmem hkey)

/-! ### A class and its constructor -/

open TwoOrigins in
/-- What is written is reported in the same way in every order. -/
theorem aggregate_perm_iff_written :
    index.Reachable ∧ (∀ u ∈ usages, u.symbol ∈ index.symbols) ∧
    ∀ others, usages.Perm others →
      SameUpToOrder (aggregate index {} usages) (aggregate index {} others) := by
  have hi : index.Reachable := .built _ _ _
  have hindexed : ∀ u ∈ usages, u.symbol ∈ index.symbols := by decide
  exact ⟨hi, hindexed, (aggregate_perm_iff hi {} hindexed).2.2 (by decide)⟩

open TwoOrigins in
/-- The class is shown as written when its name is used first, and as added by the compiler when its
constructor, which is not written, is called first. -/
theorem aggregate_apart_implicitConstructor :
    index.Reachable ∧ (∀ u ∈ [useOf "A", useOf "<init>"], u.symbol ∈ index.symbols) ∧
    [useOf "A", useOf "<init>"].Perm [useOf "<init>", useOf "A"] ∧
    (aggregate index {} [useOf "A", useOf "<init>"]).map (·.slice.origin) = [.source] ∧
    (aggregate index {} [useOf "<init>", useOf "A"]).map (·.slice.origin) = [.synthetic] ∧
    ¬ SameUpToOrder (aggregate index {} [useOf "A", useOf "<init>"])
      (aggregate index {} [useOf "<init>", useOf "A"]) := by
  have hwritten : (aggregate index {} [useOf "A", useOf "<init>"]).map (·.slice.origin) =
      [.source] := by decide
  have hadded : (aggregate index {} [useOf "<init>", useOf "A"]).map (·.slice.origin) =
      [.synthetic] := by decide
  refine ⟨.built _ _ _, by decide, .swap _ _ _, hwritten, hadded, fun hsame => ?_⟩
  have horigins := hsame.map fun content => content.1.origin
  rw [List.map_map, List.map_map] at horigins
  have habsurd : [Origin.source].Perm [.synthetic] := by
    rw [← hwritten, ← hadded]
    exact horigins
  exact absurd (List.singleton_perm_singleton.1 habsurd) (by decide)

end Usage

end Crossref
