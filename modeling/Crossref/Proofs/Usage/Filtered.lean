import Crossref.Project
import Crossref.Proofs.Tree.Spans
import Crossref.Proofs.Usage.Aggregated

/-!
# Proofs — usages — leaving out before and after grouping

Groups are left out before the nested ones among them are dropped, so a group that is left out might
uncover one that lies in it.  It does not: what is around a declaration stands in the same file, and
where it lies in the target the declaration does so, too.  A declaration that is kept is kept with
all that is around it.

* `keeps_of_strictlyContains`: a selection that keeps a declaration keeps what is around it.
* `outermost_filter`: of such a selection the outermost groups are those of all groups.
* `aggregate_filtered`: leaving out is choosing among the entries of everything.
-/

namespace Crossref

namespace DeclKey

/-- The declaration stands in the file of the other, and in its span. -/
def Inside (target key : DeclKey) : Prop :=
  key.file = target.file ∧ target.start ≤ key.start ∧ key.stop ≤ target.stop

instance (target key : DeclKey) : Decidable (Inside target key) :=
  inferInstanceAs (Decidable (_ ∧ _ ∧ _))

theorem contains_iff_inside {target key : DeclKey} :
    target.contains key = true ↔ target.Inside key := by
  rw [contains_iff, Inside]
  constructor
  · rintro ⟨hfile, rfl | hspan⟩
    · simp
    · exact ⟨hfile.symm, hspan⟩
  · rintro ⟨hfile, hspan⟩
    exact ⟨hfile.symm, .inr hspan⟩

theorem file_eq_of_strictlyContains {outer inner : DeclKey}
    (h : outer.strictlyContains inner = true) : outer.file = inner.file :=
  (contains_iff.1 (strictlyContains_iff.1 h).1).1

end DeclKey

namespace Usage

/-! ### What is kept with a declaration -/

theorem isProjectAuthored_congr (i : Index) {a b : DeclKey} (h : a.file = b.file) :
    isProjectAuthored i a = isProjectAuthored i b := by
  simp only [isProjectAuthored, h]

/-- **A selection that keeps a declaration keeps what is around it.** -/
theorem keeps_of_strictlyContains {i : Index} {sel : Selection} {outer inner : DeclKey}
    (h : outer.strictlyContains inner = true) (hk : sel.keeps i inner = true) :
    sel.keeps i outer = true := by
  have hfile := DeclKey.file_eq_of_strictlyContains h
  obtain ⟨hcontains, -⟩ := DeclKey.strictlyContains_iff.1 h
  simp only [Selection.keeps, Bool.and_eq_true] at hk ⊢
  obtain ⟨hout, hauthored⟩ := hk
  rw [isProjectAuthored_congr i hfile]
  refine ⟨?_, hauthored⟩
  cases hx : sel.excluding with
  | none => rfl
  | some target =>
      simp only [hx, Bool.not_eq_true'] at hout ⊢
      -- what contains the outer declaration contains the inner one
      by_contra hin
      have hinner := DeclKey.contains_trans (Bool.of_not_eq_false hin) hcontains
      rw [hinner] at hout
      cases hout

/-- **Of a selection that keeps what is around a declaration** the outermost groups are those of all
groups. -/
theorem outermost_filter {keep : DeclKey → Bool}
    (hup : ∀ {outer inner : DeclKey}, outer.strictlyContains inner = true → keep inner = true →
      keep outer = true) (gs : List Group) :
    outermost (gs.filter fun g => keep g.key) = (outermost gs).filter fun g => keep g.key := by
  unfold outermost
  rw [List.filter_filter, List.filter_filter]
  refine List.filter_congr fun g _ => ?_
  by_cases hg : keep g.key = true
  · have hany : (gs.filter fun g => keep g.key).any (fun outer => outer.key.strictlyContains g.key)
        = gs.any fun outer => outer.key.strictlyContains g.key := by
      rw [Bool.eq_iff_iff]
      simp only [List.any_eq_true, List.mem_filter]
      constructor
      · rintro ⟨outer, ⟨hmem, -⟩, hcontains⟩
        exact ⟨outer, hmem, hcontains⟩
      · rintro ⟨outer, hmem, hcontains⟩
        exact ⟨outer, ⟨hmem, hup hcontains hg⟩, hcontains⟩
    rw [hany, hg, Bool.and_true, Bool.true_and]
  · rw [Bool.eq_false_iff.2 hg, Bool.and_false, Bool.false_and]

/-! ### Entries of a selection -/

theorem keeps_everything (i : Index) (key : DeclKey) : (Selection.keeps {} i key) = true := rfl

theorem selected_everything (i : Index) (usages : List Usage) :
    selected i {} usages = outermost (groups usages) := by
  simp [selected, keeps_everything]

/-- The groups of a selection are those of everything that it keeps. -/
theorem selected_eq_filter (i : Index) (sel : Selection) (usages : List Usage) :
    selected i sel usages = (selected i {} usages).filter fun g => sel.keeps i g.key := by
  rw [selected_everything, selected]
  exact outermost_filter keeps_of_strictlyContains (groups usages)

/-- So are the entries. -/
theorem entries_eq_filter (i : Index) (sel : Selection) (usages : List Usage) :
    entries i sel usages = (entries i {} usages).filter fun e => sel.keeps i e.1 := by
  rw [entries, selected_eq_filter, entries, List.filterMap_filter, List.filter_filterMap]
  refine List.filterMap_congr fun g _ => ?_
  cases hr : referenced? i g with
  | none => simp
  | some r => by_cases hk : sel.keeps i g.key = true <;> simp [Option.filter, hk]

/-- An entry shows the declaration that it is about. -/
theorem shown_of_mem_entries {i : Index} {sel : Selection} {usages : List Usage}
    {e : DeclKey × Referenced} (h : e ∈ entries i sel usages) :
    ∃ u ∈ usages, u.symbol.declaration = e.1 ∧ Slice.ofSymbol i u.symbol = .ok e.2.slice := by
  obtain ⟨g, hg, he⟩ := List.mem_filterMap.1 h
  obtain ⟨r, hr, rfl⟩ := Option.map_eq_some_iff.1 he
  have hmem : g ∈ groups usages := List.mem_of_mem_filter ((outermost_sublist _).subset hg)
  obtain ⟨⟨u, hu, hs⟩, hkey, -⟩ := groupsUses_of_mem hmem
  refine ⟨u, hu, by rw [hs, hkey], ?_⟩
  unfold referenced? at hr
  split at hr
  · next slice hslice =>
    cases hr
    rw [hs, hslice]
  · cases hr

/-! ### The filters in words -/

/-- The declaration stands in a file that was written in the project. -/
def WrittenInProject (i : Index) (key : DeclKey) : Prop :=
  ∃ f ∈ i.files, f.id = key.file ∧ f.origin.isProjectAuthored = true

/-- The filters that are turned on let the declaration pass: it stands in a file that was written in
the project, and does not lie in the target. -/
def Selection.Admits (sel : Selection) (i : Index) (key : DeclKey) : Prop :=
  (sel.projectOnly = true → WrittenInProject i key) ∧
    ∀ target ∈ sel.excluding, ¬ target.Inside key

instance (sel : Selection) (i : Index) (key : DeclKey) : Decidable (sel.Admits i key) :=
  inferInstanceAs (Decidable ((_ → ∃ f ∈ i.files, _ ∧ _) ∧ ∀ target ∈ sel.excluding, _))

/-- Where files are numbered by their positions, a file is found by its number. -/
theorem isProjectAuthored_iff {i : Index} (hid : ∀ (id : Nat) (f : SourceFile),
    i.files[id]? = some f → f.id = id) {key : DeclKey} :
    isProjectAuthored i key = true ↔ WrittenInProject i key := by
  unfold isProjectAuthored WrittenInProject Index.file?
  constructor
  · intro h
    split at h
    · next f hf => exact ⟨f, List.mem_of_getElem? hf, hid _ f hf, h⟩
    · cases h
  · rintro ⟨f, hmem, hkey, horigin⟩
    obtain ⟨id, hf⟩ := List.mem_iff_getElem?.1 hmem
    obtain rfl : id = key.file := (hid id f hf).symm.trans hkey
    rw [hf]
    exact horigin

theorem keeps_iff_admits {i : Index} (hid : ∀ (id : Nat) (f : SourceFile),
    i.files[id]? = some f → f.id = id) {sel : Selection} {key : DeclKey} :
    sel.keeps i key = true ↔ sel.Admits i key := by
  rw [Selection.keeps, Bool.and_eq_true, Selection.Admits, ← isProjectAuthored_iff hid, and_comm]
  refine and_congr ?_ ?_
  · cases sel.projectOnly <;> simp
  · cases sel.excluding with
    | none => simp
    | some target => simp [← DeclKey.contains_iff_inside]

/-- **Leaving out is choosing among the entries of everything.**  The entries of everything come
with the declarations that they are about; turning on any of the filters keeps exactly those
entries, in their order and as they are, whose declarations pass the filters. -/
theorem aggregate_filtered {i : Index} (hid : ∀ (id : Nat) (f : SourceFile),
    i.files[id]? = some f → f.id = id) (usages : List Usage) :
    aggregate i {} usages = (entries i {} usages).map Prod.snd ∧
    (∀ e ∈ entries i {} usages, ∃ u ∈ usages, u.symbol.declaration = e.1 ∧
      Slice.ofSymbol i u.symbol = .ok e.2.slice) ∧
    ∀ sel : Selection, aggregate i sel usages =
      ((entries i {} usages).filter fun e => sel.Admits i e.1).map Prod.snd := by
  refine ⟨(map_snd_entries i {} usages).symm, fun e he => shown_of_mem_entries he, fun sel => ?_⟩
  rw [← map_snd_entries, entries_eq_filter]
  refine congrArg _ (List.filter_congr fun e _ => ?_)
  rw [Bool.eq_iff_iff, decide_eq_true_iff]
  exact keeps_iff_admits hid

end Usage

/-! ### A class, a function and a library -/

namespace TwoOrigins

/-- A function without parameters and statements, with a name of one letter. -/
def functionTree (start : Nat) : Tree :=
  .named "function_declaration" start (start + 10)
    [.token "fun" start (start + 3), .named "simple_identifier" (start + 4) (start + 5) [],
     .named "function_value_parameters" (start + 5) (start + 7)
      [.token "(" (start + 5) (start + 6), .token ")" (start + 6) (start + 7)],
     .named "function_body" (start + 8) (start + 10)
      [.token "\x7b" (start + 8) (start + 9), .token "\x7d" (start + 9) (start + 10)]]

/-- ```
class A {
    fun b() {}
}
fun c() {}
``` -/
def written : ParsedText where
  path := ⟨"/p/a.kt"⟩
  text := "class A \x7b\n    fun b() \x7b\x7d\n\x7d\nfun c() \x7b\x7d\n"
  tree :=
    .named "source_file" 0 38
      [.named "class_declaration" 0 26
        [.token "class" 0 5, .named "type_identifier" 6 7 [],
         .named "class_body" 8 26 [.token "\x7b" 8 9, functionTree 14, .token "\x7d" 25 26]],
       functionTree 27]

/-- A function `d` of a library. -/
def library : ParsedText where
  path := ⟨"/p/lib/d.kt"⟩
  text := "fun d() \x7b\x7d\n"
  tree := .named "source_file" 0 11 [functionTree 0]

def index : Index :=
  Project.indexOf ⟨"/p"⟩ { librarySourceRoots := [⟨"lib"⟩] } [written, library]

/-- A call of the first symbol with the name. -/
def useOf (name : String) : Usage where
  symbol := ((index.symbols.find? (·.name == name)).getD default)
  kind := .call
  site := ⟨0, 0, 0, "call_expression"⟩

def usages : List Usage := ["b", "d", "A", "c", "d"].map useOf

end TwoOrigins

namespace Usage

open TwoOrigins in
/-- Without filters `b` is hidden by the class around it; leaving out the class does not bring it
back. -/
theorem aggregate_filtered_twoOrigins :
    (∀ (id : Nat) (f : SourceFile), index.files[id]? = some f → f.id = id) ∧
    (entries index {} usages).map Prod.fst = [⟨1, 0, 10⟩, ⟨0, 0, 26⟩, ⟨0, 27, 37⟩] ∧
    (aggregate index { projectOnly := true } usages).map (·.slice.simpleName) =
      [some "A", some "c"] ∧
    (aggregate index { excluding := some ⟨0, 0, 26⟩ } usages).map (·.slice.simpleName) =
      [some "d", some "c"] := by
  have hid : ∀ (id : Nat) (f : SourceFile), index.files[id]? = some f → f.id = id := by
    intro id f hf
    have hall : ∀ k : Fin index.files.length, index.files[k].id = k := by decide
    obtain ⟨hlt, rfl⟩ := List.getElem?_eq_some_iff.1 hf
    exact hall ⟨id, hlt⟩
  obtain ⟨-, -, hfiltered⟩ := aggregate_filtered hid usages
  refine ⟨hid, by decide, ?_, ?_⟩
  · rw [hfiltered]
    decide
  · rw [hfiltered]
    decide

end Usage

end Crossref
