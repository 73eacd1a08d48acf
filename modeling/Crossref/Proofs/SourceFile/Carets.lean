import Crossref.Proofs.Kotlin.Scopes
import Crossref.Proofs.SourceFile.Keys
import Crossref.Proofs.Tree.AtByte

/-!
# Proofs — source files — the declaration at a caret

A caret selects the lowest declaration on the way up from the node at its byte, which is the
innermost one whose node holds the byte.  The span of a declaration may be longer than its node: the
accessors behind a property are siblings of its node, and the way up from them does not come through
it.  A caret there selects what an accessor holds at the byte, and otherwise what stands around the
property.

* `declarationAt?_innermost`: the declaration at a byte is the innermost one that holds the byte,
  and there is none where none holds it.
* `declarationAt?_inside_iff`: when a byte in the span of a declaration leads to the declaration or
  to one inside its span.
-/

namespace Crossref.SourceFile
open Node

variable {f : SourceFile} {b : Nat}

/-- The node is a declaration that carets can select, and holds the byte. -/
structure HoldsCaret (f : SourceFile) (b : Nat) (n : Node) : Prop where
  within : Within f.tree n
  declares : Kotlin.isCaretDeclaration n f.text = true
  start_le : n.start ≤ b
  lt_stop : b < n.stop

/-- The deepest of the declarations that hold the byte. -/
structure Innermost (f : SourceFile) (b : Nat) (n : Node) : Prop where
  holds : f.HoldsCaret b n
  deepest : ∀ m, f.HoldsCaret b m → m ≠ n → m.trail.length < n.trail.length

/-! ### The way up from a byte -/

theorem within_atByte (f : SourceFile) (b : Nat) : Within f.tree (f.top.atByte b) :=
  within_iff_below.2 (Tree.WellFormed.below_descend_self b _ _)

/-- The search for a declaration finds the lowest one on the way. -/
theorem declarationAt?_eq_some_iff (hb : b ≤ Text.size f.text) {n : Node} :
    f.declarationAt? b = some n ↔
      (Below n (f.top.atByte b) ∧ Kotlin.isCaretDeclaration n f.text = true) ∧
        ∀ a, Below a (f.top.atByte b) → Kotlin.isCaretDeclaration a f.text = true → Below a n := by
  rw [declarationAt?, if_neg (Nat.not_lt_of_le hb)]
  exact find?_way_eq_some_iff (f.within_atByte b)

/-- A declaration on the way is found, or one below it. -/
theorem exists_declarationAt?_below (hb : b ≤ Text.size f.text) {n : Node}
    (hn : Below n (f.top.atByte b)) (hdecl : Kotlin.isCaretDeclaration n f.text = true) :
    ∃ r, f.declarationAt? b = some r ∧ Below n r := by
  have hfound : ((f.top.atByte b :: (f.top.atByte b).ancestors).find?
      (Kotlin.isCaretDeclaration · f.text)).isSome = true :=
    List.find?_isSome.2 ⟨n, (f.within_atByte b).mem_way_iff.2 hn, hdecl⟩
  obtain ⟨r, hr⟩ := Option.isSome_iff_exists.1 hfound
  have hr : f.declarationAt? b = some r := by
    rw [declarationAt?, if_neg (Nat.not_lt_of_le hb)]
    exact hr
  exact ⟨r, hr, ((declarationAt?_eq_some_iff hb).1 hr).2 n hn hdecl⟩

section WellFormed

variable (hf : f.tree.WellFormed)
include hf

/-- A declaration that holds the byte stands on the way. -/
theorem HoldsCaret.below_atByte {n : Node} (h : f.HoldsCaret b n) : Below n (f.top.atByte b) :=
  hf.below_atByte h.within h.start_le h.lt_stop

/-- Apart from the top the declarations on the way are those that hold the byte. -/
theorem holdsCaret_iff (hroot : Kotlin.isCaretDeclaration f.top f.text = false) {n : Node} :
    f.HoldsCaret b n ↔
      Below n (f.top.atByte b) ∧ Kotlin.isCaretDeclaration n f.text = true := by
  constructor
  · intro h
    exact ⟨h.below_atByte hf, h.declares⟩
  · rintro ⟨hn, hdecl⟩
    have hw : Within f.tree n := (f.within_atByte b).above hn
    rcases (hf.below_atByte_iff hw).1 hn with rfl | ⟨h₁, h₂⟩
    · exact absurd hdecl (Bool.eq_false_iff.1 hroot)
    · exact ⟨hw, hdecl, h₁, h₂⟩

/-- Of the declarations that hold a byte the deepest is the one that lies below all. -/
theorem innermost_iff {n : Node} :
    f.Innermost b n ↔ f.HoldsCaret b n ∧ ∀ m, f.HoldsCaret b m → Below m n := by
  constructor
  · rintro ⟨hn, hdeep⟩
    refine ⟨hn, fun m hm => ?_⟩
    -- both stand on the way up from the byte, where `m` cannot be the lower one
    rcases (f.within_atByte b).linear (hm.below_atByte hf) (hn.below_atByte hf) with h | h
    · exact h
    · rcases h.eq_or_mem_ancestors with rfl | hmem
      · exact .refl
      · have hmn : m ≠ n := fun e => Below.refl.notMem_ancestors (e ▸ hmem)
        exact absurd (hdeep m hm hmn) (Nat.not_lt_of_lt (length_trail_lt_of_mem_ancestors hmem))
  · rintro ⟨hn, hlow⟩
    refine ⟨hn, fun m hm hmn => ?_⟩
    rcases (hlow m hm).eq_or_mem_ancestors with h | h
    · exact absurd h.symm hmn
    · exact length_trail_lt_of_mem_ancestors h

/-- **The declaration at a byte is the innermost one that holds it**, for every byte up to the end
of the text, and there is none exactly where no declaration holds the byte. -/
theorem declarationAt?_innermost (hroot : Kotlin.isCaretDeclaration f.top f.text = false)
    (hb : b ≤ Text.size f.text) :
    (∀ n, f.declarationAt? b = some n ↔ f.Innermost b n) ∧
      (f.declarationAt? b = none ↔ ¬ ∃ n, f.HoldsCaret b n) := by
  constructor
  · intro n
    rw [declarationAt?_eq_some_iff hb, innermost_iff hf, holdsCaret_iff hf hroot]
    refine and_congr_right fun _ => forall_congr' fun m => ?_
    rw [holdsCaret_iff hf hroot, and_imp]
  · rw [Option.eq_none_iff_forall_not_mem]
    constructor
    · rintro hnone ⟨n, hn⟩
      obtain ⟨r, hr, -⟩ := exists_declarationAt?_below hb (hn.below_atByte hf) hn.declares
      exact hnone r hr
    · intro hnone n hn
      have hfound := ((declarationAt?_eq_some_iff hb).1 hn).1
      exact hnone ⟨n, (holdsCaret_iff hf hroot).2 hfound⟩

end WellFormed

open Kotlin.ClassWithMember in
/-- A caret in the body of the member function selects it, one behind the class nothing. -/
theorem declarationAt?_innermost_member :
    file.tree.WellFormed ∧ Kotlin.isCaretDeclaration file.top file.text = false ∧
      (∃ n, file.Innermost 36 n ∧ file.declarationName? n = some "f") ∧
      ¬ ∃ n, file.HoldsCaret 40 n := by
  have hf : file.tree.WellFormed := by decide
  have hroot : Kotlin.isCaretDeclaration file.top file.text = false := by decide
  have hinner := (declarationAt?_innermost hf hroot (b := 36) (by decide)).1
  have hend := (declarationAt?_innermost hf hroot (b := 40) (by decide)).2
  exact ⟨hf, hroot, ⟨_, (hinner _).1 rfl, rfl⟩, hend.1 rfl⟩

/-! ### Bytes behind the node of a declaration -/

section Beyond

variable (hf : f.WellFormed) {d : Node} (hd : Within f.tree d)
include hf hd

theorem le_size_of_lt_keyOf_stop (hstop : b < (f.keyOf d).stop) : b ≤ Text.size f.text :=
  Nat.le_trans (Nat.le_of_lt hstop) (Nat.le_trans (keyOf_stop_le_top hf.tree hd) hf.inText)

/-- The key of a declaration contains those of the accessors behind it, as far as its span is
stretched over them. -/
theorem contains_keyOf_accessor {a : Node} (ha : a ∈ Kotlin.siblingAccessors d)
    (hstart : a.start < (f.keyOf d).stop) : (f.keyOf d).contains (f.keyOf a) = true := by
  cases hd with
  | top => simp [Kotlin.siblingAccessors_top] at ha
  | @child p _ hp hc =>
      obtain ⟨before, hs⟩ := exists_children_of_mem hc
      obtain ⟨between, after, hfollow⟩ :=
        List.append_of_mem (Kotlin.mem_following_of_mem_siblingAccessors ha)
      rw [hfollow] at hs
      rcases contains_or_stop_le_of_apart hf.tree
        ⟨p, d, a, before, between, after, hp, hs, .refl, .refl⟩ with h | h
      · exact h
      · exact absurd hstart (Nat.not_lt_of_le h)

/-- The sibling that holds a byte behind the node and in the key of a declaration is an accessor. -/
theorem mem_siblingAccessors_of_beyond {p c : Node} (hp : Within f.tree p) (hdp : d ∈ p.children)
    (hcp : c ∈ p.children) (hbeyond : d.stop ≤ b) (hstop : b < (f.keyOf d).stop)
    (hstart : c.start ≤ b) (hlt : b < c.stop) : c ∈ Kotlin.siblingAccessors d := by
  have hspan : (f.keyOf d).stop = Kotlin.spanStop d := by
    rcases keyOf_stop f d with h | h
    · omega
    · exact h
  have hne : c ≠ d := by
    rintro rfl
    omega
  rcases split_of_mem_of_ne hdp hcp hne.symm with ⟨l₁, l₂, l₃, hs⟩ | ⟨l₁, l₂, l₃, hs⟩
  · rcases Kotlin.spanStop_eq d with h | ⟨last, hlast, h⟩
    · omega
    · rcases Kotlin.mem_siblingAccessors_or (following_of_children hs) with ⟨rest, hr⟩ | hall
      · rw [hr]
        simp
      · -- the last accessor ends before `c` begins
        have hord := (hf.tree p hp).inOrder
        rw [hs] at hord
        have hbehind := (List.pairwise_cons.1 (List.pairwise_append.1 hord).2.1).2
        have := (List.pairwise_append.1 hbehind).2.2 last
          (hall last (List.mem_of_getLast? hlast)) c (by simp)
        omega
  · have := hf.tree.children_apart hp hs
    have := hf.tree.start_le_stop hd
    omega

/-- Where no accessor holds a declaration at the byte, the way up from it comes to a declaration
only around the parent. -/
theorem declarationAt?_beyond (hbeyond : d.stop ≤ b) (hstop : b < (f.keyOf d).stop)
    (hstart : d.start ≤ b)
    (hnone : ∀ a ∈ Kotlin.siblingAccessors d, ∀ m, Below a m → ¬ f.HoldsCaret b m) :
    f.declarationAt? b = d.ancestors.find? (Kotlin.isCaretDeclaration · f.text) := by
  have hsize : b ≤ Text.size f.text := le_size_of_lt_keyOf_stop hf hd hstop
  cases hd with
  | top =>
      have hle := keyOf_stop_le_top hf.tree .top
      exact absurd (Nat.lt_of_lt_of_le hstop hle) (Nat.not_lt_of_le hbeyond)
  | @child p _ hp hc =>
      have hlow : Below p (f.top.atByte b) :=
        hf.tree.below_atByte hp (Nat.le_trans (hf.tree.child_inside hp hc).1 hstart)
          (Nat.lt_of_lt_of_le hstop (keyOf_stop_le_parent hf.tree hp hc))
      obtain ⟨met, hway, hmet⟩ := hlow.way_eq
      have hclear : met.find? (Kotlin.isCaretDeclaration · f.text) = none := by
        refine List.find?_eq_none.2 fun m hm hdecl => ?_
        obtain ⟨c, hcp, hcm⟩ := hmet m hm
        have hmw : Within f.tree m := hcm.within (.child hp hcp)
        have hmlow : Below m (f.top.atByte b) :=
          (f.within_atByte b).mem_way_iff.1 (by rw [hway]; exact List.mem_append_left _ hm)
        have hmp : p ∈ m.ancestors := mem_ancestors_of_below hcp hcm
        rcases (hf.tree.below_atByte_iff hmw).1 hmlow with rfl | ⟨h₁, h₂⟩
        · cases hmp
        · -- the child above `m` holds the byte as well
          have hcspan := hf.tree.span_le (.child hp hcp) hcm
          have hacc : c ∈ Kotlin.siblingAccessors d :=
            mem_siblingAccessors_of_beyond hf (.child hp hc) hp hc hcp hbeyond hstop
              (Nat.le_trans hcspan.1 h₁) (Nat.lt_of_lt_of_le h₂ hcspan.2)
          exact hnone c hacc m hcm ⟨hmw, hdecl, h₁, h₂⟩
      rw [declarationAt?, if_neg (Nat.not_lt_of_le hsize), ancestors_of_mem_children hc]
      dsimp only
      rw [hway, List.find?_append, hclear, Option.none_or]

/-- A declaration that an accessor holds at the byte is found, or one below it. -/
theorem exists_inside_of_accessor {a m : Node} (ha : a ∈ Kotlin.siblingAccessors d)
    (ham : Below a m) (hm : f.HoldsCaret b m) (hstop : b < (f.keyOf d).stop) :
    ∃ r, f.declarationAt? b = some r ∧ (f.keyOf d).contains (f.keyOf r) = true := by
  have hsize : b ≤ Text.size f.text := le_size_of_lt_keyOf_stop hf hd hstop
  obtain ⟨r, hr, hmr⟩ := exists_declarationAt?_below hsize (hm.below_atByte hf.tree) hm.declares
  have haw : Within f.tree a := hd.following (Kotlin.mem_following_of_mem_siblingAccessors ha)
  have hab : a.start ≤ b := Nat.le_trans (hf.tree.span_le haw ham).1 hm.start_le
  have haccessor := contains_keyOf_accessor hf hd ha (Nat.lt_of_le_of_lt hab hstop)
  exact ⟨r, hr, DeclKey.contains_trans haccessor (contains_of_below hf.tree haw (ham.trans hmr))⟩

/-- Where the next declaration around has the same span, it is found, or one below it. -/
theorem exists_inside_of_around {p : Node}
    (hp : d.ancestors.find? (Kotlin.isCaretDeclaration · f.text) = some p)
    (hkey : f.keyOf p = f.keyOf d) (hstart : d.start ≤ b) (hstop : b < (f.keyOf d).stop) :
    ∃ r, f.declarationAt? b = some r ∧ (f.keyOf d).contains (f.keyOf r) = true := by
  have hsize : b ≤ Text.size f.text := le_size_of_lt_keyOf_stop hf hd hstop
  obtain ⟨hpw, hpd⟩ := hd.ancestor (List.mem_of_find?_eq_some hp)
  have hpstop : (f.keyOf d).stop ≤ p.stop := by
    rcases hpd.eq_or_child with rfl | ⟨c, hc, hcd⟩
    · exact absurd (List.mem_of_find?_eq_some hp) Below.refl.notMem_ancestors
    · exact keyOf_stop_le hf.tree hpw hc hcd
  have hplow : Below p (f.top.atByte b) :=
    hf.tree.below_atByte hpw (Nat.le_trans (hf.tree.span_le hpw hpd).1 hstart)
      (Nat.lt_of_lt_of_le hstop hpstop)
  have hpdecl := List.find?_some hp
  obtain ⟨r, hr, hpr⟩ := exists_declarationAt?_below hsize hplow hpdecl
  exact ⟨r, hr, hkey ▸ contains_of_below hf.tree hpw hpr⟩

end Beyond

/-- **When a caret in a declaration's span selects the declaration or one inside its span**, for
every caret declaration of a well-formed tree and every byte from the declaration's first to its
last.  It does when the byte is in the declaration's node; when it is behind it, in an accessor, and
a declaration in the accessor holds it; and when the next declaration around has the same span.
Elsewhere the caret selects the next declaration around, if there is one, and that is not inside. -/
theorem declarationAt?_inside_iff (hf : f.WellFormed) {d : Node} (hd : Within f.tree d)
    (hdecl : Kotlin.isCaretDeclaration d f.text = true) (hstart : (f.keyOf d).start ≤ b)
    (hstop : b < (f.keyOf d).stop) :
    ((∃ r, f.declarationAt? b = some r ∧ (f.keyOf d).contains (f.keyOf r) = true) ↔
      b < d.stop ∨ (∃ a ∈ Kotlin.siblingAccessors d, ∃ m, Below a m ∧ f.HoldsCaret b m) ∨
        ∃ p, d.ancestors.find? (Kotlin.isCaretDeclaration · f.text) = some p ∧
          f.keyOf p = f.keyOf d) ∧
      (d.stop ≤ b → (∀ a ∈ Kotlin.siblingAccessors d, ∀ m, Below a m → ¬ f.HoldsCaret b m) →
        f.declarationAt? b = d.ancestors.find? (Kotlin.isCaretDeclaration · f.text)) := by
  rw [keyOf_start] at hstart
  have hsize : b ≤ Text.size f.text := le_size_of_lt_keyOf_stop hf hd hstop
  have hbeyond := fun h => declarationAt?_beyond hf hd h hstop hstart
  refine ⟨⟨?_, ?_⟩, hbeyond⟩
  · rintro ⟨r, hr, hcontains⟩
    by_cases hin : b < d.stop
    · exact .inl hin
    · by_cases hacc : ∃ a ∈ Kotlin.siblingAccessors d, ∃ m, Below a m ∧ f.HoldsCaret b m
      · exact .inr (.inl hacc)
      · -- what is found stands around `d`, so that its span can only be the same
        have haround : d.ancestors.find? (Kotlin.isCaretDeclaration · f.text) = some r := by
          rw [← hbeyond (Nat.le_of_not_lt hin) fun a ha m ham hm => hacc ⟨a, ha, m, ham, hm⟩]
          exact hr
        obtain ⟨hrw, hrd⟩ := hd.ancestor (List.mem_of_find?_eq_some haround)
        exact .inr (.inr ⟨r, haround,
          DeclKey.contains_antisymm (contains_of_below hf.tree hrw hrd) hcontains⟩)
  · rintro (hin | ⟨a, ha, m, ham, hm⟩ | ⟨p, hp, hkey⟩)
    · obtain ⟨r, hr, hdr⟩ :=
        exists_declarationAt?_below hsize (hf.tree.below_atByte hd hstart hin) hdecl
      exact ⟨r, hr, contains_of_below hf.tree hd hdr⟩
    · exact exists_inside_of_accessor hf hd ha ham hm hstop
    · exact exists_inside_of_around hf hd hp hkey hstart hstop

end Crossref.SourceFile

namespace Crossref.Kotlin.GetterWithVariable
open Node

/-- The property that the getter belongs to. -/
def property : Node := (file.top.child? 1).getD file.top

theorem property_within : Within file.tree property :=
  .child .top (List.mem_of_getElem? (i := 1) rfl)

end Crossref.Kotlin.GetterWithVariable

namespace Crossref.SourceFile
open Node Kotlin.GetterWithVariable

/-- Behind the property's node a caret in the getter selects the variable that is declared there
where it is on it, and nothing elsewhere. -/
theorem declarationAt?_inside_getter :
    file.WellFormed ∧ Kotlin.isCaretDeclaration property file.text = true ∧
      (file.keyOf property).start = 11 ∧ (file.keyOf property).stop = 55 ∧
      (∃ r, file.declarationAt? 38 = some r ∧
        (file.keyOf property).contains (file.keyOf r) = true) ∧
      file.declarationAt? 52 = none := by
  have hf : file.WellFormed := by decide
  have hdecl : Kotlin.isCaretDeclaration property file.text = true := by decide
  have hgetter : getter ∈ Kotlin.siblingAccessors property := List.mem_of_getElem? (i := 0) rfl
  have hvariable : ∃ m ∈ getter.preorder, Kotlin.isCaretDeclaration m file.text = true ∧
      m.start ≤ 38 ∧ 38 < m.stop := by decide
  obtain ⟨m, hm, hmdecl, h₁, h₂⟩ := hvariable
  have hbelow : Below getter m := mem_preorder_iff.1 hm
  have hmw : Within file.tree m :=
    hbelow.within (property_within.following (Kotlin.mem_following_of_mem_siblingAccessors hgetter))
  have hfree : ∀ a ∈ Kotlin.siblingAccessors property, ∀ m ∈ a.preorder,
      Kotlin.isCaretDeclaration m file.text = true → ¬ (m.start ≤ 52 ∧ 52 < m.stop) := by decide
  have hvar := (declarationAt?_inside_iff hf property_within hdecl (b := 38) (by decide)
    (by decide)).1
  have hret := (declarationAt?_inside_iff hf property_within hdecl (b := 52) (by decide)
    (by decide)).2
  refine ⟨hf, hdecl, by decide, by decide, ?_, ?_⟩
  · exact hvar.2 (.inr (.inl ⟨getter, hgetter, m, hbelow, hmw, hmdecl, h₁, h₂⟩))
  · rw [hret (by decide) fun a ha m ham hm =>
      hfree a ha m (mem_preorder_iff.2 ham) hm.declares ⟨hm.start_le, hm.lt_stop⟩]
    rfl

/-- On the word `get` a caret is in the span of the property and selects nothing. -/
theorem declarationAt?_outside_getter :
    file.WellFormed ∧ Within file.tree property ∧
      Kotlin.isCaretDeclaration property file.text = true ∧
      (file.keyOf property).start ≤ 27 ∧ 27 < (file.keyOf property).stop ∧
      ¬ ∃ r, file.declarationAt? 27 = some r ∧
        (file.keyOf property).contains (file.keyOf r) = true := by
  have hnone : file.declarationAt? 27 = none := rfl
  refine ⟨by decide, property_within, by decide, by decide, by decide, ?_⟩
  rw [hnone]
  rintro ⟨r, hr, -⟩
  cases hr

end Crossref.SourceFile
