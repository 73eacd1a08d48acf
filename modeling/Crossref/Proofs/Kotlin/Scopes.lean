import Crossref.Proofs.Kotlin.Walk
import Crossref.Proofs.Tree.Spans
import Crossref.Project

/-!
# Proofs — Kotlin — declarations in local scopes

What stands in a local scope has no qualified name and should not be among the symbols of a file.
The walk never enters a function declaration, and from the classes that it meets it goes on to no
local scope, except through a body that was read as the lambda of a delegate.  But outside of
classes it looks into every kind of node that it does not know, local scopes among them: the
accessors that stand beside a property, the lambdas and the statements of a script, what is left of
a declaration that could not be read.  A declaration found there is taken for one of the file.

* `qualifiedName_ne_none_iff`: a symbol has a qualified name exactly when its declaration stands in
  no local scope.
* `mem_symbols_nonlocal_iff`: no symbol is local exactly when nothing outside of classes is declared
  in a local scope.
-/

namespace Crossref.Kotlin
open Node

/-- The node stands in no local scope. -/
def Nonlocal (n : Node) : Prop := ∀ a ∈ n.ancestors, a.kind ∉ localScopeKinds

/-! ### Qualified names -/

theorem isSome_mapM {α β : Type} {g : α → Option β} :
    ∀ {xs : List α}, (∀ x ∈ xs, g x ≠ none) → xs.mapM g ≠ none
  | [], _ => by simp
  | x :: xs, h => by
      obtain ⟨y, hy⟩ := Option.ne_none_iff_exists'.1 (h x List.mem_cons_self)
      obtain ⟨ys, hys⟩ := Option.ne_none_iff_exists'.1
        (isSome_mapM fun z hz => h z (List.mem_cons_of_mem x hz))
      simp [hy, hys]

/-- Where the classes around a node have names, it has containers exactly outside of local
scopes. -/
theorem containerNames?_ne_none_iff {n : Node} {source : String}
    (hnamed : ∀ a ∈ n.ancestors, a.kind ∈ classKinds → declarationName? a source ≠ none) :
    containerNames? n source ≠ none ↔ Nonlocal n := by
  unfold containerNames?
  split
  · next h =>
    obtain ⟨a, ha, hlocal⟩ := List.any_eq_true.1 h
    exact ⟨fun hn => absurd rfl hn, fun hn => absurd (List.contains_iff_mem.1 hlocal) (hn a ha)⟩
  · next h =>
    refine ⟨fun _ a ha hlocal => h ?_, fun _ => isSome_mapM fun a ha => ?_⟩
    · exact List.any_eq_true.2 ⟨a, ha, List.contains_iff_mem.2 hlocal⟩
    · obtain ⟨ha, hk⟩ := List.mem_filter.1 ha
      exact hnamed a (List.mem_reverse.1 ha) (List.contains_iff_mem.1 hk)

/-- What has a name and is no constructor has a qualified name exactly outside of local scopes. -/
theorem qualifiedName?_ne_none_iff {package : Option String} {n : Node} {source : String}
    (hnamed : ∀ a ∈ n.ancestors, a.kind ∈ classKinds → declarationName? a source ≠ none)
    (hname : declarationName? n source ≠ none) (hconstructor : isConstructorNode n = false)
    (hbound : n.kind = "class_parameter" → binding? n source ≠ none) :
    qualifiedName? package n source ≠ none ↔ Nonlocal n := by
  rw [← containerNames?_ne_none_iff hnamed]
  obtain ⟨name, hname⟩ := Option.ne_none_iff_exists'.1 hname
  unfold qualifiedName?
  rw [if_neg (fun h => hbound h.1 h.2)]
  cases containerNames? n source with
  | none => simp
  | some containers => simp [hconstructor, hname, QualifiedName.ofParts?]

/-- What is written in the body of a class is as local as the class. -/
theorem nonlocal_of_classBody? {n body c : Node} (hbody : classBody? n = some body)
    (hc : c ∈ body.children) (hk : n.kind ∈ classKinds) : Nonlocal c ↔ Nonlocal n := by
  obtain ⟨hchild, hbodyKind⟩ := kind_of_classBody? hbody
  have hbodyLocal : body.kind ∉ localScopeKinds := by
    rcases hbodyKind with h | h <;> rw [h] <;> decide
  have hclass : n.kind ∉ localScopeKinds := by
    simpa using localScope_of_mem_classKinds hk
  simp [Nonlocal, ancestors_of_mem_children hc, ancestors_of_mem_children hchild, hbodyLocal,
    hclass]

/-! ### What stands around a declaration that is met -/

/-- The nodes between a class and its parameters and members; more of them where the body was
misread. -/
def wayKinds (misread : Bool) : List String :=
  parameterWay ++ ["class_body", "enum_class_body"] ++
    if misread then
      ["delegation_specifiers", "delegation_specifier", "lambda_literal", "statements"]
        ++ misplacedBodyKinds
    else []

theorem wayKinds_subset_or (a b : Bool) :
    wayKinds a ⊆ wayKinds (a || b) ∧ wayKinds b ⊆ wayKinds (a || b) := by
  cases a <;> cases b <;> decide

/-- The way to the parameters of a class is one to what belongs to it. -/
theorem through_of_parameter {n p : Node} (h : p ∈ classParameters n) :
    Through (wayKinds false) n p :=
  (through_of_mem_classParameters h).1.mono (by decide)

/-- On the way to what belongs to a class there is no class, and no local scope where the body was
read as one. -/
theorem of_mem_wayKinds {misread : Bool} {kind : String} (h : kind ∈ wayKinds misread) :
    kind ∉ classKinds ∧ kind ≠ "function_declaration" ∧
      (misread = false → kind ∉ localScopeKinds) := by
  revert kind
  cases misread <;> decide

theorem Outside.ancestors {f : SourceFile} {n : Node} (h : Outside f n) :
    ∀ a ∈ n.ancestors, Outside f a := by
  induction h with
  | top => exact fun a ha => nomatch ha
  | inner hn hc _ _ ih =>
      intro a ha
      rw [ancestors_of_mem_children hc] at ha
      rcases List.mem_cons.1 ha with rfl | ha
      · exact hn
      · exact ih a ha

theorem Outside.within {f : SourceFile} {n : Node} (h : Outside f n) : Within f.tree n := by
  induction h with
  | top => exact .top
  | inner _ hc _ _ ih => exact ih.child hc

theorem Outside.kind_notMem {f : SourceFile} {n : Node} (h : Outside f n)
    (hroot : f.top.kind ∉ topKinds) : n.kind ∉ topKinds := by
  cases h with
  | top => exact hroot
  | inner _ _ hk _ => exact hk

/-- The way down to a misread body. -/
theorem through_of_misreadBody {n d body : Node} (h : MisreadBody d body)
    (hd : Through (wayKinds true) n d) (hk : d.kind ∈ wayKinds true) :
    Through (wayKinds true) n body ∧ body.kind ∈ wayKinds true := by
  induction h with
  | lambda hc hlambda hb =>
      obtain ⟨hmem, hstatements⟩ := mem_of_childOfKind? hb
      refine ⟨(hd.step hk hc).step ?_ hmem, ?_⟩
      · rw [hlambda]; decide
      · rw [hstatements]; decide
  | inner hc hck _ ih =>
      exact ih (hd.step hk hc) (List.mem_append_right _ (List.mem_append_right _ hck))

theorem MisreadBody.kind_eq {d body : Node} (h : MisreadBody d body) :
    body.kind = "statements" := by
  induction h with
  | lambda _ _ hb => exact (mem_of_childOfKind? hb).2
  | inner _ _ _ ih => exact ih

theorem through_of_bodyOf {n body c : Node} {misread : Bool} (h : BodyOf n misread body)
    (hc : c ∈ body.children) : Through (wayKinds misread) n c := by
  cases h with
  | proper h =>
      obtain ⟨hmem, hk⟩ := kind_of_classBody? h
      exact .step (.child hmem) (by rcases hk with hk | hk <;> rw [hk] <;> decide) hc
  | @misread d _ _ hd h =>
      have hthrough : Through (wayKinds true) n d ∧ d.kind ∈ wayKinds true := by
        rcases List.mem_append.1 hd with hd | hd
        · obtain ⟨hd, hk⟩ := mem_childrenOfKind_iff.1 hd
          exact ⟨.child hd, by rw [hk]; decide⟩
        · obtain ⟨list, hl, hd⟩ := List.mem_flatMap.1 hd
          obtain ⟨hl, hlk⟩ := mem_childrenOfKind_iff.1 hl
          obtain ⟨hd, hk⟩ := mem_childrenOfKind_iff.1 hd
          exact ⟨.step (.child hl) (by rw [hlk]; decide) hd, by rw [hk]; decide⟩
      obtain ⟨hbody, hk⟩ := through_of_misreadBody h hthrough.1 hthrough.2
      exact hbody.step hk hc

/-- **Around a declaration that is met** there are nodes that are looked into, classes with names,
and the nodes between these and what belongs to them. -/
theorem Met.ancestors_cases {f : SourceFile} {misread : Bool} {owner : Option Owner} {n : Node}
    (h : Met f misread owner n) : ∀ a ∈ n.ancestors, Outside f a ∨
      (a.kind ∈ classKinds ∧ declarationName? a f.text ≠ none) ∨ a.kind ∈ wayKinds misread := by
  induction h with
  | top hn hc =>
      intro a ha
      rw [ancestors_of_mem_children hc] at ha
      rcases List.mem_cons.1 ha with rfl | ha
      · exact .inl hn
      · exact .inl (hn.ancestors a ha)
  | @parameter misread _ n _ _ _ hk hname hp ih =>
      intro a ha
      rcases (through_of_parameter hp).mem_ancestors_cases ha with ha | rfl | ha
      · exact .inr (.inr ((wayKinds_subset_or false misread).1 ha))
      · exact .inr (.inl ⟨hk, by simp [hname]⟩)
      · exact ih a ha
  | @member misread ofBody _ n _ _ _ _ hk hname hbody hc _ ih =>
      intro a ha
      rcases (through_of_bodyOf hbody hc).mem_ancestors_cases ha with ha | rfl | ha
      · exact .inr (.inr ((wayKinds_subset_or misread ofBody).2 ha))
      · exact .inr (.inl ⟨hk, by simp [hname]⟩)
      · exact (ih a ha).imp_right fun h => h.imp_right fun hw =>
          (wayKinds_subset_or misread ofBody).1 hw

section Met

variable {f : SourceFile} (hroot : f.top.kind ∉ topKinds)
include hroot

/-- The classes around a declaration that is met have names; a companion always has one. -/
theorem Met.named {misread : Bool} {owner : Option Owner} {n : Node} (h : Met f misread owner n) :
    ∀ a ∈ n.ancestors, a.kind ∈ classKinds → declarationName? a f.text ≠ none := by
  intro a ha hk
  rcases h.ancestors_cases a ha with hout | ⟨-, hname⟩ | hway
  · have hnot := hout.kind_notMem hroot
    simp only [classKinds, List.mem_cons, List.not_mem_nil, or_false] at hk
    rcases hk with hk | hk | hk
    · exact absurd (by rw [hk]; decide) hnot
    · exact absurd (by rw [hk]; decide) hnot
    · simp [declarationName?, hk]
  · exact hname
  · exact absurd hk (of_mem_wayKinds hway).1

/-- **No function declaration stands around a declaration that is met**, and outside of bodies that
were misread only local scopes do that were looked into. -/
theorem Met.scopes {misread : Bool} {owner : Option Owner} {n : Node}
    (h : Met f misread owner n) : ∀ a ∈ n.ancestors, a.kind ≠ "function_declaration" ∧
      (misread = false → a.kind ∈ localScopeKinds → Outside f a) := by
  intro a ha
  rcases h.ancestors_cases a ha with hout | ⟨hk, -⟩ | hway
  · refine ⟨fun hk => hout.kind_notMem hroot ?_, fun _ _ => hout⟩
    rw [hk]
    decide
  · have hlocal := localScope_of_mem_classKinds hk
    refine ⟨?_, fun _ hl => ?_⟩
    · rintro hfunction
      rw [hfunction] at hlocal
      cases hlocal
    · rw [List.contains_iff_mem.2 hl] at hlocal
      cases hlocal
  · obtain ⟨-, hfunction, hlocal⟩ := of_mem_wayKinds hway
    exact ⟨hfunction, fun hproper hl => absurd hl (hlocal hproper)⟩

omit hroot in
/-- What a class introduces is qualified when the class is. -/
theorem qualifiedName_of_mem_classOwn {parent : Option Handle} {name : String} {n : Node}
    {s : Symbol} (h : s ∈ classOwn f (classSymbol f parent name n) n) :
    s.qualifiedName ≠ none ↔ qualifiedName? f.package n f.text ≠ none := by
  simp only [classOwn, List.mem_append, List.mem_singleton] at h
  rcases h with ((h | h) | h) | rfl
  · have h := Option.mem_toList.1 h
    unfold headConstructor? at h
    obtain ⟨-, h⟩ := Option.ite_none_right_eq_some.1 h
    cases h
    rfl
  · split at h
    · rcases List.mem_append.1 h with h | h
      · obtain ⟨_, -, rfl⟩ := List.mem_map.1 h
        exact not_congr Option.map_eq_none_iff
      · obtain rfl := List.mem_singleton.1 h
        exact not_congr Option.map_eq_none_iff
    · cases h
  · split at h
    · simp only [enumMembers, List.mem_cons, List.not_mem_nil, or_false] at h
      rcases h with rfl | rfl <;> exact not_congr Option.map_eq_none_iff
    · cases h
  · rfl

/-- A constructor in a body is qualified when its class is, and not at all in a misread body. -/
theorem Met.constructor_qualified_iff {misread : Bool} {owner : Option Owner} {n : Node}
    (h : Met f misread owner n) (hk : n.kind = "secondary_constructor") :
    qualifiedName? f.package n f.text ≠ none ↔ Nonlocal n := by
  cases h with
  | top _ _ ht => simp [topKinds, hk] at ht
  | parameter _ _ _ hp =>
      exact absurd (hk.symm.trans (below_of_mem_classParameters hp).2) (by decide)
  | @member _ _ _ _ body _ _ hm hmk hname hbody hc _ =>
      cases hbody with
      | proper hbody =>
          rw [qualifiedName?_secondaryConstructor hbody hc hmk hname hk,
            nonlocal_of_classBody? hbody hc hmk]
          obtain ⟨hconstructor, hparameter⟩ := kind_of_mem_classKinds hmk
          exact qualifiedName?_ne_none_iff (hm.named hroot) (by simp [hname]) hconstructor
            (fun h => absurd h hparameter)
      | misread _ _ hbody =>
          have hbodyLocal : body.kind ∈ localScopeKinds := by rw [hbody.kind_eq]; decide
          have habove : body ∈ n.ancestors := mem_ancestors_of_below hc .refl
          rw [qualifiedName?_of_localScope habove hbodyLocal]
          exact iff_of_false (by simp) fun h => h body habove hbodyLocal

/-- What a class introduces has a qualified name if the class stands in no local scope. -/
theorem qualifiedName_ofClass_iff {misread : Bool} {owner : Option Owner} {n : Node} {s : Symbol}
    (hn : Met f misread owner n) (hk : n.kind ∈ classKinds) {parent : Option Handle}
    (hs : s ∈ declaredAt.ofClass f n parent) : s.qualifiedName ≠ none ↔ Nonlocal n := by
  unfold declaredAt.ofClass at hs
  split at hs
  · next name hname =>
    rw [qualifiedName_of_mem_classOwn hs]
    obtain ⟨hconstructor, hparameter⟩ := kind_of_mem_classKinds hk
    exact qualifiedName?_ne_none_iff (hn.named hroot) (by simp [hname]) hconstructor
      (fun h => absurd h hparameter)
  · cases hs

/-- **A symbol has a qualified name exactly when its declaration stands in no local scope.** -/
theorem qualifiedName_ne_none_iff {misread : Bool} {owner : Option Owner} {n : Node} {s : Symbol}
    (hn : Met f misread owner n) (hs : s ∈ declaredAt f owner n) :
    s.qualifiedName ≠ none ↔ Nonlocal n := by
  have hq (hname : declarationName? n f.text ≠ none) (hc : isConstructorNode n = false)
      (hb : n.kind = "class_parameter" → binding? n f.text ≠ none) :
      qualifiedName? f.package n f.text ≠ none ↔ Nonlocal n :=
    qualifiedName?_ne_none_iff (hn.named hroot) hname hc hb
  unfold declaredAt at hs
  dsimp only at hs
  split at hs
  iterate 3
    · next hk => exact qualifiedName_ofClass_iff hroot hn (by simp [classKinds, hk]) hs
  · next hk =>
    obtain ⟨name, hname, rfl⟩ := Option.map_eq_some_iff.1 (Option.mem_toList.1 hs)
    exact hq (by simp [hname]) (by simp [isConstructorNode, hk]) (by simp [hk])
  · next hk =>
    obtain ⟨_, -, h⟩ := Option.bind_eq_some_iff.1 (Option.mem_toList.1 hs)
    obtain ⟨name, hname, h⟩ := Option.bind_eq_some_iff.1 h
    cases h
    exact hq (by simp [hname]) (by simp [isConstructorNode, hk]) (by simp [hk])
  · next hk =>
    obtain ⟨name, hname, rfl⟩ := Option.map_eq_some_iff.1 (Option.mem_toList.1 hs)
    exact hq (by simp [hname]) (by simp [isConstructorNode, hk]) (by simp [hk])
  · next hk =>
    obtain rfl := List.mem_singleton.1 hs
    exact hn.constructor_qualified_iff hroot hk
  · next hk =>
    obtain ⟨name, hname, rfl⟩ := Option.map_eq_some_iff.1 (Option.mem_toList.1 hs)
    exact hq (by simp [hname]) (by simp [isConstructorNode, hk]) (by simp [hk])
  · next hk =>
    obtain ⟨binding, hbinding, h⟩ := Option.bind_eq_some_iff.1 (Option.mem_toList.1 hs)
    obtain ⟨name, hname, h⟩ := Option.bind_eq_some_iff.1 h
    cases h
    exact hq (by simp [hname]) (by simp [isConstructorNode, hk]) (by simp [hbinding])
  · cases hs

end Met

/-! ### From where the walk gets into local scopes -/

/-- From a class that was read properly nothing leads into a local scope. -/
theorem mem_ancestors_of_localScope {n p a : Node} (hk : n.kind ∈ classKinds)
    (h : Through (wayKinds false) n p) (ha : a ∈ p.ancestors) (hl : a.kind ∈ localScopeKinds) :
    a ∈ n.ancestors := by
  rcases h.mem_ancestors_cases ha with hway | rfl | ha
  · exact absurd hl ((of_mem_wayKinds hway).2.2 rfl)
  · exact absurd hl (by simpa using localScope_of_mem_classKinds hk)
  · exact ha

theorem declaredAt_class_ne_nil {f : SourceFile} {owner : Option Owner} {n : Node} {name : String}
    (hk : n.kind ∈ classKinds) (hname : declarationName? n f.text = some name) :
    declaredAt f owner n ≠ [] := by
  rw [declaredAt_class hk hname, classOwn]
  simp

/-- What is met outside of misread bodies is, or belongs to, a declaration outside of classes.  When
it introduces something that one does, too, and the local scopes around it are around that one. -/
theorem Met.exists_top {f : SourceFile} {misread : Bool} {owner : Option Owner} {n : Node}
    (h : Met f misread owner n) (hproper : misread = false) :
    ∃ m c, Outside f m ∧ c ∈ m.children ∧ c.kind ∈ topKinds ∧
      (declaredAt f owner n ≠ [] → declaredAt f none c ≠ []) ∧
      ∀ a ∈ n.ancestors, a.kind ∈ localScopeKinds → a ∈ c.ancestors := by
  induction h with
  | @top m c hm hc hk => exact ⟨m, c, hm, hc, hk, id, fun a ha _ => ha⟩
  | parameter _ hk hname hp ih =>
      obtain ⟨m, c, hm, hc, hck, hdeclared, hscopes⟩ := ih hproper
      refine ⟨m, c, hm, hc, hck, fun _ => hdeclared (declaredAt_class_ne_nil hk hname), ?_⟩
      intro a ha hl
      exact hscopes a (mem_ancestors_of_localScope hk (through_of_parameter hp) ha hl) hl
  | member _ hk hname hbody hd _ ih =>
      obtain ⟨rfl, rfl⟩ := Bool.or_eq_false_iff.1 hproper
      obtain ⟨m, c, hm, hc, hck, hdeclared, hscopes⟩ := ih rfl
      refine ⟨m, c, hm, hc, hck, fun _ => hdeclared (declaredAt_class_ne_nil hk hname), ?_⟩
      intro a ha hl
      exact hscopes a (mem_ancestors_of_localScope hk (through_of_bodyOf hbody hd) ha hl) hl

/-- **Which symbols are local.**  The symbols of a file are those of the declarations that are met.
A symbol has a qualified name exactly when its declaration stands in no local scope; apart from
bodies that were misread, the local scopes around a declaration are no function declarations, and
are nodes outside of classes that were looked into.  So none of these symbols is local if, and only
if, nothing that is found outside of classes is. -/
theorem mem_symbols_nonlocal_iff {f : SourceFile} (hroot : f.top.kind ∉ topKinds) :
    (∀ s, s ∈ symbols f ↔
      ∃ misread owner n, Met f misread owner n ∧ s ∈ declaredAt f owner n) ∧
    (∀ misread owner n s, Met f misread owner n → s ∈ declaredAt f owner n →
      (s.qualifiedName ≠ none ↔ Nonlocal n)) ∧
    (∀ owner n, Met f false owner n → ∀ a ∈ n.ancestors,
      a.kind ≠ "function_declaration" ∧ (a.kind ∈ localScopeKinds → Outside f a)) ∧
    ((∀ owner n s, Met f false owner n → s ∈ declaredAt f owner n →
        Nonlocal n ∧ s.qualifiedName ≠ none) ↔
      ∀ m c, Outside f m → c ∈ m.children → c.kind ∈ topKinds → declaredAt f none c ≠ [] →
        Nonlocal c) := by
  refine ⟨fun _ => mem_symbols_iff, fun _ _ _ _ => qualifiedName_ne_none_iff hroot,
    fun _ _ hn a ha => (hn.scopes hroot a ha).imp id fun h => h rfl, ?_, ?_⟩
  · intro h m c hm hc hk hdeclared
    obtain ⟨s, hs⟩ := List.exists_mem_of_ne_nil _ hdeclared
    exact (h none c s (.top hm hc hk) hs).1
  · intro h owner n s hn hs
    obtain ⟨m, c, hm, hc, hk, hdeclared, hscopes⟩ := hn.exists_top rfl
    have htop : Nonlocal c := h m c hm hc hk (hdeclared (List.ne_nil_of_mem hs))
    have hn' : Nonlocal n := fun a ha hl => htop a (hscopes a ha hl) hl
    exact ⟨hn', (qualifiedName_ne_none_iff hroot hn hs).2 hn'⟩

namespace ClassWithMember

/-- ```
class A(val x: Int) {
    fun f() = x
}
``` -/
def given : ParsedText where
  path := ⟨"/p/a.kt"⟩
  text := "class A(val x: Int) \x7b\n    fun f() = x\n\x7d\n"
  tree :=
    .named "source_file" 0 40
      [.named "class_declaration" 0 39
        [.token "class" 0 5, .named "type_identifier" 6 7 [],
         .named "primary_constructor" 7 19
          [.token "(" 7 8,
           .named "class_parameter" 8 18
            [.named "binding_pattern_kind" 8 11 [.token "val" 8 11],
             .named "simple_identifier" 12 13 [], .token ":" 13 14,
             .named "user_type" 15 18 [.named "type_identifier" 15 18 []]],
           .token ")" 18 19],
         .named "class_body" 20 39
          [.token "\x7b" 20 21,
           .named "function_declaration" 26 37
            [.token "fun" 26 29, .named "simple_identifier" 30 31 [],
             .named "function_value_parameters" 31 33 [.token "(" 31 32, .token ")" 32 33],
             .named "function_body" 34 37 [.token "=" 34 35, .named "simple_identifier" 36 37 []]],
           .token "\x7d" 38 39]]]

def file : SourceFile := Project.sourceFile ⟨"/p"⟩ {} 0 .kotlin given

end ClassWithMember

open ClassWithMember in
theorem mem_symbols_nonlocal_class :
    file.top.kind ∉ topKinds ∧ (symbols file).length = 4 ∧
      ∀ owner n s, Met file false owner n → s ∈ declaredAt file owner n →
        Nonlocal n ∧ s.qualifiedName ≠ none := by
  have hroot : file.top.kind ∉ topKinds := by decide
  have hnonlocal : ∀ c ∈ file.top.preorder, c.kind ∈ topKinds →
      ∀ a ∈ c.ancestors, a.kind ∉ localScopeKinds := by
    decide
  refine ⟨hroot, by decide, (mem_symbols_nonlocal_iff hroot).2.2.2.2 ?_⟩
  intro m c hm hc hk _
  exact hnonlocal c (within_iff_mem_preorder.1 (hm.within.child hc)) hk

namespace GetterWithVariable

/-- ```
package p

val x: Int
    get() { val b = 1; return b }
``` -/
def given : ParsedText where
  path := ⟨"/p/a.kt"⟩
  text := "package p\n\nval x: Int\n    get() \x7b val b = 1; return b \x7d\n"
  tree :=
    .named "source_file" 0 56
      [.named "package_header" 0 9
        [.token "package" 0 7, .named "identifier" 8 9 [.named "simple_identifier" 8 9 []]],
       .named "property_declaration" 11 21
        [.named "binding_pattern_kind" 11 14 [.token "val" 11 14],
         .named "variable_declaration" 15 21
          [.named "simple_identifier" 15 16 [], .token ":" 16 17,
           .named "user_type" 18 21 [.named "type_identifier" 18 21 []]]],
       .named "getter" 26 55
        [.token "get" 26 29, .token "(" 29 30, .token ")" 30 31,
         .named "function_body" 32 55
          [.token "\x7b" 32 33,
           .named "statements" 34 53
            [.named "property_declaration" 34 43
              [.named "binding_pattern_kind" 34 37 [.token "val" 34 37],
               .named "variable_declaration" 38 39 [.named "simple_identifier" 38 39 []],
               .token "=" 40 41, .named "integer_literal" 42 43 []],
             .named "jump_expression" 45 53
              [.token "return" 45 51, .named "simple_identifier" 52 53 []]],
           .token "\x7d" 54 55]]]

def file : SourceFile := Project.sourceFile ⟨"/p"⟩ {} 0 .kotlin given

/-- The way down to the variable. -/
def getter : Node := (file.top.child? 2).getD file.top

def body : Node := (getter.child? 3).getD getter

def statements : Node := (body.child? 1).getD body

def inGetter : Node := (statements.child? 0).getD statements

/-- The walk looks into the getter, into its body and into the statements there. -/
theorem met : Met file false none inGetter := by
  have hgetter : Outside file getter :=
    .inner .top (List.mem_of_getElem? (i := 2) rfl) (by decide) (by decide)
  have hbody : Outside file body :=
    .inner hgetter (List.mem_of_getElem? (i := 3) rfl) (by decide) (by decide)
  have hstatements : Outside file statements :=
    .inner hbody (List.mem_of_getElem? (i := 1) rfl) (by decide) (by decide)
  exact .top hstatements (List.mem_of_getElem? (i := 0) rfl) (by decide)

end GetterWithVariable

open GetterWithVariable in
/-- A variable in the getter of a property is among the symbols. -/
theorem mem_symbols_local_getter :
    file.tree.WellFormed ∧ file.top.kind ∉ topKinds ∧
      ∃ s ∈ symbols file, s.name = "b" ∧ s.qualifiedName = none ∧
        ∃ n, Met file false none n ∧ s ∈ declaredAt file none n ∧
          ∃ a ∈ n.ancestors, a.kind = "getter" := by
  have hs : ∃ s ∈ declaredAt file none inGetter, s.name = "b" ∧ s.qualifiedName = none := by
    decide
  obtain ⟨s, hs, hname, hqualified⟩ := hs
  exact ⟨by decide, by decide, s, mem_symbols_of_ofMet ⟨_, _, _, met, hs⟩, hname,
    hqualified, inGetter, met, hs, by decide⟩

end Crossref.Kotlin
