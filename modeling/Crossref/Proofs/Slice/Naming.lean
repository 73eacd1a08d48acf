import Crossref.Proofs.Slice.Fidelity
import Crossref.Proofs.SourceFile.Names

/-!
# Proofs — slices — whom a slice names

A slice takes its names from the node that is found again for a declaration, a symbol took its own
from the node that introduced it.  Both are the same node when that node is not empty and nothing
below it has its span, and then a slice names what the node declares.  That is the symbol itself in
every case but one: the fields of one declaration in a Java class share its node, and the node is
named by the first of them.

* `Kotlin.Introduces.named`, `Java.Introduces.named`: a symbol has the names of its node.
* `ofSymbol_named`: the slice of an indexed symbol has the names of its node.
-/

namespace Crossref

open Node

/-! ### Kotlin -/

/-- **A Kotlin symbol has the names of the node that introduces it**, if it is written as a
declaration of its own: constructors have a name of their kind, and what the compiler adds to a
class stands at the class. -/
theorem Kotlin.Introduces.named {f : SourceFile} {n : Node} {s : Symbol} (h : Introduces f n s)
    (hkind : s.kind ≠ .constructor) (horigin : s.origin ≠ .synthetic) :
    declarationName? n f.text = some s.name ∧
      qualifiedName? f.package n f.text = s.qualifiedName := by
  rcases h.traits.names with hnames | hconstructor | hadded
  · exact hnames
  · exact absurd hconstructor hkind
  · exact absurd hadded horigin

/-! ### Java -/

namespace Java

/-- What is written in a class and has a qualified name has that of a class before its own. -/
theorem ne_nil_of_containerNames? {n c : Node} {source : String} {names : List String}
    (hc : c ∈ n.ancestors) (hk : c.kind ∈ classKinds) (h : containerNames? n source = some names) :
    names ≠ [] := by
  unfold containerNames? at h
  obtain ⟨-, h⟩ := Option.ite_none_left_eq_some.1 h
  have hmem : c ∈ n.ancestors.reverse.filter fun a => classKinds.contains a.kind :=
    List.mem_filter.2 ⟨List.mem_reverse.2 hc, by simpa using hk⟩
  cases hl : n.ancestors.reverse.filter fun a => classKinds.contains a.kind with
  | nil => rw [hl] at hmem; cases hmem
  | cons a above =>
      rw [hl, List.mapM_cons] at h
      obtain ⟨name, -, h⟩ := Option.bind_eq_some_iff.1 h
      obtain ⟨rest, -, h⟩ := Option.bind_eq_some_iff.1 h
      cases h
      exact List.cons_ne_nil name rest

/-- The qualified name of a field declaration, with the name behind its last dot cut off and put
back. -/
theorem qualifiedName?_field {package : Option String} {n c : Node} {source name : String}
    (hk : n.kind ∈ fieldKinds) (hc : c ∈ n.ancestors) (hck : c.kind ∈ classKinds)
    (hname : declarationName? n source = some name) (hdot : '.' ∉ name.toList) :
    ((qualifiedName? package n source).bind (Text.beforeLast? · '.')).map (· ++ "." ++ name) =
      qualifiedName? package n source := by
  have hctor : n.kind ∉ constructorKinds := by
    simp only [fieldKinds, List.mem_cons, List.not_mem_nil, or_false] at hk
    rcases hk with hk | hk <;> simp [hk, constructorKinds]
  have hqualified : qualifiedName? package n source =
      (containerNames? n source).bind fun containers =>
        QualifiedName.ofParts? (QualifiedName.packageParts package ++ containers ++ [name]) := by
    simp [qualifiedName?, hname, hctor]
  rw [hqualified]
  cases hcontainers : containerNames? n source with
  | none => rfl
  | some containers =>
      have hne : QualifiedName.packageParts package ++ containers ≠ [] :=
        List.append_ne_nil_of_right_ne_nil _ (ne_nil_of_containerNames? hc hck hcontainers)
      rw [Option.bind_some, QualifiedName.ofParts?_concat hne, Option.bind_some,
        Text.beforeLast?_append hdot, Option.map_some]

/-- A field declaration is named by its first variable. -/
theorem declarationName?_field {n : Node} {source : String} (hk : n.kind ∈ fieldKinds) :
    declarationName? n source =
      (n.childrenOfKind "variable_declarator").head?.bind (nameField? · source) := by
  have hcontains : fieldKinds.contains n.kind = true := by simpa using hk
  rw [declarationName?, if_pos hcontains, childrenOfKind, List.head?_filter]
  rfl

/-- **A Java symbol has the names of the node that introduces it**, if it is written as a
declaration of its own and no field behind another one. -/
theorem Introduces.named {f : SourceFile} {n : Node} {s : Symbol} (h : Introduces f n s)
    (hkind : s.kind ≠ .constructor) (hdot : '.' ∉ s.name.toList) :
    (declarationName? n f.text = some s.name ∧
      qualifiedName? f.package n f.text = s.qualifiedName) ∨
    (n.kind ∈ fieldKinds ∧ s.handle.slot ≠ 0) := by
  cases h with
  | classifier _ _ hname => exact .inl ⟨hname, rfl⟩
  | implicitConstructor _ h =>
      unfold implicitConstructor? at h
      obtain ⟨-, h⟩ := Option.ite_none_right_eq_some.1 h
      cases h
      exact absurd rfl hkind
  | enumConstant _ _ h =>
      obtain ⟨name, hname, rfl⟩ := Option.map_eq_some_iff.1 h
      exact .inl ⟨hname, rfl⟩
  | method _ _ h =>
      obtain ⟨name, hname, rfl⟩ := Option.map_eq_some_iff.1 h
      exact .inl ⟨hname, rfl⟩
  | constructor => exact absurd rfl hkind
  | field _ hk hc hck h =>
      obtain ⟨⟨declarator, slot⟩, hmem, h⟩ := List.mem_filterMap.1 h
      obtain ⟨name, hname, rfl⟩ := Option.map_eq_some_iff.1 h
      by_cases hslot : slot = 0
      · subst hslot
        left
        have hfirst : (n.childrenOfKind "variable_declarator").head? = some declarator := by
          rw [List.head?_eq_getElem?]
          exact List.mk_mem_zipIdx_iff_getElem?.1 hmem
        have hown : declarationName? n f.text = some name := by
          rw [declarationName?_field hk, hfirst]
          exact hname
        exact ⟨hown, (qualifiedName?_field hk hc hck hown hdot).symm⟩
      · exact .inr ⟨hk, hslot⟩

end Java

/-! ### Slices -/

/-- The node is not empty, and no node below it has its key. -/
def SourceFile.Lone (f : SourceFile) (n : Node) : Prop :=
  n.start < n.stop ∧ ∀ m, Below n m → f.keyOf m = f.keyOf n → m = n

namespace Slice

/-- The slice has the names of the declaration at a node. -/
structure Names (f : SourceFile) (n : Node) (slice : Slice) : Prop where
  simpleName : slice.simpleName = f.declarationName? n
  qualifiedName : slice.qualifiedName = f.qualifiedName? n
  nodeKind : slice.nodeKind = n.kind

theorem names_snapshot (f : SourceFile) (n : Node) (origin : Origin) :
    Names f n (snapshot f n origin) := ⟨rfl, rfl, rfl⟩

/-- **A symbol has the names of its node**, unless it is a field behind another one. -/
theorem named_of_introduces {f : SourceFile} {n : Node} {s : Symbol} (h : f.Introduces n s)
    (hkind : s.kind ≠ .constructor) (horigin : s.origin ≠ .synthetic)
    (hdot : f.language = .java → '.' ∉ s.name.toList) :
    (f.declarationName? n = some s.name ∧ f.qualifiedName? n = s.qualifiedName) ∨
      (f.language = .java ∧ n.kind ∈ Java.fieldKinds ∧ s.handle.slot ≠ 0) := by
  unfold SourceFile.Introduces at h
  unfold SourceFile.declarationName? SourceFile.qualifiedName?
  cases hl : f.language with
  | kotlin =>
      rw [hl] at h
      exact .inl (Kotlin.Introduces.named h hkind horigin)
  | java =>
      rw [hl] at h
      exact (Java.Introduces.named h hkind (hdot hl)).imp id fun hfield => ⟨rfl, hfield⟩

/-- **The slice of an indexed symbol has the names of the node that introduced the symbol**, for
every index that is built from well-formed trees, when the node is not empty and nothing below it
has its key.  These are the names of the symbol, unless it is a field of a Java class that is not
the first one of its declaration: the declaration is named by its first field. -/
theorem ofSymbol_named {i : Index} (hi : i.Reachable) (hw : ∀ f ∈ i.files, f.WellFormed)
    {s : Symbol} (hs : s ∈ i.symbols) {f : SourceFile}
    (hf : i.file? s.declaration.file = some f) (hc : f.compiled = false)
    (hkind : s.kind ≠ .constructor) (horigin : s.origin ≠ .synthetic)
    (hdot : f.language = .java → '.' ∉ s.name.toList)
    (hlone : ∀ n, Within f.tree n → f.Introduces n s → f.Lone n) :
    ∃ n slice, Within f.tree n ∧ f.Introduces n s ∧ f.nodeFor? s.declaration = some n ∧
      ofSymbol i s = .ok slice ∧ Names f n slice ∧
      ((slice.simpleName = some s.name ∧ slice.qualifiedName = s.qualifiedName) ∨
        (f.language = .java ∧ n.kind ∈ Java.fieldKinds ∧ s.handle.slot ≠ 0 ∧
          slice.simpleName =
            (n.childrenOfKind "variable_declarator").head?.bind (Java.nameField? · f.text))) := by
  obtain ⟨hff, hsf, -⟩ := hi.consistent.place_of_file? hs hf
  obtain ⟨n, hn, hintro⟩ := SourceFile.exists_introduces hsf
  obtain ⟨hne, hlow⟩ := hlone n hn hintro
  have hfind : f.nodeFor? s.declaration = some n := by
    rw [hintro.declaredBy.1]
    exact SourceFile.nodeFor?_keyOf_of_lowest (hw f hff) hn hne hlow
  have hslice : ofSymbol i s = .ok (snapshot f n s.origin) := by
    rw [ofSymbol, hf]
    dsimp only
    rw [hfind]
    dsimp only
    rw [ofNode, if_neg (by simp [hc])]
  have hnames := names_snapshot f n s.origin
  refine ⟨n, _, hn, hintro, hfind, hslice, hnames, ?_⟩
  rw [hnames.simpleName, hnames.qualifiedName]
  refine (named_of_introduces hintro hkind horigin hdot).imp id ?_
  rintro ⟨hjava, hfield, hslot⟩
  refine ⟨hjava, hfield, hslot, ?_⟩
  rw [SourceFile.declarationName?, hjava]
  exact Java.declarationName?_field hfield

end Slice

/-! ### Two fields of one declaration -/

namespace TwoFields

/-- ```
class C {
    int a, b;
}
``` -/
def text : String := "class C \x7b\n    int a, b;\n\x7d\n"

/-- The tree, filling a field of its parent. -/
def inField (field : String) : Tree → Tree
  | .node label children => .node { label with field := some field } children

/-- A variable of one letter. -/
def declarator (start : Nat) : Tree :=
  inField "declarator" (.named "variable_declarator" start (start + 1)
    [inField "name" (.named "identifier" start (start + 1) [])])

def tree : Tree :=
  .named "program" 0 26
    [.named "class_declaration" 0 25
      [.token "class" 0 5, inField "name" (.named "identifier" 6 7 []),
       inField "body" (.named "class_body" 8 25
        [.token "\x7b" 8 9,
         .named "field_declaration" 14 23
          [inField "type" (.named "integral_type" 14 17 [.token "int" 14 17]),
           declarator 18, .token "," 19 20, declarator 21, .token ";" 22 23],
         .token "\x7d" 24 25])]]

def given : ParsedText := ⟨⟨"/p/C.java"⟩, text, tree⟩

def file : SourceFile := Project.sourceFile ⟨"/p"⟩ {} 0 .java given

/-- A project with the one file. -/
def index : Index := Project.indexOf ⟨"/p"⟩ {} [given]

/-- The symbols of the two fields, behind the constructor and the class. -/
def first : Symbol := (index.symbols.drop 2).headD default

def second : Symbol := index.symbols.getLastD default

theorem wellFormed : ∀ f ∈ index.files, f.WellFormed := by decide

theorem file?_of_file_eq {s : Symbol} (h : s.declaration.file = 0) :
    index.file? s.declaration.file = some file := by
  rw [h]
  rfl

/-- The names in the slice of a symbol, if it can be made. -/
def shownNames? (s : Symbol) : Option (Option String × Option String) :=
  (Slice.ofSymbol index s).toOption.map fun slice => (slice.simpleName, slice.qualifiedName)

theorem exists_slice_of_shownNames? {s : Symbol} {simple qualified : Option String}
    (h : shownNames? s = some (simple, qualified)) :
    ∃ slice, Slice.ofSymbol index s = .ok slice ∧
      slice.simpleName = simple ∧ slice.qualifiedName = qualified := by
  unfold shownNames? at h
  cases hs : Slice.ofSymbol index s with
  | error e => rw [hs] at h; cases h
  | ok slice =>
      rw [hs] at h
      cases h
      exact ⟨slice, rfl, rfl, rfl⟩

/-- The nodes of the tree that have the key of the fields. -/
def fieldNodes : List Node := file.top.preorder.filter fun n => file.keyOf n = first.declaration

theorem mem_fieldNodes {n : Node} (hn : Within file.tree n)
    (hk : file.keyOf n = first.declaration) : n ∈ fieldNodes :=
  List.mem_filter.2 ⟨within_iff_mem_preorder.1 hn, by simpa using hk⟩

/-- There is only one node with the key of the fields. -/
theorem lone {n : Node} (hn : Within file.tree n) (hintro : file.Introduces n first) :
    file.Lone n := by
  have hkey : file.keyOf n = first.declaration := hintro.declaredBy.1.symm
  have hlt : ∀ m ∈ fieldNodes, m.start < m.stop := by decide
  obtain ⟨only, honly⟩ : ∃ only, fieldNodes = [only] := List.length_eq_one_iff.1 (by decide)
  have heq : ∀ m ∈ fieldNodes, m = only := fun m hm => List.mem_singleton.1 (honly ▸ hm)
  have hmem := mem_fieldNodes hn hkey
  refine ⟨hlt n hmem, fun m hm hmkey => ?_⟩
  rw [heq n hmem, heq m (mem_fieldNodes (hm.within hn) (hmkey.trans hkey))]

end TwoFields

open TwoFields in
theorem Slice.ofSymbol_named_first :
    ∃ n slice, Within file.tree n ∧ file.Introduces n first ∧
      file.nodeFor? first.declaration = some n ∧ Slice.ofSymbol index first = .ok slice ∧
      Slice.Names file n slice ∧ slice.simpleName = some "a" ∧
      slice.qualifiedName = some "C.a" := by
  have hslot : first.handle.slot = 0 := by decide
  have hname : first.name = "a" := by decide
  have hqualified : first.qualifiedName = some "C.a" := by decide
  obtain ⟨n, slice, hn, hintro, hfind, hslice, hnames, h⟩ :=
    Slice.ofSymbol_named (.built _ _ _) wellFormed (s := first) (by decide)
      (file?_of_file_eq (by decide)) (by decide) (by decide)
      (by decide) (by decide) fun _ => lone
  obtain ⟨hsimple, hqual⟩ := h.resolve_right fun hfield => hfield.2.2.1 hslot
  exact ⟨n, slice, hn, hintro, hfind, hslice, hnames, hname ▸ hsimple, hqualified ▸ hqual⟩

open TwoFields in
/-- The declaration of both fields is named by the first one, and so is the slice of the second. -/
theorem Slice.ofSymbol_misnamed_second :
    index.Reachable ∧ (∀ f ∈ index.files, f.WellFormed) ∧ second ∈ index.symbols ∧
      second.kind ≠ .constructor ∧ second.origin ≠ .synthetic ∧
      second.declaration.start < second.declaration.stop ∧
      index.file? second.declaration.file = some file ∧ file.compiled = false ∧
      second.name = "b" ∧ second.qualifiedName = some "C.b" ∧
      ∃ slice, Slice.ofSymbol index second = .ok slice ∧
        slice.simpleName = some "a" ∧ slice.qualifiedName = some "C.a" := by
  refine ⟨.built _ _ _, wellFormed, by decide, by decide, by decide,
    by decide, file?_of_file_eq (by decide), by decide, by decide,
    by decide, exists_slice_of_shownNames? (by decide)⟩

end Crossref
