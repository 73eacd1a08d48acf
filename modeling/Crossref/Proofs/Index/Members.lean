import Crossref.Proofs.Index.Reachable
import Crossref.Proofs.Java.Members
import Crossref.Proofs.Kotlin.Members
import Crossref.Proofs.SourceFile.Keys

/-!
# Proofs — index — members hang together with their classes

A symbol with a parent is introduced by the node of a class, or by a node that is a part of a class:
a parameter of its head or something written in its body.  Parts lie below their class, so that the
declaration of the class contains that of the member; and the symbol of the class is among the
symbols of the file under the handle that the member points to.

* `exists_class`: the class of a member, in either language.
* `declaration_contains_member`: a member with its class.
-/

namespace Crossref.SourceFile
open Node

/-- The node declares a class. -/
def IsClassNode (f : SourceFile) (n : Node) : Prop :=
  match f.language with
  | .kotlin => n.kind ∈ Kotlin.classKinds
  | .java => n.kind ∈ Java.classKinds

/-- The node is a part of the class at `n`. -/
def PartOf (f : SourceFile) (n m : Node) : Prop :=
  match f.language with
  | .kotlin => Kotlin.PartOf n m
  | .java => Java.PartOf n m

/-- The symbol is introduced by the node of a class or by a part of it, and points to the class. -/
structure Owns (f : SourceFile) (n : Node) (c : Symbol) (m : Node) (s : Symbol) : Prop where
  within : Within f.tree n
  isClass : f.IsClassNode n
  introduced : f.Introduces n c
  mem : c ∈ f.symbols
  classifier : c.kind.isClassifier = true
  member : f.Introduces m s
  part : m = n ∨ f.PartOf n m
  parent : s.parent = some c.handle

variable {f : SourceFile} {s : Symbol}

/-- **The class of a member**, which the member is named after. -/
theorem exists_class (hs : s ∈ f.symbols) (hp : s.parent ≠ none) :
    ∃ n c m, f.Owns n c m s ∧
      ((f.language = .java → Java.Regular f.tree f.text) → s.NamedAfter c) := by
  unfold symbols at hs
  cases hl : f.language with
  | kotlin =>
      rw [hl] at hs
      obtain ⟨n, m, c, hn, hk, hclass, hc, hkind, hm, hpart, hparent, hnamed⟩ :=
        Kotlin.exists_class_of_parent hs hp
      refine ⟨n, c, m, ⟨hn, ?_, ?_, ?_, hkind, ?_, hpart.imp_right fun h => ?_, hparent⟩,
        fun _ => hnamed⟩
      · rwa [IsClassNode, hl]
      · rwa [Introduces, hl]
      · rwa [symbols, hl]
      · rwa [Introduces, hl]
      · rwa [PartOf, hl]
  | java =>
      rw [hl] at hs
      obtain ⟨n, m, c, hn, hk, hclass, hc, hkind, hm, hpart, hparent, hnamed⟩ :=
        Java.exists_class_of_parent hs hp
      refine ⟨n, c, m, ⟨hn, ?_, ?_, ?_, hkind, ?_, hpart.imp_right fun h => ?_, hparent⟩,
        fun hregular => hnamed (hregular rfl)⟩
      · rwa [IsClassNode, hl]
      · rwa [Introduces, hl]
      · rwa [symbols, hl]
      · rwa [Introduces, hl]
      · rwa [PartOf, hl]

theorem PartOf.below {n m : Node} (h : f.PartOf n m) : Below n m := by
  unfold PartOf at h
  cases hl : f.language with
  | kotlin =>
      rw [hl] at h
      exact Kotlin.PartOf.below h
  | java =>
      rw [hl] at h
      exact Java.PartOf.below h

/-- **A member with its class.**  To a symbol with a parent the file has a classifier with exactly
that handle, whose declaration contains that of the symbol; when the symbol has a qualified name so
has the classifier, and a constructor has just that name, any other member that name with its own
behind it. -/
theorem declaration_contains_member (hf : f.tree.WellFormed)
    (hjava : f.language = .java → Java.Regular f.tree f.text) (hs : s ∈ f.symbols) {h : Handle}
    (hp : s.parent = some h) :
    ∃ c ∈ f.symbols, c.handle = h ∧ c.kind.isClassifier = true ∧
      c.declaration.contains s.declaration = true ∧
      ∀ q, s.qualifiedName = some q → ∃ o, c.qualifiedName = some o ∧
        q = if s.kind = .constructor then o else o ++ "." ++ s.name := by
  obtain ⟨n, c, m, howns, hnamed⟩ := exists_class hs (by simp [hp])
  have hbelow : Below n m := by
    rcases howns.part with rfl | hpart
    · exact .refl
    · exact hpart.below
  have hcontains : c.declaration.contains s.declaration = true := by
    rw [howns.introduced.declaredBy.1, howns.member.declaredBy.1]
    exact contains_of_below hf howns.within hbelow
  have hhandle : c.handle = h := Option.some.inj (howns.parent.symm.trans hp)
  exact ⟨c, howns.mem, hhandle, howns.classifier, hcontains, hnamed hjava⟩

/-! ### Two fields behind the constants of an enum -/

namespace EnumWithFields

/-- ```
enum E {
    A;
    int x, y;
}
``` -/
def text : String := "enum E \x7b\n    A;\n    int x, y;\n\x7d\n"

/-- A named node in a field of its parent. -/
def inField (field kind : String) (start stop : Nat) (children : List Tree) : Tree :=
  .node ⟨kind, true, some field, start, stop⟩ children

/-- A variable of one letter. -/
def declarator (start : Nat) : Tree :=
  inField "declarator" "variable_declarator" start (start + 1)
    [inField "name" "identifier" start (start + 1) []]

def tree : Tree :=
  .named "program" 0 32
    [.named "enum_declaration" 0 31
      [.token "enum" 0 4, inField "name" "identifier" 5 6 [],
       inField "body" "enum_body" 7 31
        [.token "\x7b" 7 8,
         .named "enum_constant" 13 14 [inField "name" "identifier" 13 14 []],
         .named "enum_body_declarations" 14 29
          [.token ";" 14 15,
           .named "field_declaration" 20 29
            [inField "type" "integral_type" 20 23 [.token "int" 20 23],
             declarator 24, .token "," 25 26, declarator 27, .token ";" 28 29]],
         .token "\x7d" 30 31]]]

def file : SourceFile :=
  Project.sourceFile ⟨"/p"⟩ {} 0 .java ⟨⟨"/p/E.java"⟩, text, tree⟩

/-- The second field, behind the constructor, the enum, its constant and the first field. -/
def second : Symbol := file.symbols.getLastD default

end EnumWithFields

open EnumWithFields in
theorem declaration_contains_member_second :
    file.tree.WellFormed ∧ Java.Regular file.tree file.text ∧ second ∈ file.symbols ∧
      second.name = "y" ∧ second.handle.slot = 1 ∧ second.qualifiedName = some "E.y" ∧
      ∃ h, second.parent = some h ∧ ∃ c ∈ file.symbols, c.handle = h ∧
        c.kind.isClassifier = true ∧ c.declaration.contains second.declaration = true ∧
        ∃ o, c.qualifiedName = some o ∧ o ++ "." ++ second.name = "E.y" := by
  have hf : file.tree.WellFormed := by decide
  have hregular : Java.Regular file.tree file.text := by decide
  have hmem : second ∈ file.symbols := by decide
  have hname : second.name = "y" := by decide
  have hqualified : second.qualifiedName = some "E.y" := by decide
  have hparent : second.parent = some ⟨0, 0, 31, .enumClass, 0⟩ := by decide
  obtain ⟨c, hc, hhandle, hkind, hcontains, hnamed⟩ :=
    declaration_contains_member hf (fun _ => hregular) hmem hparent
  obtain ⟨o, ho, hq⟩ := hnamed _ hqualified
  rw [if_neg (by decide)] at hq
  exact ⟨hf, hregular, hmem, hname, by decide, hqualified, _, hparent, c, hc, hhandle,
    hkind, hcontains, o, ho, hq.symm⟩

end Crossref.SourceFile
