import Crossref.Proofs.Kotlin.TypeName
import Crossref.Proofs.Resolve.Receivers
import Crossref.Session

/-!
# Proofs — resolution — types with arguments

A type as it is written may carry arguments and a mark behind it.  Its name ends with the first
arguments, so these and the mark never matter when they stand behind the last segment of a path.
Behind an earlier segment they do: the rest of the path is gone with them, and what is answered is
the outer class of the one that is named.

* `classifierOfText_typeText`: the classifier a type stands for, wherever types are asked for.
* `Answers.type_up_to_arguments`: what is answered about a node with a type.
* `Answers.type_apart_nested`: a class in a generic class, whose own name is not looked for.
-/

namespace Crossref

/-! ### The name of a type -/

namespace Resolve
open Kotlin

variable {i : Index} {ls : Levels} {f : SourceFile} {n : Node} {path : List Segment}

/-- Wherever a type is asked for, a path with arguments stands for its segments up to the first
arguments. -/
theorem classifierOfText_typeText (h : ∀ s ∈ path, IsName s.name) (nullable throughAlias : Bool) :
    classifierOfText i ls f n (typeText path nullable) throughAlias =
      classifierOfText i ls f n (pathText (upToArguments path)) throughAlias := by
  rw [classifierOfText, simpleTypeName_typeText h, classifierOfText]

end Resolve

namespace Answers
open Resolve Kotlin

/-- What is answered about a node with its type at `t` when that type is written as `text`. -/
def typeAs (i : Index) (f : SourceFile) (n t : Node) (text : String) :
    Except SessionError (Option Symbol) :=
  guard f n fun _ => classifierOfText i (levels i maxDepth) f t text false

variable {i : Index} {f : SourceFile} {n t : Node} {path : List Segment} {nullable : Bool}

theorem typeNode?_of_userType (h : n.kind = "user_type") : typeNode? n = some n := by
  rw [typeNode?, h]
  rfl

theorem type_eq_typeAs (ht : typeNode? n = some t) :
    (ofIndex i f).type n = typeAs i f n t (f.textOf t) := by
  simp only [ofIndex, typeAs, ht, top_levels_succ, levelOver, Option.bind_some]

/-- **Type arguments end the name of a type.**  A path that is written with arguments, and with a
mark if it may be null, is answered like its segments up to the first arguments.  With arguments
behind the last segment at most, that is the whole path. -/
theorem type_up_to_arguments (h : ∀ s ∈ path, IsName s.name) (ht : typeNode? n = some t)
    (htext : f.textOf t = typeText path nullable) :
    (ofIndex i f).type n = typeAs i f n t (pathText (upToArguments path)) ∧
    ((∀ s ∈ path.dropLast, s.arguments = none) →
      (ofIndex i f).type n = typeAs i f n t (pathText path)) := by
  have hcut : (ofIndex i f).type n = typeAs i f n t (pathText (upToArguments path)) := by
    rw [type_eq_typeAs ht, htext, typeAs, classifierOfText_typeText h, typeAs]
  refine ⟨hcut, fun hlast => ?_⟩
  rw [hcut, upToArguments_eq_self hlast]

end Answers

/-! ### A class in a generic class -/

namespace NestedTypes
open Node Resolve Kotlin TwoCalls

/-- A class in another one, both with a parameter, and its type with and without arguments for the
outer class:
```
class A<T> {
    inner class B<U>
}
fun f(x: A<Int>.B<Int>, y: A.B<Int>) {}
``` -/
def text : String :=
  "class A<T> \x7b\n    inner class B<U>\n\x7d\nfun f(x: A<Int>.B<Int>, y: A.B<Int>) \x7b\x7d\n"

/-- A class's parameter. -/
def parametersTree (start : Nat) : Tree :=
  .named "type_parameters" start (start + 3)
    [.token "<" start (start + 1),
     .named "type_parameter" (start + 1) (start + 2)
      [.named "type_identifier" (start + 1) (start + 2) []],
     .token ">" (start + 2) (start + 3)]

/-- `<Int>` -/
def argumentsTree (start : Nat) : Tree :=
  .named "type_arguments" start (start + 5)
    [.token "<" start (start + 1),
     .named "type_projection" (start + 1) (start + 4)
      [.named "user_type" (start + 1) (start + 4)
        [.named "type_identifier" (start + 1) (start + 4) []]],
     .token ">" (start + 4) (start + 5)]

/-- A parameter of the function with the parts of its type. -/
def parameterTree (start stop : Nat) (parts : List Tree) : Tree :=
  .named "parameter" start stop
    [.named "simple_identifier" start (start + 1) [], .token ":" (start + 1) (start + 2),
     .named "user_type" (start + 3) stop parts]

def tree : Tree :=
  .named "source_file" 0 76
    [.named "class_declaration" 0 35
      [.token "class" 0 5, .named "type_identifier" 6 7 [], parametersTree 7,
       .named "class_body" 11 35
        [.token "\x7b" 11 12,
         .named "class_declaration" 17 33
          [.named "modifiers" 17 22 [.named "class_modifier" 17 22 [.token "inner" 17 22]],
           .token "class" 23 28, .named "type_identifier" 29 30 [], parametersTree 30],
         .token "\x7d" 34 35]],
     .named "function_declaration" 36 75
      [.token "fun" 36 39, .named "simple_identifier" 40 41 [],
       .named "function_value_parameters" 41 72
        [.token "(" 41 42,
         parameterTree 42 58
          [.named "type_identifier" 45 46 [], argumentsTree 46, .token "." 51 52,
           .named "type_identifier" 52 53 [], argumentsTree 53],
         .token "," 58 59,
         parameterTree 60 71
          [.named "type_identifier" 63 64 [], .token "." 64 65,
           .named "type_identifier" 65 66 [], argumentsTree 66],
         .token ")" 71 72],
       .named "function_body" 73 75 [.token "\x7b" 73 74, .token "\x7d" 74 75]]]

def given : ParsedText := ⟨⟨"/p/a.kt"⟩, text, tree⟩

def file : SourceFile := Project.sourceFile ⟨"/p"⟩ {} 0 .kotlin given

/-- A project with the one file. -/
def index : Index := Project.indexOf ⟨"/p"⟩ {} [given]

/-- The type that begins at the byte. -/
def typeAt (start : Nat) : Node :=
  (file.top.preorder.find? fun n => n.kind == "user_type" && n.start == start).getD file.top

/-- The type of the first parameter. -/
def applied : List Segment := [⟨['A'], some "Int".toList⟩, ⟨['B'], some "Int".toList⟩]

/-- The type of the second. -/
def bare : List Segment := [⟨['A'], none⟩, ⟨['B'], some "Int".toList⟩]

/-- The symbol of the class outside. -/
def outerClass : Symbol := classifierAt index ⟨0, 0, 35⟩

/-- The symbol of the class in it. -/
def innerClass : Symbol := classifierAt index ⟨0, 17, 33⟩

theorem placed : (typeAt 45).kind = "user_type" ∧ (typeAt 63).kind = "user_type" ∧
    file.textOf (typeAt 45) = typeText applied false ∧
    file.textOf (typeAt 63) = typeText bare false ∧
    (typeAt 45).stop = 58 ∧ (typeAt 63).stop = 71 ∧ Text.size file.text = 76 ∧
    nearestReceiver? file (typeAt 45) = none := by
  decide +kernel

theorem lookedUp : (inFile index file "A" .type).head? = some outerClass ∧
    (qualified index "A.B" .type).head? = some innerClass ∧
    outerClass.kind = .plainClass ∧ outerClass.name = "A" ∧ innerClass.name = "B" := by
  simp only [index, Project.indexOf, Index.ofFiles, inFile, qualified,
    Index.topLevelIn_ofParts, Index.findByQualifiedName_ofParts]
  decide +kernel

/-- The name of the outer class alone leads to it. -/
theorem typeAs_outer :
    Answers.typeAs index file (typeAt 45) (typeAt 45) "A" = .ok (some outerClass) := by
  obtain ⟨-, -, -, -, hstop, -, hsize, hnear⟩ := placed
  obtain ⟨hfound, -, hkind, -⟩ := lookedUp
  have hclass : classifierOfText index (levels index maxDepth) file (typeAt 45) "A" false =
      some outerClass :=
    classifierOfText_of_inFile (by decide) (by decide) (by decide) hnear hfound (by simp [hkind]) 15
      false
  rw [Answers.typeAs, Answers.guard, if_neg (by rw [hstop, hsize]; decide)]
  exact congrArg _ hclass

/-- The path of both leads to the inner one, wherever it is written in the file. -/
theorem typeAs_inner {t : Node} (h : t.stop ≤ 76) :
    Answers.typeAs index file t t "A.B" = .ok (some innerClass) := by
  obtain ⟨-, -, -, -, -, -, hsize, -⟩ := placed
  obtain ⟨-, hfound, -⟩ := lookedUp
  have hname : Text.withoutBlanks (simpleTypeName "A.B") = "A.B" := by decide
  have hclass : classifierOfName index (levels index maxDepth) file t "A.B" = some innerClass := by
    rw [classifierOfName, if_pos (by decide), hfound]
  rw [Answers.typeAs, Answers.guard, if_neg (by omega)]
  simp [classifierOfText, hname, hclass]

end NestedTypes

namespace Answers
open Resolve Kotlin NestedTypes

/-- `A<Int>.B<Int>` is answered like `A`, and `A.B<Int>` like `A.B`. -/
theorem type_up_to_arguments_applied :
    (∀ s ∈ applied ++ bare, IsName s.name) ∧
    typeNode? (typeAt 45) = some (typeAt 45) ∧ typeNode? (typeAt 63) = some (typeAt 63) ∧
    file.textOf (typeAt 45) = typeText applied false ∧
    file.textOf (typeAt 63) = typeText bare false ∧
    (ofIndex index file).type (typeAt 45) = .ok (some outerClass) ∧
    (∀ s ∈ bare.dropLast, s.arguments = none) ∧
    (ofIndex index file).type (typeAt 63) = .ok (some innerClass) := by
  obtain ⟨hkind, hkind', htext, htext', -, hstop, -⟩ := placed
  have hnames : ∀ s ∈ applied ++ bare, IsName s.name := by decide
  have hbare : ∀ s ∈ bare.dropLast, s.arguments = none := by decide
  have htype : typeNode? (typeAt 45) = some (typeAt 45) := typeNode?_of_userType hkind
  have htype' : typeNode? (typeAt 63) = some (typeAt 63) := typeNode?_of_userType hkind'
  obtain ⟨houter, -⟩ := type_up_to_arguments (i := index)
    (fun s hs => hnames s (List.mem_append_left _ hs)) htype htext
  obtain ⟨-, hinner⟩ := type_up_to_arguments (i := index)
    (fun s hs => hnames s (List.mem_append_right _ hs)) htype' htext'
  refine ⟨hnames, htype, htype', htext, htext', houter.trans typeAs_outer, hbare,
    (hinner hbare).trans (typeAs_inner (by rw [hstop]; decide))⟩

/-- With arguments for the outer class the inner one is not found: the outer one is answered. -/
theorem type_apart_nested :
    (∀ s ∈ applied, IsName s.name) ∧ typeNode? (typeAt 45) = some (typeAt 45) ∧
    file.textOf (typeAt 45) = typeText applied false ∧
    (ofIndex index file).type (typeAt 45) = .ok (some outerClass) ∧
    typeAs index file (typeAt 45) (typeAt 45) (pathText applied) = .ok (some innerClass) ∧
    outerClass ≠ innerClass := by
  obtain ⟨hkind, -, htext, -, hstop, -⟩ := placed
  obtain ⟨-, -, -, houter, hinner⟩ := lookedUp
  have htype : typeNode? (typeAt 45) = some (typeAt 45) := typeNode?_of_userType hkind
  have hnames : ∀ s ∈ applied, IsName s.name := by decide
  have hanswer : (ofIndex index file).type (typeAt 45) = .ok (some outerClass) := by
    rw [type_eq_typeAs htype, htext, typeAs, classifierOfText_typeText hnames]
    exact typeAs_outer
  refine ⟨hnames, htype, htext, hanswer, typeAs_inner (by rw [hstop]; decide), fun h => ?_⟩
  rw [h] at houter
  exact absurd (houter.symm.trans hinner) (by decide)

end Answers

end Crossref
