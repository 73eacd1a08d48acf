import Crossref.Proofs.Resolve.Inheritance
import Crossref.Proofs.Resolve.Receivers

/-!
# Proofs — resolution — members by name and members of `this`

A call of a member by its name alone looks at the nearest implicit receivers, and `this` is typed by
a way up of its own.  In a class the two come to the same classifier, so that `m(..)` and
`this.m(..)` are one call.  But the way up to the type of `this` passes by object literals: in one,
`m(..)` is what the supertypes of the literal offer, and `this.m(..)` is looked for in the class or
the extension around the literal.

* `thisType_eq_of_class`, `thisType_eq_around`: the type of `this` in a class and in a literal.
* `Answers.call_this_alike`: in a class the calls are alike; in a literal the second is one of a
  member of the `this` around it.
-/

namespace Crossref

namespace Resolve
open Node

/-- The type that `this` has around the node. -/
def thisAround (i : Index) (ls : Levels) (f : SourceFile) (n : Node) : Option ExprType :=
  (n.ancestors.findSome? (thisTypeAt i ls f none)).join

/-- The nodes that add a receiver if they declare an extension. -/
def extensionKinds : List String := ["function_declaration", "property_declaration"]

/-- Every class adds a receiver. -/
theorem mem_receiverClassKinds {kind : String} (h : kind ∈ Kotlin.classKinds) :
    kind ∈ receiverClassKinds :=
  (by decide : ∀ kind ∈ Kotlin.classKinds, kind ∈ receiverClassKinds) kind h

section This

variable {i : Index} {ls : Levels} {f : SourceFile} {n r : Node}

/-- What adds no receivers gives `this` no type. -/
theorem thisTypeAt_eq_none (h : addsReceiver f n = false) : thisTypeAt i ls f none n = none := by
  simp only [addsReceiver, Bool.or_eq_false_iff, Bool.and_eq_false_iff, beq_eq_false_iff_ne] at h
  obtain ⟨⟨hclass, -⟩, hextension⟩ := h
  unfold thisTypeAt
  dsimp only
  split
  · next hk =>
    have hnone := hextension.resolve_left fun hne => by
      rcases hk with hk | hk <;> simp [hk] at hne
    rw [Option.isSome_eq_false_iff, Option.isNone_iff_eq_none] at hnone
    rw [hnone]
    rfl
  · refine if_neg fun hk => ?_
    rw [List.contains_iff_mem.2 (mem_receiverClassKinds (List.contains_iff_mem.1 hk.1))] at hclass
    cases hclass

/-- The type of `this` is decided at the nearest node that adds receivers, or above it. -/
theorem thisAround_eq {way : List Node} (hway : ∀ a ∈ way, addsReceiver f a = false)
    (hsplit : n.ancestors = way ++ r :: r.ancestors) :
    thisAround i ls f n =
      ((thisTypeAt i ls f none r).or (r.ancestors.findSome? (thisTypeAt i ls f none))).join := by
  have hnone : way.findSome? (thisTypeAt i ls f none) = none :=
    List.findSome?_eq_none_iff.2 fun a ha => thisTypeAt_eq_none (hway a ha)
  rw [thisAround, hsplit, List.findSome?_append, hnone, Option.none_or, List.findSome?_cons]
  cases thisTypeAt i ls f none r <;> rfl

/-- In a class, `this` has the class as its type. -/
theorem thisAround_eq_of_class (hr : nearestReceiver? f n = some r)
    (hk : r.kind ∈ Kotlin.classKinds) :
    thisAround i ls f n = (i.classifierAt? (f.keyOf r)).map .ofClassifier := by
  obtain ⟨way, hsplit, hway⟩ := exists_split_of_nearestReceiver? hr
  have hextension : ¬ (r.kind = "function_declaration" ∨ r.kind = "property_declaration") := by
    revert hk
    exact (by decide : ∀ kind ∈ Kotlin.classKinds,
      ¬ (kind = "function_declaration" ∨ kind = "property_declaration")) r.kind
  have hat : thisTypeAt i ls f none r = some ((i.classifierAt? (f.keyOf r)).map .ofClassifier) := by
    simp [thisTypeAt, hextension, hk]
  rw [thisAround_eq hway hsplit, hat]
  rfl

/-- In an object literal, `this` has the type that it has around the literal. -/
theorem thisAround_eq_around (hr : nearestReceiver? f n = some r)
    (hk : r.kind ∉ Kotlin.classKinds) (hextension : r.kind ∉ extensionKinds) :
    thisAround i ls f n = thisAround i ls f r := by
  obtain ⟨way, hsplit, hway⟩ := exists_split_of_nearestReceiver? hr
  have hat : thisTypeAt i ls f none r = none := by
    simp only [extensionKinds, List.mem_cons, List.not_mem_nil, or_false] at hextension
    simp [thisTypeAt, hextension, hk]
  rw [thisAround_eq hway hsplit, hat, Option.none_or, thisAround]

/-- Where nothing adds receivers, `this` has no type. -/
theorem thisAround_eq_none (h : nearestReceiver? f n = none) : thisAround i ls f n = none := by
  have hall : n.ancestors.findSome? (thisTypeAt i ls f none) = none :=
    List.findSome?_eq_none_iff.2 fun a ha =>
      thisTypeAt_eq_none (by simpa using List.find?_eq_none.1 h a ha)
  rw [thisAround, hall]
  rfl

/-- `this` without a label has the type that is found around it. -/
theorem typeOfExpr_this (hk : n.kind = "this_expression") (htext : f.textOf n = "this") :
    typeOfExpr i ls f n = thisAround i ls f n := by
  have hlabel : thisLabel? "this" = none := by decide
  simp only [typeOfExpr, hk, thisType, htext, hlabel, thisAround]

end This

end Resolve

namespace Answers

open Resolve Node

/-- A member of `this` is one of the type that `this` has where the call stands. -/
theorem call_this {i : Index} {f : SourceFile} {name : String} {arguments : Nat} {m r access : Node}
    (hm : MemberCall f "this" name arguments m access) (hr : nearestReceiver? f m = some r) :
    ∃ receiver, nearestReceiver? f receiver = some r ∧
      (ofIndex i f).call m = .ok (calleeOf i (accessOfType i (levels i (maxDepth - 1)) f "this" name
        access (thisAround i (levels i (maxDepth - 2)) f receiver)) arguments) := by
  obtain ⟨receiver, hkind, htext, hnear, hcall⟩ := call_of_memberCall (i := i) hm
  exact ⟨receiver, hnear.trans hr, by rw [hcall, typeOfExpr_this hkind htext]⟩

/-- **Members by name and members of `this`.**  Take two calls `m(..)` and `this.m(..)` with as many
arguments and the same nearest class or object literal around them, which offers the name; the name
is not bound locally.  The first call is one of what is offered.  In a class, so is the second.  In
an object literal the second is one of a member of the type that `this` has around the literal: of
the class around it if that offers the name; and where no class and no extension is around the
literal, `this.m` can only be a qualified name. -/
theorem call_this_alike {i : Index} {f : SourceFile} {name : String} (hne : name ≠ "")
    {arguments : Nat} {n m r access : Node} (hn : NameCall f name arguments n)
    (hm : MemberCall f "this" name arguments m access) (hnr : nearestReceiver? f n = some r)
    (hmr : nearestReceiver? f m = some r) (hextension : r.kind ∉ extensionKinds)
    (hoffered : offered i (levels i (maxDepth - 1)) f r name ≠ []) :
    (ofIndex i f).call n =
      .ok (calleeOf i ⟨offered i (levels i (maxDepth - 1)) f r name, false⟩ arguments) ∧
    (r.kind ∈ Kotlin.classKinds → (ofIndex i f).call m = (ofIndex i f).call n) ∧
    (r.kind ∉ Kotlin.classKinds →
      (ofIndex i f).call m = .ok (calleeOf i (accessOfType i (levels i (maxDepth - 1)) f "this" name
        access (thisAround i (levels i (maxDepth - 2)) f r)) arguments) ∧
      (∀ outer c, nearestReceiver? f r = some outer → outer.kind ∈ Kotlin.classKinds →
        i.classifierAt? (f.keyOf outer) = some c →
        membersNamed i (levels i (maxDepth - 1)) c name .callable ≠ [] →
        (ofIndex i f).call m = .ok (calleeOf i
          ⟨membersNamed i (levels i (maxDepth - 1)) c name .callable, false⟩ arguments)) ∧
      (nearestReceiver? f r = none →
        (ofIndex i f).call m = .ok (calleeOf i
          ⟨qualified i (Text.withoutBlanks ("this." ++ name)) .callable, false⟩ arguments))) := by
  have hbare := call_of_nameCall hne hn hnr hoffered
  obtain ⟨receiver, hnear, hthis⟩ := call_this (i := i) hm hmr
  refine ⟨hbare, fun hk => ?_, fun hk => ?_⟩
  · have hclass : r.kind ∈ receiverClassKinds := mem_receiverClassKinds hk
    cases hc : i.classifierAt? (f.keyOf r) with
    | none =>
        -- a class that is not indexed offers nothing
        rw [offered, receiversAt_of_class hclass, hc] at hoffered
        exact absurd rfl hoffered
    | some c =>
        rw [offered_of_class hclass hc] at hoffered hbare
        rw [hthis, thisAround_eq_of_class hnear hk, hc, hbare]
        exact congrArg (fun a => Except.ok (calleeOf i a arguments))
          (accessOfType_of_members hoffered)
  · rw [thisAround_eq_around hnear hk hextension] at hthis
    refine ⟨hthis, fun outer c houter houterk hc hmembers => ?_, fun hnone => ?_⟩
    · rw [hthis, thisAround_eq_of_class houter houterk, hc]
      exact congrArg (fun a => Except.ok (calleeOf i a arguments))
        (accessOfType_of_members hmembers)
    · rw [hthis, thisAround_eq_none hnone]
      rfl

end Answers

/-! ### A class and an object literal -/

namespace ThisCalls
open Node Resolve TwoCalls

/-- A class and a literal of it:
```
open class A {
    fun m() {}
    fun g() { m(); this.m() }
}
fun f() = object : A() {
    fun h() { m(); this.m() }
}
``` -/
def text : String :=
  "open class A \x7b\n    fun m() \x7b\x7d\n    fun g() \x7b m(); this.m() \x7d\n\x7d\n" ++
    "fun f() = object : A() \x7b\n    fun h() \x7b m(); this.m() \x7d\n\x7d\n"

def literalTree : Tree :=
  .named "object_literal" 72 118
    [.token "object" 72 78, .token ":" 79 80,
     .named "delegation_specifier" 81 84
      [.named "constructor_invocation" 81 84
        [.named "user_type" 81 82 [.named "type_identifier" 81 82 []],
         .named "value_arguments" 82 84 [.token "(" 82 83, .token ")" 83 84]]],
     .named "class_body" 85 118
      [.token "\x7b" 85 86, functionTree 91 116 [blockTree "this" 101],
       .token "\x7d" 117 118]]

def tree : Tree :=
  .named "source_file" 0 119
    [.named "class_declaration" 0 61
      [.named "modifiers" 0 4 [.named "inheritance_modifier" 0 4 [.token "open" 0 4]],
       .token "class" 5 10, .named "type_identifier" 11 12 [],
       .named "class_body" 13 61
        [.token "\x7b" 13 14, functionTree 19 29 [], functionTree 34 59 [blockTree "this" 44],
         .token "\x7d" 60 61]],
     .named "function_declaration" 62 118
      [.token "fun" 62 65, .named "simple_identifier" 66 67 [],
       .named "function_value_parameters" 67 69 [.token "(" 67 68, .token ")" 68 69],
       .named "function_body" 70 118 [.token "=" 70 71, literalTree]]]

def given : ParsedText := ⟨⟨"/p/a.kt"⟩, text, tree⟩

def file : SourceFile := Project.sourceFile ⟨"/p"⟩ {} 0 .kotlin given

/-- A project with the one file. -/
def index : Index := Project.indexOf ⟨"/p"⟩ {} [given]

/-- The class. -/
def cls : Node := around file 0

/-- The literal. -/
def literal : Node := around file 1

/-- The symbol of the class. -/
def classSymbol : Symbol := classifierAt index ⟨0, 0, 61⟩

/-- The symbol of its member. -/
def member : Symbol := (index.symbols.find? (·.kind = .function)).get (by decide +kernel)

theorem placed : (∀ j ∈ [0, 1], (block file j).kind = "statements" ∧
      (nearestReceiver? file (block file j)).isSome = true ∧
      ∀ k ∈ [0, 1], k < (block file j).children.length) ∧
    cls.kind = "class_declaration" ∧ file.keyOf cls = ⟨0, 0, 61⟩ ∧
    literal.kind = "object_literal" ∧ nearestReceiver? file literal = none := by
  decide +kernel

/-- What is written: the calls, and the one supertype of the literal. -/
theorem written : (∀ j ∈ [0, 1], NameCall file "m" 0 (callIn (block file j) 0) ∧
      ∃ access, MemberCall file "this" "m" 0 (callIn (block file j) 1) access) ∧
    ((Kotlin.delegationSpecifiers literal).filterMap Kotlin.specifierType?).map file.textOf =
      ["A"] := by
  decide +kernel

/-- What the look-ups in the index give: no text is qualified by `this`. -/
theorem lookedUp : ((index.symbols.filter (·.declaration == ⟨0, 0, 61⟩)).find?
      (·.kind.isClassifier)).isSome = true ∧
    classSymbol.kind = .plainClass ∧ member.kind = .function ∧ member.isExtension = false ∧
    directMembersNamed index classSymbol "m" .callable = [member] ∧
    (inFile index file "A" .type).head? = some classSymbol ∧
    qualified index (Text.withoutBlanks ("this." ++ "m")) .callable = [] := by
  simp only [index, Project.indexOf, Index.ofFiles, directMembersNamed, inFile, qualified,
    Index.membersOf_ofParts, Index.topLevelIn_ofParts, Index.findByQualifiedName_ofParts]
  decide +kernel

theorem nearest {j k : Nat} (hj : j ∈ [0, 1]) (hk : k ∈ [0, 1]) :
    nearestReceiver? file (callIn (block file j) k) = some (around file j) := by
  obtain ⟨hkind, hsome, hcalls⟩ := placed.1 j hj
  exact nearestReceiver?_callIn hkind (hcalls k hk) hsome

theorem classifierAt?_cls : index.classifierAt? (file.keyOf cls) = some classSymbol := by
  obtain ⟨-, -, hkey, -⟩ := placed
  rw [hkey]
  exact classifierAt?_eq lookedUp.1

theorem membersNamed_classSymbol (height : Nat) :
    membersNamed index (levels index (height + 1)) classSymbol "m" .callable = [member] := by
  obtain ⟨-, hkind, -, -, hdirect, -⟩ := lookedUp
  rw [membersNamed_of_direct (by simp [hkind]) (by simp [hdirect]), hdirect]

theorem offered_cls : offered index (levels index (maxDepth - 1)) file cls "m" = [member] := by
  rw [offered_of_class (by simp [placed, receiverClassKinds]) classifierAt?_cls]
  exact membersNamed_classSymbol 14

/-- The class is the literal's only supertype. -/
theorem receiversAt_literal (height : Nat) :
    receiversAt index (levels index (height + 2)) file literal = [classSymbol] := by
  obtain ⟨-, -, -, hliteral, houtside⟩ := placed
  obtain ⟨-, hkind, -, -, -, hfound, -⟩ := lookedUp
  rw [receiversAt_of_literal hliteral, written.2]
  refine classifiersOfTexts_of_inFile houtside (by decide) ?_ (by simp [hkind]) height
  rw [List.map_cons, hfound]
  rfl

/-- The literal offers what its supertype does. -/
theorem offered_literal (height : Nat) :
    offered index (levels index (height + 2)) file literal "m" = [member] := by
  rw [offered, receiversAt_literal, List.map_cons,
    firstFound_cons_of_ne_nil (by rw [membersNamed_classSymbol]; simp), membersNamed_classSymbol]

theorem calleeOf_member : calleeOf index ⟨[member], false⟩ 0 = some ⟨member, false⟩ := by
  obtain ⟨-, -, hkind, hplain, -⟩ := lookedUp
  rw [calleeOf_singleton (by rw [hkind]; rfl), hplain]
  rfl

end ThisCalls

namespace Answers
open Resolve TwoCalls ThisCalls

/-- In the class both calls are of its member. -/
theorem call_this_alike_inClass :
    NameCall file "m" 0 (callIn (block file 0) 0) ∧
    (∃ access, MemberCall file "this" "m" 0 (callIn (block file 0) 1) access) ∧
    nearestReceiver? file (callIn (block file 0) 0) = some cls ∧
    nearestReceiver? file (callIn (block file 0) 1) = some cls ∧ cls.kind ∈ Kotlin.classKinds ∧
    offered index (levels index (maxDepth - 1)) file cls "m" = [member] ∧
    (ofIndex index file).call (callIn (block file 0) 0) = .ok (some ⟨member, false⟩) ∧
    (ofIndex index file).call (callIn (block file 0) 1) = .ok (some ⟨member, false⟩) := by
  obtain ⟨hname, access, hthis⟩ := written.1 0 (by simp)
  obtain ⟨-, hkind, -⟩ := placed
  have hbare : nearestReceiver? file (callIn (block file 0) 0) = some cls :=
    nearest (by simp) (by simp)
  have hmember : nearestReceiver? file (callIn (block file 0) 1) = some cls :=
    nearest (by simp) (by simp)
  have hclass : cls.kind ∈ Kotlin.classKinds := by simp [hkind, Kotlin.classKinds]
  obtain ⟨hn, hm, -⟩ := call_this_alike (i := index) (by decide) hname hthis hbare hmember
    (by simp [hkind, extensionKinds]) (by rw [offered_cls]; simp)
  rw [offered_cls, calleeOf_member] at hn
  exact ⟨hname, ⟨access, hthis⟩, hbare, hmember, hclass, offered_cls, hn, (hm hclass).trans hn⟩

/-- In the literal a call by name is one of the member that the literal inherits, and one of a
member of `this` is answered with nothing. -/
theorem call_this_apart_inLiteral :
    NameCall file "m" 0 (callIn (block file 1) 0) ∧
    (∃ access, MemberCall file "this" "m" 0 (callIn (block file 1) 1) access) ∧
    nearestReceiver? file (callIn (block file 1) 0) = some literal ∧
    nearestReceiver? file (callIn (block file 1) 1) = some literal ∧
    literal.kind = "object_literal" ∧
    offered index (levels index (maxDepth - 1)) file literal "m" = [member] ∧
    (ofIndex index file).call (callIn (block file 1) 0) = .ok (some ⟨member, false⟩) ∧
    (ofIndex index file).call (callIn (block file 1) 1) = .ok none := by
  obtain ⟨hname, access, hthis⟩ := written.1 1 (by simp)
  obtain ⟨-, -, -, hliteral, houtside⟩ := placed
  obtain ⟨-, -, -, -, -, -, hqualified⟩ := lookedUp
  have hbare : nearestReceiver? file (callIn (block file 1) 0) = some literal :=
    nearest (by simp) (by simp)
  have hmember : nearestReceiver? file (callIn (block file 1) 1) = some literal :=
    nearest (by simp) (by simp)
  have hoffered : offered index (levels index (maxDepth - 1)) file literal "m" = [member] :=
    offered_literal 13
  refine ⟨hname, ⟨access, hthis⟩, hbare, hmember, hliteral, hoffered, ?_, ?_⟩
  · rw [call_of_nameCall (by decide) hname hbare (by rw [hoffered]; simp), hoffered,
      calleeOf_member]
  · obtain ⟨receiver, hnear, hcall⟩ := call_this (i := index) hthis hmember
    rw [hcall, thisAround_eq_around hnear (by simp [hliteral, Kotlin.classKinds])
      (by simp [hliteral, extensionKinds]), thisAround_eq_none houtside]
    exact congrArg (fun found => Except.ok (calleeOf index ⟨found, false⟩ 0)) hqualified

end Answers

end Crossref
