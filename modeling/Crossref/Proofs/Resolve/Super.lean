import Crossref.Proofs.Resolve.Inheritance
import Crossref.Proofs.Resolve.Receivers

/-!
# Proofs — resolution — members of `super`

A call `m(..)` in a class that does not declare `m` is looked for in all its supertypes, and in
theirs.  A call `super.m(..)` is looked for in one type only, the first supertype that can be
resolved.

* `typeOfExpr_super`: the type of `super` is the first supertype.
* `Answers.call_super_first`: what the two calls are, and when they are one.
-/

namespace Crossref

namespace Resolve

/-- In a class, `super` has the first supertype as its type. -/
theorem typeOfExpr_super {i : Index} {ls : Levels} {f : SourceFile} {n r : Node} {c : Symbol}
    (hk : n.kind = "super_expression") (hr : nearestReceiver? f n = some r)
    (hclass : r.kind ∈ receiverClassKinds) (hc : i.classifierAt? (f.keyOf r) = some c) :
    typeOfExpr i ls f n = (supertypesOf i ls c).head?.map .ofClassifier := by
  have hhead : (enclosingReceivers i ls.below f n).head? = some c := by
    rw [enclosingReceivers_eq_append hr, receiversAt_of_class hclass, hc]
    rfl
  simp only [typeOfExpr, hk, hhead, Option.bind_some]

/-- The supertypes that a class writes with simple names of types at the top of the file. -/
theorem supertypesOf_of_inFile {i : Index} {f : SourceFile} {anchor : Node} {c : Symbol}
    {supertypes : List Symbol} (hanchor : i.anchor? c = some (f, anchor))
    (hnear : nearestReceiver? f anchor = none)
    (hnames : ∀ text ∈ c.superTypes, Text.withoutBlanks (Kotlin.simpleTypeName text) = text ∧
      text ≠ "" ∧ text.toList.contains '.' = false)
    (hfound : c.superTypes.map (fun text => (inFile i f text .type).head?) = supertypes.map some)
    (hk : ∀ s ∈ supertypes, s.kind ≠ .typeAlias) (height : Nat) :
    supertypesOf i (levels i (height + 2)) c = supertypes := by
  rw [← classifiersOfTexts_of_inFile hnear hnames hfound hk height, supertypesOf, hanchor]
  simp only [top_levels_succ, levelOver]

/-- What is called among the inherited members is called among those of the first supertype, if
that declares a function that takes the arguments. -/
theorem calleeOf_inherited_eq {i : Index} {name : String} {arguments height : Nat} {c s : Symbol}
    {others : List Symbol} (hk : c.kind ≠ .typeAlias)
    (hdirect : directMembersNamed i c name .callable = [])
    (hsupertypes : supertypesOf i (levels i (height + 1)) c = s :: others)
    (hfits : ∃ d ∈ directMembersNamed i s name .callable, d.kind.isCallable = true ∧
      d.parameterCount = some arguments) :
    membersNamed i (levels i (height + 2)) s name .callable ≠ [] ∧
      calleeOf i ⟨membersNamed i (levels i (height + 2)) c name .callable, false⟩ arguments =
        calleeOf i ⟨membersNamed i (levels i (height + 2)) s name .callable, false⟩ arguments := by
  obtain ⟨d, hd, hcallable, hcount⟩ := hfits
  have hdeclared : directMembersNamed i s name .callable ≠ [] := List.ne_nil_of_mem hd
  have hs : membersNamed i (levels i (height + 2)) s name .callable =
      directMembersNamed i s name .callable :=
    membersNamed_of_direct (kind_ne_of_mem_supertypesOf (by rw [hsupertypes]; simp)) hdeclared
  obtain ⟨more, hmore⟩ := exists_membersNamed_eq_append hk hdirect hsupertypes hdeclared
  refine ⟨by rwa [hs], ?_⟩
  rw [hmore, calleeOf_append ⟨d, by rwa [hs], hcallable, hcount⟩]

/-- Where nothing with the name has a receiver, there is no extension with it. -/
theorem visibleExtensions_eq_nil {i : Index} {ls : Levels} {f : SourceFile} {n : Node}
    {name : String} {want : Want} {t : ExprType}
    (hlookup : ∀ s ∈ ls.top.lookup f name n want, s.receiverType = none)
    (hnamed : ∀ s ∈ i.findByName name, s.receiverType = none) :
    visibleExtensions i ls f n name want t = [] := by
  have hnone (names : List String) {s : Symbol} (h : s.receiverType = none) :
      extendsOneOf names s = false := by
    rw [extendsOneOf, h]
  refine (firstFound_eq_nil_iff _).2 fun answer hanswer => ?_
  simp only [List.mem_cons, List.not_mem_nil, or_false] at hanswer
  rcases hanswer with rfl | rfl
  · exact List.filter_eq_nil_iff.2 fun s hs => by simp [hnone _ (hlookup s hs)]
  · have hno : (i.findByName name).filter (fun s => s.parent.isNone && want.accepts s &&
        extendsOneOf (receiverNames i ls t) s) = [] :=
      List.filter_eq_nil_iff.2 fun s hs => by simp [hnone _ (hnamed s hs)]
    simp only [hno]
    rfl

/-- With neither members nor extensions the access can only be the end of a qualified name. -/
theorem accessOfType_of_nothing {i : Index} {ls : Levels} {f : SourceFile} {word name : String}
    {access : Node} {c : Symbol} (hmembers : membersNamed i ls c name .callable = [])
    (hextensions : visibleExtensions i ls.below f access name .callable (.ofClassifier c) = []) :
    accessOfType i ls f word name access (some (.ofClassifier c)) =
      ⟨qualified i (Text.withoutBlanks (word ++ "." ++ name)) .callable, false⟩ := by
  have hnone : ∀ d ∈ (ExprType.ofClassifier c).classifier,
      membersNamed i ls d name .callable = [] := by
    rintro d ⟨rfl⟩
    exact hmembers
  rw [accessOfType_of_no_members hnone, if_pos hextensions]

end Resolve

namespace Answers

open Resolve

variable {i : Index} {f : SourceFile} {name : String} {arguments : Nat} {n m r access : Node}
  {c : Symbol}

/-- A member of `super` is one of the first supertype. -/
theorem call_super (hm : MemberCall f "super" name arguments m access)
    (hr : nearestReceiver? f m = some r) (hclass : r.kind ∈ receiverClassKinds)
    (hc : i.classifierAt? (f.keyOf r) = some c) :
    (ofIndex i f).call m = .ok (calleeOf i
      (accessOfType i (levels i (maxDepth - 1)) f "super" name access
        ((supertypesOf i (levels i (maxDepth - 2)) c).head?.map .ofClassifier)) arguments) := by
  obtain ⟨receiver, hkind, -, hnear, hcall⟩ := call_of_memberCall (i := i) hm
  rw [hcall, typeOfExpr_super hkind (hnear.trans hr) hclass hc]

/-- **Members of `super`.**  Take two calls `m(..)` and `super.m(..)` with as many arguments whose
nearest receiver is one class, which does not declare the name but inherits it; the name is not
bound locally.  The first call is one of what the class inherits, from any of its supertypes.  The
second is one of what the first supertype offers, if that offers the name at all: where it does not,
the other supertypes are not looked at.  The calls are one call if the first supertype declares a
function that takes the arguments, and if the class has one supertype only and the levels reach all
that is above it. -/
theorem call_super_first (hne : name ≠ "") (hn : NameCall f name arguments n)
    (hm : MemberCall f "super" name arguments m access) (hnr : nearestReceiver? f n = some r)
    (hmr : nearestReceiver? f m = some r) (hclass : r.kind ∈ receiverClassKinds)
    (hc : i.classifierAt? (f.keyOf r) = some c) (hk : c.kind ≠ .typeAlias)
    (hdirect : directMembersNamed i c name .callable = [])
    (hinherited : membersNamed i (levels i (maxDepth - 1)) c name .callable ≠ []) :
    ∃ s others, supertypesOf i (levels i (maxDepth - 2)) c = s :: others ∧
      membersNamed i (levels i (maxDepth - 1)) c name .callable =
        membersFrom i name .callable (levels i (maxDepth - 2)) [c.handle] (s :: others) ∧
      (ofIndex i f).call n = .ok (calleeOf i
        ⟨membersNamed i (levels i (maxDepth - 1)) c name .callable, false⟩ arguments) ∧
      (ofIndex i f).call m = .ok (calleeOf i (accessOfType i (levels i (maxDepth - 1)) f "super"
        name access (some (.ofClassifier s))) arguments) ∧
      (membersNamed i (levels i (maxDepth - 1)) s name .callable ≠ [] →
        (ofIndex i f).call m = .ok (calleeOf i
          ⟨membersNamed i (levels i (maxDepth - 1)) s name .callable, false⟩ arguments)) ∧
      ((∃ d ∈ directMembersNamed i s name .callable, d.kind.isCallable = true ∧
          d.parameterCount = some arguments) →
        (ofIndex i f).call m = (ofIndex i f).call n) ∧
      (others = [] → Steady i c.handle (maxDepth - 2) s →
        (ofIndex i f).call m = (ofIndex i f).call n) := by
  have hmembers : membersNamed i (levels i (maxDepth - 1)) c name .callable =
      membersFrom i name .callable (levels i (maxDepth - 2)) [c.handle]
        (supertypesOf i (levels i (maxDepth - 2)) c) :=
    membersNamed_of_inherited hk hdirect
  have hoffered : offered i (levels i (maxDepth - 1)) f r name =
      membersNamed i (levels i (maxDepth - 1)) c name .callable :=
    offered_of_class hclass hc name
  have hbare := call_of_nameCall hne hn hnr (by rw [hoffered]; exact hinherited)
  have hsuper := call_super (i := i) hm hmr hclass hc
  rw [hoffered] at hbare
  cases hsupertypes : supertypesOf i (levels i (maxDepth - 2)) c with
  | nil =>
      -- a class without supertypes inherits nothing
      rw [hsupertypes] at hmembers
      exact absurd hmembers hinherited
  | cons s others =>
      rw [hsupertypes] at hmembers hsuper
      have hfirst (h : membersNamed i (levels i (maxDepth - 1)) s name .callable ≠ []) :
          (ofIndex i f).call m = .ok (calleeOf i
            ⟨membersNamed i (levels i (maxDepth - 1)) s name .callable, false⟩ arguments) := by
        rw [hsuper, ← accessOfType_of_members h]
        rfl
      refine ⟨s, others, rfl, hmembers, hbare, hsuper, hfirst, fun hfits => ?_,
        fun hone hsteady => ?_⟩
      · have hcallee : membersNamed i (levels i (maxDepth - 1)) s name .callable ≠ [] ∧
            calleeOf i ⟨membersNamed i (levels i (maxDepth - 1)) c name .callable, false⟩
                arguments =
              calleeOf i ⟨membersNamed i (levels i (maxDepth - 1)) s name .callable, false⟩
                arguments :=
          calleeOf_inherited_eq hk hdirect hsupertypes hfits
        rw [hfirst hcallee.1, hbare, hcallee.2]
      · subst hone
        have halike : membersNamed i (levels i (maxDepth - 1)) s name .callable =
            membersNamed i (levels i (maxDepth - 1)) c name .callable :=
          membersNamed_eq_of_steady hk hdirect hsupertypes hsteady hinherited
        rw [hfirst (by rwa [halike]), hbare, halike]

end Answers

/-! ### One supertype and two -/

namespace SuperCalls
open Node Resolve TwoCalls

/-- A class with one supertype and a class with two:
```
interface A {}
interface B {
    fun m() {}
}
class C : B {
    fun g() { m(); super.m() }
}
class D : A, B {
    fun g() { m(); super.m() }
}
``` -/
def text : String :=
  "interface A \x7b\x7d\ninterface B \x7b\n    fun m() \x7b\x7d\n\x7d\n" ++
    "class C : B \x7b\n    fun g() \x7b m(); super.m() \x7d\n\x7d\n" ++
    "class D : A, B \x7b\n    fun g() \x7b m(); super.m() \x7d\n\x7d\n"

/-- A class with a name of one letter and supertypes with such names, each behind its sign. -/
def classTree (word : String) (start body stop : Nat) (supertypes : List (String × Nat))
    (inner : List Tree) : Tree :=
  let named := start + word.length + 1
  let specifier : String × Nat → List Tree := fun (sign, spot) =>
    [.token sign (spot - 2) (spot - 1),
     .named "delegation_specifier" spot (spot + 1)
      [.named "user_type" spot (spot + 1) [.named "type_identifier" spot (spot + 1) []]]]
  .named "class_declaration" start stop
    ([.token word start (start + word.length), .named "type_identifier" named (named + 1) []] ++
      supertypes.flatMap specifier ++
      [.named "class_body" body stop
        (.token "\x7b" body (body + 1) :: inner ++ [.token "\x7d" (stop - 1) stop])])

def tree : Tree :=
  .named "source_file" 0 143
    [classTree "interface" 0 12 14 [] [],
     classTree "interface" 15 27 45 [] [functionTree 33 43 []],
     classTree "class" 46 58 92 [(":", 56)] [functionTree 64 90 [blockTree "super" 74]],
     classTree "class" 93 108 142 [(":", 103), (",", 106)]
      [functionTree 114 140 [blockTree "super" 124]]]

def given : ParsedText := ⟨⟨"/p/a.kt"⟩, text, tree⟩

def file : SourceFile := Project.sourceFile ⟨"/p"⟩ {} 0 .kotlin given

/-- A project with the one file. -/
def index : Index := Project.indexOf ⟨"/p"⟩ {} [given]

/-- Where the types are declared. -/
def key : String → DeclKey
  | "A" => ⟨0, 0, 14⟩
  | "B" => ⟨0, 15, 45⟩
  | "C" => ⟨0, 46, 92⟩
  | _ => ⟨0, 93, 142⟩

/-- The symbol of the type. -/
def symbol (name : String) : Symbol := classifierAt index (key name)

/-- The symbol of the member. -/
def member : Symbol := (index.symbols.find? (·.kind = .function)).get (by decide +kernel)

/-- Types with the supertypes that they write. -/
def hierarchy : List (String × List String) := [("A", []), ("C", ["B"]), ("D", ["A", "B"])]

/-- The class around each block. -/
def classAround : List (Nat × String) := [(0, "C"), (1, "D")]

theorem placed : ∀ j ∈ classAround, (block file j.1).kind = "statements" ∧
    (nearestReceiver? file (block file j.1)).isSome = true ∧
    (∀ k ∈ [0, 1], k < (block file j.1).children.length) ∧
    (around file j.1).kind ∈ receiverClassKinds ∧ file.keyOf (around file j.1) = key j.2 := by
  decide +kernel

theorem written : ∀ j ∈ classAround, NameCall file "m" 0 (callIn (block file j.1) 0) ∧
    (∃ access, MemberCall file "super" "m" 0 (callIn (block file j.1) 1) access) ∧
    ∀ access ∈ (callIn (block file j.1) 1).namedChild? 0, localBindings file "m" access = [] := by
  decide +kernel

theorem known : (∀ name ∈ ["A", "B", "C", "D"], ((index.symbols.filter
      (·.declaration == key name)).find? (·.kind.isClassifier)).isSome = true ∧
      (symbol name).kind ≠ .typeAlias) ∧
    (∀ c ∈ hierarchy, ((c.1 :: c.2).map fun name => (symbol name).handle).Nodup) ∧
    member.kind = .function ∧ member.isExtension = false ∧ member.receiverType = none ∧
    member.parameterCount = some 0 := by
  decide +kernel

/-- What the look-ups of the member give: no text is qualified by `super`, and nothing with the name
is an extension. -/
theorem lookedUp : (∀ name ∈ ["A", "C", "D"],
      directMembersNamed index (symbol name) "m" .callable = []) ∧
    directMembersNamed index (symbol "B") "m" .callable = [member] ∧
    qualified index (Text.withoutBlanks ("super" ++ "." ++ "m")) .callable = [] ∧
    ∀ s ∈ index.findByName "m", s.receiverType = none := by
  simp only [index, Project.indexOf, Index.ofFiles, directMembersNamed, qualified,
    Index.membersOf_ofParts, Index.findByQualifiedName_ofParts, Index.findByName_ofParts]
  decide +kernel

/-- The supertypes name types at the top of the file. -/
theorem inherits : ∀ c ∈ hierarchy, (symbol c.1).superTypes = c.2 ∧
    (∀ text ∈ c.2, Text.withoutBlanks (Kotlin.simpleTypeName text) = text ∧ text ≠ "" ∧
      text.toList.contains '.' = false) ∧
    (index.anchor? (symbol c.1)).isSome = true ∧
    ∀ p ∈ index.anchor? (symbol c.1), nearestReceiver? p.1 p.2 = none ∧
      c.2.map (fun text => (inFile index p.1 text .type).head?) =
        c.2.map fun text => some (symbol text) := by
  simp only [index, Project.indexOf, Index.ofFiles, inFile, Index.topLevelIn_ofParts]
  decide +kernel

theorem nearest {j : Nat} {name : String} (hj : (j, name) ∈ classAround) {k : Nat}
    (hk : k ∈ [0, 1]) : nearestReceiver? file (callIn (block file j) k) = some (around file j) := by
  obtain ⟨hkind, hsome, hcalls, -⟩ := placed _ hj
  exact nearestReceiver?_callIn hkind (hcalls k hk) hsome

theorem classifierAt?_around {j : Nat} {name : String} (hj : (j, name) ∈ classAround) :
    index.classifierAt? (file.keyOf (around file j)) = some (symbol name) := by
  obtain ⟨-, -, -, -, hkey⟩ := placed _ hj
  have hname : ∀ j ∈ classAround, j.2 ∈ ["A", "B", "C", "D"] := by decide
  rw [hkey]
  exact classifierAt?_eq (known.1 name (hname _ hj)).1

theorem mem_names : ∀ c ∈ hierarchy, ∀ name ∈ c.1 :: c.2, name ∈ ["A", "B", "C", "D"] := by
  decide

theorem supertypesOf_symbol {name : String} {texts : List String}
    (hc : (name, texts) ∈ hierarchy) (height : Nat) :
    supertypesOf index (levels index (height + 2)) (symbol name) = texts.map symbol := by
  obtain ⟨htexts, hnames, hsome, hanchored⟩ := inherits _ hc
  obtain ⟨⟨f, anchor⟩, hanchor⟩ := Option.isSome_iff_exists.1 hsome
  obtain ⟨hnear, hfound⟩ := hanchored _ hanchor
  refine supertypesOf_of_inFile hanchor hnear (by rwa [htexts]) ?_ (fun s hs => ?_) height
  · rw [htexts, hfound, List.map_map]
    rfl
  · obtain ⟨text, htext, rfl⟩ := List.mem_map.1 hs
    exact (known.1 text (mem_names _ hc text (List.mem_cons_of_mem _ htext))).2

/-- The interface without supertypes offers nothing. -/
theorem membersNamed_bare (height : Nat) :
    membersNamed index (levels index (height + 3)) (symbol "A") "m" .callable = [] := by
  rw [membersNamed_of_inherited (known.1 "A" (by simp)).2 (lookedUp.1 "A" (by simp)),
    supertypesOf_symbol (show ("A", []) ∈ hierarchy by decide)]
  rfl

/-- Both classes inherit the member. -/
theorem membersNamed_inherited {name : String} {texts : List String}
    (hc : (name, texts) ∈ hierarchy.tail) (height : Nat) :
    membersNamed index (levels index (height + 3)) (symbol name) "m" .callable = [member] := by
  have hmem := List.mem_of_mem_tail hc
  have hdirect : ∀ c ∈ hierarchy.tail,
      directMembersNamed index (symbol c.1) "m" .callable = [] ∧
      (c.2.map symbol).flatMap (directMembersNamed index · "m" .callable) = [member] := by
    simp [hierarchy, lookedUp]
  have hkinds : ∀ n ∈ name :: texts, (symbol n).kind ≠ .typeAlias :=
    fun n hn => (known.1 n (mem_names _ hmem n hn)).2
  obtain ⟨hnew, hnodup⟩ := List.nodup_cons.1 (known.2.1 _ hmem)
  have hround : (roundOf index (levels index (height + 1)) "m" .callable [(symbol name).handle]
      (texts.map symbol)).found = [member] := by
    rw [roundOf, found_foldl_eq_flatMap, List.nil_append, (hdirect _ hc).2]
    · intro s hs
      obtain ⟨n, hn, rfl⟩ := List.mem_map.1 hs
      exact hkinds n (List.mem_cons_of_mem _ hn)
    · intro s hs hseen
      obtain ⟨n, hn, rfl⟩ := List.mem_map.1 hs
      exact hnew (List.mem_map.2 ⟨n, hn, List.mem_singleton.1 hseen⟩)
    · rw [List.map_map]
      exact hnodup
  rw [membersNamed_of_inherited (hkinds name (by simp)) (hdirect _ hc).1, supertypesOf_symbol hmem,
    membersFrom_of_found (by simp [hround]), hround]

theorem calleeOf_member : calleeOf index ⟨[member], false⟩ 0 = some ⟨member, false⟩ := by
  obtain ⟨-, -, hkind, hplain, -⟩ := known
  rw [calleeOf_singleton (by rw [hkind]; rfl), hplain]
  rfl

/-- What is called behind `super` in the second class would be looked up as the member is. -/
theorem lookupName_access {access : Node}
    (h : MemberCall file "super" "m" 0 (callIn (block file 1) 1) access) (height : Nat) :
    lookupName index (levels index (height + 3)) file "m" access .callable = [member] := by
  have hj : (1, "D") ∈ classAround := by decide
  obtain ⟨-, -, -, hclass, -⟩ := placed _ hj
  have hoffered : offered index (levels index (height + 3)) file (around file 1) "m" =
      [member] := by
    rw [offered_of_class hclass (classifierAt?_around hj)]
    exact membersNamed_inherited (show ("D", ["A", "B"]) ∈ hierarchy.tail by decide) height
  have hmem : access ∈ (callIn (block file 1) 1).children :=
    (mem_namedChildren_iff.1 (List.mem_of_getElem? h.callee)).1
  have hnear : nearestReceiver? file access = some (around file 1) := by
    rw [nearestReceiver?_of_mem_children hmem (by simp [addsReceiver, h.kind, receiverClassKinds])]
    exact nearest hj (by simp)
  rw [lookupName_eq_offered (by decide) ((written _ hj).2.2 access h.callee) hnear
    (by rw [hoffered]; simp), hoffered]

end SuperCalls

namespace Answers
open Resolve TwoCalls SuperCalls

/-- With one supertype both calls are of the member that is inherited. -/
theorem call_super_first_only :
    NameCall file "m" 0 (callIn (block file 0) 0) ∧
    (∃ access, MemberCall file "super" "m" 0 (callIn (block file 0) 1) access) ∧
    index.classifierAt? (file.keyOf (around file 0)) = some (symbol "C") ∧
    supertypesOf index (levels index (maxDepth - 2)) (symbol "C") = [symbol "B"] ∧
    membersNamed index (levels index (maxDepth - 1)) (symbol "C") "m" .callable = [member] ∧
    (ofIndex index file).call (callIn (block file 0) 0) = .ok (some ⟨member, false⟩) ∧
    (ofIndex index file).call (callIn (block file 0) 1) = .ok (some ⟨member, false⟩) := by
  have hj : (0, "C") ∈ classAround := by decide
  have hmem : ("C", ["B"]) ∈ hierarchy.tail := by decide
  obtain ⟨-, -, -, hclass, -⟩ := placed _ hj
  obtain ⟨hname, ⟨access, hsuper⟩, -⟩ := written _ hj
  have hsupertypes : supertypesOf index (levels index (maxDepth - 2)) (symbol "C") = [symbol "B"] :=
    supertypesOf_symbol (List.mem_of_mem_tail hmem) 12
  have hinherited : membersNamed index (levels index (maxDepth - 1)) (symbol "C") "m" .callable =
      [member] :=
    membersNamed_inherited hmem 12
  obtain ⟨s, others, hs, -, hn, -, -, halike, -⟩ := call_super_first (i := index) (by decide) hname
    hsuper (nearest hj (by simp)) (nearest hj (by simp)) hclass (classifierAt?_around hj)
    (known.1 "C" (by simp)).2 (lookedUp.1 "C" (by simp)) (by rw [hinherited]; simp)
  rw [hinherited, calleeOf_member] at hn
  rw [hsupertypes] at hs
  obtain ⟨rfl, -⟩ := List.cons.inj hs
  have hfits : ∃ d ∈ directMembersNamed index (symbol "B") "m" .callable,
      d.kind.isCallable = true ∧ d.parameterCount = some 0 := by
    obtain ⟨-, -, hkind, -, -, hcount⟩ := known
    rw [lookedUp.2.1]
    exact ⟨member, by simp, by rw [hkind]; rfl, hcount⟩
  exact ⟨hname, ⟨access, hsuper⟩, classifierAt?_around hj, hsupertypes, hinherited, hn,
    (halike hfits).trans hn⟩

/-- With two supertypes, of which the second declares the member, the call by name is of that
member, and the one of a member of `super` is answered with nothing. -/
theorem call_super_apart_second :
    NameCall file "m" 0 (callIn (block file 1) 0) ∧
    (∃ access, MemberCall file "super" "m" 0 (callIn (block file 1) 1) access) ∧
    index.classifierAt? (file.keyOf (around file 1)) = some (symbol "D") ∧
    supertypesOf index (levels index (maxDepth - 2)) (symbol "D") = [symbol "A", symbol "B"] ∧
    directMembersNamed index (symbol "D") "m" .callable = [] ∧
    membersNamed index (levels index (maxDepth - 1)) (symbol "D") "m" .callable = [member] ∧
    (ofIndex index file).call (callIn (block file 1) 0) = .ok (some ⟨member, false⟩) ∧
    (ofIndex index file).call (callIn (block file 1) 1) = .ok none := by
  have hj : (1, "D") ∈ classAround := by decide
  have hmem : ("D", ["A", "B"]) ∈ hierarchy.tail := by decide
  obtain ⟨-, -, -, hclass, -⟩ := placed _ hj
  obtain ⟨hname, ⟨access, hsuper⟩, -⟩ := written _ hj
  obtain ⟨hdirect, -, hqualified, hnamed⟩ := lookedUp
  have hsupertypes : supertypesOf index (levels index (maxDepth - 2)) (symbol "D") =
      [symbol "A", symbol "B"] :=
    supertypesOf_symbol (List.mem_of_mem_tail hmem) 12
  have hinherited : membersNamed index (levels index (maxDepth - 1)) (symbol "D") "m" .callable =
      [member] :=
    membersNamed_inherited hmem 12
  have hoffered : offered index (levels index (maxDepth - 1)) file (around file 1) "m" = [member] :=
    (offered_of_class hclass (classifierAt?_around hj) "m").trans hinherited
  refine ⟨hname, ⟨access, hsuper⟩, classifierAt?_around hj, hsupertypes, hdirect "D" (by simp),
    hinherited, ?_, ?_⟩
  · rw [call_of_nameCall (by decide) hname (nearest hj (by simp)) (by rw [hoffered]; simp),
      hoffered, calleeOf_member]
  · have hextensions : visibleExtensions index (levels index (maxDepth - 2)) file access "m"
        .callable (.ofClassifier (symbol "A")) = [] := by
      refine visibleExtensions_eq_nil (fun s hs => ?_) hnamed
      change s ∈ lookupName index (levels index (10 + 3)) file "m" access .callable at hs
      rw [lookupName_access hsuper, List.mem_singleton] at hs
      obtain ⟨-, -, -, -, hreceiver, -⟩ := known
      rw [hs, hreceiver]
    -- the first supertype offers nothing, and the second is not looked at
    have hnothing : accessOfType index (levels index (maxDepth - 1)) file "super" "m" access
        (some (.ofClassifier (symbol "A"))) = ⟨[], false⟩ :=
      (accessOfType_of_nothing (membersNamed_bare 12) hextensions).trans
        (congrArg (Access.mk · false) hqualified)
    rw [call_super hsuper (nearest hj (by simp)) hclass (classifierAt?_around hj), hsupertypes]
    exact congrArg (fun a => Except.ok (calleeOf index a 0)) hnothing

end Answers

end Crossref
