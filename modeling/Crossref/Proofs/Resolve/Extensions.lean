import Crossref.Proofs.Resolve.Sources
import Crossref.Proofs.Resolve.Super

/-!
# Proofs — resolution — extensions of a receiver

Behind a receiver whose type has no member of a name, an extension with the name is looked for.  It
has to extend one of a few simple names: the one that the type is written with, that of its
classifier, and those of the supertypes that the classifier itself writes.  Members, in contrast,
are inherited over any number of supertypes.

* `visibleExtensions_of_only`: where one extension has the name, it is found exactly when it extends
  one of these names.
* `Answers.call_extension`: what `receiver.name(..)` calls.
* `Answers.call_extension_below`: an extension that is called behind one receiver is called behind
  another one exactly when it extends a name of the other one's type.
-/

namespace Crossref

namespace Resolve

/-! ### One extension with a name -/

/-- The simple name that an extension of a receiver as written extends. -/
def extendedName (receiver : String) : String :=
  Text.afterLast (Kotlin.simpleTypeName receiver) '.'

/-- Nothing but the function `e` has the name, an extension of a receiver as written. -/
structure OnlyExtension (i : Index) (name : String) (e : Symbol) (receiver : String) : Prop where
  kind : e.kind = .function
  receiver : e.receiverType = some receiver
  named : i.findByName name = [e]

/-- The extension `e` is at hand at a node: the name leads to it there, or it stands outside all
classifiers. -/
def AtHand (ls : Levels) (f : SourceFile) (name : String) (n : Node) (e : Symbol) : Prop :=
  e ∈ ls.top.lookup f name n .callable ∨ e.parent = none

instance (ls : Levels) (f : SourceFile) (name : String) (n : Node) (e : Symbol) :
    Decidable (AtHand ls f name n e) :=
  inferInstanceAs (Decidable (_ ∨ _))

variable {i : Index} {f : SourceFile} {name receiver : String} {e : Symbol}

theorem atHand_iff (height : Nat) {n : Node} : AtHand (levels i (height + 1)) f name n e ↔
    e ∈ lookupName i (levels i height) f name n .callable ∨ e.parent = none :=
  Iff.rfl

namespace OnlyExtension

variable (he : OnlyExtension i name e receiver)
include he

theorem isExtension : e.isExtension = true := by simp [Symbol.isExtension, he.receiver]

theorem isCallable : e.kind.isCallable = true := by
  rw [he.kind]
  rfl

theorem extendsOneOf_iff (names : List String) :
    extendsOneOf names e = true ↔ extendedName receiver ∈ names := by
  simp [extendsOneOf, he.receiver, extendedName]

end OnlyExtension

/-- The names of a type: as it is written, that of its classifier, and those of the supertypes that
the classifier writes. -/
theorem mem_receiverNames_iff {ls : Levels} {t : ExprType} {r : String} :
    r ∈ receiverNames i ls t ↔ r = t.name ∨ ∃ c ∈ t.classifier, r = c.name ∨
      ∃ s ∈ supertypesOf i ls c, r = s.name := by
  rw [receiverNames, List.mem_cons]
  cases t.classifier with
  | none => simp
  | some c => simp [eq_comm]

theorem unambiguous_singleton (s : Symbol) : unambiguous [s] = [s] := rfl

/-- In scope no other extension of the type has the name. -/
theorem eq_of_mem_scoped {found : List Symbol} {names : List String}
    (hscope : ∀ s ∈ found, s = e ∨ s.receiverType = none) {s : Symbol}
    (hs : s ∈ found.filter (extendsOneOf names)) : s = e := by
  obtain ⟨hs, hfits⟩ := List.mem_filter.1 hs
  refine (hscope s hs).resolve_right fun hnone => ?_
  simp [extendsOneOf, hnone] at hfits

/-- Nor does another one outside all classifiers. -/
theorem OnlyExtension.unambiguous_global (he : OnlyExtension i name e receiver)
    (names : List String) :
    unambiguous ((i.findByName name).filter fun s => s.parent.isNone &&
        Want.callable.accepts s && extendsOneOf names s) =
      if e.parent = none ∧ extendedName receiver ∈ names then [e] else [] := by
  have haccepts : Want.callable.accepts e = true := by simp [Want.accepts, he.isCallable]
  rw [he.named]
  simp only [List.filter_cons, List.filter_nil, haccepts, Bool.and_true, Bool.and_eq_true,
    Option.isNone_iff_eq_none, he.extendsOneOf_iff]
  split
  · exact unambiguous_singleton e
  · rfl

/-- **Where one extension has the name, it is found** exactly when it is at hand and extends a name
of the type. -/
theorem visibleExtensions_of_only (ls : Levels) {n : Node} (t : ExprType)
    (he : OnlyExtension i name e receiver)
    (hscope : ∀ s ∈ ls.top.lookup f name n .callable, s = e ∨ s.receiverType = none) :
    (∀ s ∈ visibleExtensions i ls f n name .callable t, s = e) ∧
    (visibleExtensions i ls f n name .callable t ≠ [] ↔
      AtHand ls f name n e ∧ extendedName receiver ∈ receiverNames i ls t) := by
  have hscoped : ∀ s ∈ (ls.top.lookup f name n .callable).filter
      (extendsOneOf (receiverNames i ls t)), s = e := fun s => eq_of_mem_scoped hscope
  unfold visibleExtensions
  by_cases hnone : (ls.top.lookup f name n .callable).filter
      (extendsOneOf (receiverNames i ls t)) = []
  · -- nothing in scope extends the type, so the only one of the project is left
    have hnot : e ∈ ls.top.lookup f name n .callable →
        extendedName receiver ∉ receiverNames i ls t := by
      intro hmem hname
      exact List.filter_eq_nil_iff.1 hnone e hmem ((he.extendsOneOf_iff _).2 hname)
    rw [firstFound_cons_of_eq_nil hnone, he.unambiguous_global]
    by_cases htop : e.parent = none ∧ extendedName receiver ∈ receiverNames i ls t
    · rw [if_pos htop]
      exact ⟨fun s => List.mem_singleton.1, fun _ => ⟨.inr htop.1, htop.2⟩,
        fun _ => List.cons_ne_nil e []⟩
    · rw [if_neg htop]
      refine ⟨fun s hs => (List.not_mem_nil hs).elim, fun h => absurd rfl h, ?_⟩
      rintro ⟨hhand, hname⟩
      rcases hhand with hmem | hparent
      · exact absurd hname (hnot hmem)
      · exact absurd ⟨hparent, hname⟩ htop
  · rw [firstFound_cons_of_ne_nil hnone]
    refine ⟨hscoped, fun _ => ?_, fun _ => hnone⟩
    obtain ⟨s, hs⟩ := List.exists_mem_of_ne_nil _ hnone
    obtain rfl := hscoped s hs
    obtain ⟨hmem, hfits⟩ := List.mem_filter.1 hs
    exact ⟨.inl hmem, (he.extendsOneOf_iff _).1 hfits⟩

end Resolve

namespace Answers
open Resolve

/-! ### Calls of an extension -/

variable {i : Index} {f : SourceFile} {name written : String} {e : Symbol} {arguments : Nat}
  {n access receiver : Node} {t : ExprType}

/-- **What is called behind a receiver** whose type has no member of the name, where one extension
has the name and nothing else in scope under the name has a receiver: the extension, if it is at
hand and extends a name of the type, and else what the text denotes as a qualified name. -/
theorem call_extension (he : OnlyExtension i name e written)
    (hn : DottedCall f name arguments n access receiver)
    (ht : typeOfExpr i (levels i (maxDepth - 2)) f receiver = some t)
    (hmembers : ∀ c ∈ t.classifier, membersNamed i (levels i (maxDepth - 1)) c name .callable = [])
    (hscope : ∀ s ∈ lookupName i (levels i (maxDepth - 3)) f name access .callable,
      s = e ∨ s.receiverType = none) :
    (ofIndex i f).call n = .ok (
      if AtHand (levels i (maxDepth - 2)) f name access e ∧
          extendedName written ∈ receiverNames i (levels i (maxDepth - 2)) t then
        some ⟨e, true⟩
      else calleeOf i
        ⟨qualified i (Text.withoutBlanks (f.textOf receiver ++ "." ++ name)) .callable, false⟩
        arguments) := by
  obtain ⟨hall, hfound⟩ :=
    visibleExtensions_of_only (levels i (maxDepth - 2)) t he hscope
  have haccess : accessOfType i (levels i (maxDepth - 1)) f (f.textOf receiver) name access
      (some t) = _ :=
    accessOfType_of_no_members hmembers
  rw [call_of_dottedCall hn, ht, haccess]
  by_cases hnone :
      visibleExtensions i (levels i (maxDepth - 1)).below f access name .callable t = []
  · rw [if_pos hnone, if_neg fun h => hfound.2 h hnone]
  · rw [if_neg hnone, if_pos (hfound.1 hnone), calleeOf_of_forall_eq he.isCallable hnone hall,
      he.isExtension]
    rfl

/-- **Extensions of one receiver and of another.**  Take two calls `x.name(..)` and `y.name(..)` at
places where the name leads to the same; no type of a receiver has a member of the name, one
extension has it, nothing else in scope under it has a receiver, and neither text is a qualified
name.  If the first call is one of the extension, the second is so exactly when the extension
extends the name that the type of `y` is written with, that of its classifier, or that of a
supertype which the classifier itself writes; supertypes of supertypes are not looked at.  Otherwise
the second call is answered with nothing. -/
theorem call_extension_below (he : OnlyExtension i name e written) {m access' x y : Node}
    {tx ty : ExprType} {arguments' : Nat} (hn : DottedCall f name arguments n access x)
    (hm : DottedCall f name arguments' m access' y)
    (hx : typeOfExpr i (levels i (maxDepth - 2)) f x = some tx)
    (hy : typeOfExpr i (levels i (maxDepth - 2)) f y = some ty)
    (hmembers : ∀ t ∈ [tx, ty], ∀ c ∈ t.classifier,
      membersNamed i (levels i (maxDepth - 1)) c name .callable = [])
    (hsame : lookupName i (levels i (maxDepth - 3)) f name access .callable =
      lookupName i (levels i (maxDepth - 3)) f name access' .callable)
    (hscope : ∀ s ∈ lookupName i (levels i (maxDepth - 3)) f name access .callable,
      s = e ∨ s.receiverType = none)
    (hqualified : ∀ z ∈ [x, y],
      qualified i (Text.withoutBlanks (f.textOf z ++ "." ++ name)) .callable = [])
    (hcall : (ofIndex i f).call n = .ok (some ⟨e, true⟩)) :
    ((ofIndex i f).call m = .ok (some ⟨e, true⟩) ↔
      extendedName written = ty.name ∨ ∃ c ∈ ty.classifier, extendedName written = c.name ∨
        ∃ s ∈ supertypesOf i (levels i (maxDepth - 2)) c, extendedName written = s.name) ∧
    ((ofIndex i f).call m = .ok (some ⟨e, true⟩) ∨ (ofIndex i f).call m = .ok none) := by
  have hnothing (count : Nat) : calleeOf i ⟨[], false⟩ count = none := rfl
  have hcallx := call_extension he hn hx (hmembers tx (by simp)) hscope
  have hcally := call_extension he hm hy (hmembers ty (by simp)) (by rwa [← hsame])
  rw [hqualified x (by simp), hnothing] at hcallx
  rw [hqualified y (by simp), hnothing] at hcally
  -- the first call says that the extension is at hand
  have hhand : AtHand (levels i (maxDepth - 2)) f name access' e := by
    by_cases hcond : AtHand (levels i (maxDepth - 2)) f name access e ∧
        extendedName written ∈ receiverNames i (levels i (maxDepth - 2)) tx
    · refine (atHand_iff 13).2 (((atHand_iff 13).1 hcond.1).imp_left fun hmem => ?_)
      exact hsame ▸ hmem
    · rw [if_neg hcond, hcall] at hcallx
      cases hcallx
  rw [← mem_receiverNames_iff]
  by_cases hname : extendedName written ∈ receiverNames i (levels i (maxDepth - 2)) ty
  · rw [if_pos ⟨hhand, hname⟩] at hcally
    exact ⟨⟨fun _ => hname, fun _ => hcally⟩, .inl hcally⟩
  · rw [if_neg fun h => hname h.2] at hcally
    refine ⟨⟨fun h => ?_, fun h => absurd h hname⟩, .inr hcally⟩
    rw [hcally] at h
    cases h

end Answers

/-! ### Receivers with a declared type -/

namespace Resolve

/-- The type of a parameter is the one that it is declared with. -/
theorem typeOfExpr_of_parameter {i : Index} {f g : SourceFile} {n anchor : Node} {s : Symbol}
    {others : List Symbol} {text : String} (height : Nat) (hk : n.kind = "simple_identifier")
    (hne : f.textOf n ≠ "") (hlocal : localBindings f (f.textOf n) n = s :: others)
    (hs : s.kind = .parameter) (htext : s.typeText = some text)
    (hanchor : i.anchor? s = some (g, anchor)) :
    typeOfExpr i (levels i (height + 2)) f n =
      some ⟨extendedName text, classifierOfText i (levels i height) g anchor text true⟩ := by
  have hlookup : lookupName i (levels i (height + 1)) f (f.textOf n) n .value = s :: others := by
    have hbound : (if Want.value = .type then [] else localBindings f (f.textOf n) n) =
        s :: others := hlocal
    rw [lookupName, if_neg hne, tiers, firstFound_cons_of_ne_nil (by rw [hbound]; simp), hbound]
  have htype : typeOfSymbol i (levels i (height + 1)) s =
      some ⟨extendedName text, classifierOfText i (levels i height) g anchor text true⟩ := by
    rw [typeOfSymbol, hs]
    simp only [declaredTypeOf, hanchor, htext, Option.bind_eq_bind, Option.bind_some,
      top_levels_succ, levelOver]
    rfl
  simp only [typeOfExpr, hk, top_levels_succ, levelOver]
  rw [hlookup, List.head?_cons, Option.bind_some, htype]

/-- Where no classifier has a member with the name, none is found. -/
theorem membersNamed_eq_nil {i : Index} {name : String}
    (h : ∀ owner, ∀ s ∈ i.membersOf owner, s.name ≠ name) (ls : Levels) (c : Symbol)
    (want : Want) : membersNamed i ls c name want = [] := by
  refine List.eq_nil_iff_forall_not_mem.2 fun s hs => ?_
  obtain ⟨⟨owner, hmem⟩, hname, -⟩ := memberNamed_of_mem_membersNamed hs
  exact h owner s hmem hname

end Resolve

/-! ### A chain of supertypes -/

namespace ExtensionCalls
open Node Resolve TwoCalls
open SuperCalls (classTree)

/-- A chain of three types, and an extension of the topmost:
```
interface A {}
interface B : A {}
class C : B {}
fun A.e() {}
fun f(x: A, y: B, z: C) {
    x.e()
    y.e()
    z.e()
}
``` -/
def text : String :=
  "interface A \x7b\x7d\ninterface B : A \x7b\x7d\nclass C : B \x7b\x7d\n" ++
    "fun A.e() \x7b\x7d\n" ++
    "fun f(x: A, y: B, z: C) \x7b\n    x.e()\n    y.e()\n    z.e()\n\x7d\n"

/-- A parameter and its type, each with a name of one letter. -/
def parameterTree (start : Nat) : Tree :=
  .named "parameter" start (start + 4)
    [.named "simple_identifier" start (start + 1) [], .token ":" (start + 1) (start + 2),
     .named "user_type" (start + 3) (start + 4)
      [.named "type_identifier" (start + 3) (start + 4) []]]

/-- `x.e()` -/
def callTree (start : Nat) : Tree :=
  .named "call_expression" start (start + 5)
    [.named "navigation_expression" start (start + 3)
      [.named "simple_identifier" start (start + 1) [],
       .named "navigation_suffix" (start + 1) (start + 3)
        [.token "." (start + 1) (start + 2),
         .named "simple_identifier" (start + 2) (start + 3) []]],
     suffixTree (start + 3)]

def tree : Tree :=
  .named "source_file" 0 120
    [classTree "interface" 0 12 14 [] [], classTree "interface" 15 31 33 [(":", 29)] [],
     classTree "class" 34 46 48 [(":", 44)] [],
     .named "function_declaration" 49 61
      [.token "fun" 49 52, .named "user_type" 53 54 [.named "type_identifier" 53 54 []],
       .token "." 54 55, .named "simple_identifier" 55 56 [],
       .named "function_value_parameters" 56 58 [.token "(" 56 57, .token ")" 57 58],
       .named "function_body" 59 61 [.token "\x7b" 59 60, .token "\x7d" 60 61]],
     .named "function_declaration" 62 119
      [.token "fun" 62 65, .named "simple_identifier" 66 67 [],
       .named "function_value_parameters" 67 85
        [.token "(" 67 68, parameterTree 68, .token "," 72 73, parameterTree 74,
         .token "," 78 79, parameterTree 80, .token ")" 84 85],
       .named "function_body" 86 119
        [.token "\x7b" 86 87,
         .named "statements" 92 117 [callTree 92, callTree 102, callTree 112],
         .token "\x7d" 118 119]]]

def given : ParsedText := ⟨⟨"/p/a.kt"⟩, text, tree⟩

def file : SourceFile := Project.sourceFile ⟨"/p"⟩ {} 0 .kotlin given

/-- A project with the one file. -/
def index : Index := Project.indexOf ⟨"/p"⟩ {} [given]

/-- Where the types are declared. -/
def key : String → DeclKey
  | "A" => ⟨0, 0, 14⟩
  | "B" => ⟨0, 15, 33⟩
  | _ => ⟨0, 34, 48⟩

/-- The symbol of the type. -/
def symbol (name : String) : Symbol := classifierAt index (key name)

/-- The extension. -/
def extension : Symbol := (index.symbols.find? (·.name = "e")).getD default

/-- The call with the number, the member access that it calls, and the receiver of that. -/
def dotted (k : Nat) : Node := callIn (block file 0) k

def access (k : Nat) : Node := ((dotted k).namedChild? 0).getD (dotted k)

def receiver (k : Nat) : Node := ((access k).namedChild? 0).getD (access k)

/-- The parameter that a receiver names. -/
def parameter (k : Nat) : Symbol :=
  ((localBindings file (file.textOf (receiver k)) (receiver k)).head?).getD default

/-- The types of the receivers, and the supertypes that they write. -/
def hierarchy : List (Nat × String × List String) :=
  [(0, "A", []), (1, "B", ["A"]), (2, "C", ["B"])]

theorem written : ∀ c ∈ hierarchy,
    (dotted c.1).kind = "call_expression" ∧ (dotted c.1).stop ≤ Text.size file.text ∧
    callArgumentCount (dotted c.1) = 0 ∧ ((dotted c.1).namedChild? 0).isSome = true ∧
    (access c.1).kind = "navigation_expression" ∧ suffixName? file (access c.1) = some "e" ∧
    ((access c.1).namedChild? 0).isSome = true ∧
    localBindings file "e" (access c.1) = [] ∧ (nearestReceiver? file (access c.1)).isNone = true ∧
    (receiver c.1).kind = "simple_identifier" ∧ file.textOf (receiver c.1) ≠ "" ∧
    localBindings file (file.textOf (receiver c.1)) (receiver c.1) = [parameter c.1] ∧
    (parameter c.1).kind = .parameter ∧ (parameter c.1).typeText = some c.2.1 := by
  decide +kernel

theorem known : (∀ c ∈ hierarchy, ((index.symbols.filter
      (·.declaration == key c.2.1)).find? (·.kind.isClassifier)).isSome = true ∧
      (symbol c.2.1).superTypes = c.2.2 ∧ extendedName c.2.1 = c.2.1 ∧
      ∀ s ∈ [symbol c.2.1, parameter c.1], s.handle.file = 0 ∧
        nearestReceiver? file ((file.nodeFor? s.declaration).getD file.top) = none) ∧
    extension.kind = .function ∧ extension.receiverType = some "A" ∧
    ∀ s ∈ index.symbols, s.name = "e" → s.parent = none := by
  decide +kernel

/-- What the look-ups give: the extension is the only symbol with its name, no text is qualified by
a receiver, and the types that are written are those at the top of the file. -/
theorem lookedUp : index.findByName "e" = [extension] ∧
    inFile index file "e" .callable = [extension] ∧
    (∀ c ∈ hierarchy, qualified index
      (Text.withoutBlanks (file.textOf (receiver c.1) ++ "." ++ "e")) .callable = []) ∧
    ∀ c ∈ hierarchy, (inFile index file c.2.1 .type).head? = some (symbol c.2.1) ∧
      (symbol c.2.1).kind ≠ .typeAlias ∧ (symbol c.2.1).name = c.2.1 := by
  simp only [index, Project.indexOf, Index.ofFiles, inFile, qualified, Index.topLevelIn_ofParts,
    Index.findByQualifiedName_ofParts, Index.findByName_ofParts]
  decide +kernel

theorem simple : ∀ c ∈ hierarchy, Text.withoutBlanks (Kotlin.simpleTypeName c.2.1) = c.2.1 ∧
    c.2.1 ≠ "" ∧ c.2.1.toList.contains '.' = false := by
  decide +kernel

/-- The supertypes that are written are types of the hierarchy. -/
theorem exists_of_mem_supertypes : ∀ c ∈ hierarchy, ∀ text ∈ c.2.2,
    ∃ d ∈ hierarchy, d.2.1 = text := by
  decide

theorem anchor?_eq {s : Symbol} (h : s.handle.file = 0) :
    index.anchor? s = some (file, (file.nodeFor? s.declaration).getD file.top) := by
  rw [Index.anchor?, h]
  rfl

theorem only : OnlyExtension index "e" extension "A" := by
  obtain ⟨-, hkind, hreceiver, -⟩ := known
  exact ⟨hkind, hreceiver, lookedUp.1⟩

section Hierarchy

variable {c : Nat × String × List String} (hc : c ∈ hierarchy)
include hc

theorem dottedCall : DottedCall file "e" 0 (dotted c.1) (access c.1) (receiver c.1) := by
  obtain ⟨hkind, hinside, hcounted, hcallee, hnavigation, hmember, hreceiver, -⟩ := written c hc
  exact ⟨hkind, hinside, hcounted,
    (Option.getD_of_ne_none (Option.isSome_iff_ne_none.1 hcallee) _).symm, hnavigation, hmember,
    (Option.getD_of_ne_none (Option.isSome_iff_ne_none.1 hreceiver) _).symm⟩

/-- A receiver has the type that its parameter is declared with. -/
theorem typeOfExpr_receiver : typeOfExpr index (levels index (maxDepth - 2)) file (receiver c.1) =
    some ⟨c.2.1, some (symbol c.2.1)⟩ := by
  obtain ⟨-, -, -, -, -, -, -, -, -, hkind, hne, hlocal, hparameter, htext⟩ := written c hc
  obtain ⟨-, -, hextended, hplace⟩ := known.1 c hc
  obtain ⟨hfile, hnear⟩ := hplace (parameter c.1) (by simp)
  obtain ⟨hfound, halias, -⟩ := lookedUp.2.2.2 c hc
  obtain ⟨hname, htextne, hsimple⟩ := simple c hc
  have hclass : classifierOfText index (levels index 12) file _ c.2.1 true =
      some (symbol c.2.1) :=
    classifierOfText_of_inFile hname htextne hsimple hnear hfound halias 11 true
  have htype := typeOfExpr_of_parameter 12 hkind hne hlocal hparameter htext
    (anchor?_eq hfile)
  rwa [hclass, hextended] at htype

/-- Each type has the supertypes that it writes, and no others. -/
theorem supertypesOf_symbol (height : Nat) :
    supertypesOf index (levels index (height + 2)) (symbol c.2.1) = c.2.2.map symbol := by
  obtain ⟨-, htexts, -, hplace⟩ := known.1 c hc
  obtain ⟨hfile, hnear⟩ := hplace (symbol c.2.1) (by simp)
  refine supertypesOf_of_inFile (anchor?_eq hfile) hnear (fun text htext => ?_) ?_
    (fun s hs => ?_) height
  · rw [htexts] at htext
    obtain ⟨d, hd, rfl⟩ := exists_of_mem_supertypes c hc text htext
    exact simple d hd
  · rw [htexts, List.map_map]
    refine List.map_congr_left fun text htext => ?_
    obtain ⟨d, hd, rfl⟩ := exists_of_mem_supertypes c hc text htext
    exact (lookedUp.2.2.2 d hd).1
  · obtain ⟨text, htext, rfl⟩ := List.mem_map.1 hs
    obtain ⟨d, hd, rfl⟩ := exists_of_mem_supertypes c hc text htext
    exact (lookedUp.2.2.2 d hd).2.1

/-- The supertypes have the names that are written. -/
theorem map_name_supertypes : (c.2.2.map symbol).map Symbol.name = c.2.2 := by
  rw [List.map_map]
  refine (List.map_congr_left fun text htext => ?_).trans (List.map_id _)
  obtain ⟨d, hd, rfl⟩ := exists_of_mem_supertypes c hc text htext
  exact (lookedUp.2.2.2 d hd).2.2

/-- The name leads to the extension. -/
theorem lookupName_access (ls : Levels) :
    lookupName index ls file "e" (access c.1) .callable = [extension] := by
  obtain ⟨-, -, -, -, -, -, -, hlocal, hnear, -⟩ := written c hc
  obtain ⟨-, hfound, -⟩ := lookedUp
  rw [lookupName_eq_inFile (by decide) (.inr hlocal) (Option.isNone_iff_eq_none.1 hnear)
    (by simp [hfound]), hfound]

end Hierarchy

/-- No type has a member with the name of the extension. -/
theorem membersNamed_symbol (ls : Levels) (c : Symbol) :
    membersNamed index ls c "e" .callable = [] := by
  refine membersNamed_eq_nil (fun owner s hs hname => ?_) ls c .callable
  rw [index, Project.indexOf, Index.ofFiles, Index.membersOf_ofParts] at hs
  obtain ⟨hs, hparent⟩ := List.mem_filter.1 hs
  obtain ⟨-, -, -, htop⟩ := known
  simp [htop s hs hname] at hparent

/-- What is called behind a receiver: the extension, if it extends a name of the receiver's type. -/
theorem call_receiver {c : Nat × String × List String} (hc : c ∈ hierarchy) :
    (Answers.ofIndex index file).call (dotted c.1) =
      .ok (if "A" ∈ c.2.1 :: c.2.2 then some ⟨extension, true⟩ else none) := by
  have hlookup := lookupName_access hc (levels index (maxDepth - 3))
  have hscope : ∀ s ∈ lookupName index (levels index (maxDepth - 3)) file "e" (access c.1)
      .callable, s = extension ∨ s.receiverType = none := by
    intro s hs
    rw [hlookup] at hs
    exact .inl (List.mem_singleton.1 hs)
  have hhand : AtHand (levels index (maxDepth - 2)) file "e" (access c.1) extension :=
    (atHand_iff 13).2 (.inl (by rw [lookupName_access hc]; exact List.mem_singleton_self _))
  have hnames : extendedName "A" ∈ receiverNames index (levels index (maxDepth - 2))
      ⟨c.2.1, some (symbol c.2.1)⟩ ↔ "A" ∈ c.2.1 :: c.2.2 := by
    obtain ⟨-, -, hextended, -⟩ := known.1 (0, "A", []) (by decide)
    obtain ⟨-, -, hname⟩ := lookedUp.2.2.2 c hc
    have hreached : supertypesOf index (levels index (maxDepth - 2)) (symbol c.2.1) =
        c.2.2.map symbol := supertypesOf_symbol hc 12
    simp only [receiverNames, hextended, hreached, map_name_supertypes hc, hname, List.mem_cons,
      or_self_left]
  rw [Answers.call_extension only (dottedCall hc) (typeOfExpr_receiver hc)
    (fun _ _ => membersNamed_symbol _ _) hscope, lookedUp.2.2.1 c hc]
  simp only [hhand, hnames, true_and]
  rfl

end ExtensionCalls

namespace Answers
open Resolve ExtensionCalls

/-- The extension is called behind a receiver whose type is one step below the one that it
extends. -/
theorem call_extension_below_oneStep :
    OnlyExtension index "e" extension "A" ∧
    (ofIndex index file).call (dotted 0) = .ok (some ⟨extension, true⟩) ∧
    (ofIndex index file).call (dotted 1) = .ok (some ⟨extension, true⟩) := by
  have h0 : (0, "A", []) ∈ hierarchy := by decide
  have h1 : (1, "B", ["A"]) ∈ hierarchy := by decide
  have hx := call_receiver h0
  rw [if_pos (by decide)] at hx
  have hlookup := lookupName_access h0 (levels index (maxDepth - 3))
  have hreached : supertypesOf index (levels index (maxDepth - 2)) (symbol "B") = [symbol "A"] :=
    supertypesOf_symbol h1 12
  obtain ⟨hiff, -⟩ := call_extension_below only (dottedCall h0) (dottedCall h1)
    (typeOfExpr_receiver h0) (typeOfExpr_receiver h1) (fun _ _ _ _ => membersNamed_symbol _ _)
    (hlookup.trans (lookupName_access h1 _).symm)
    (fun s hs => .inl (List.mem_singleton.1 (hlookup ▸ hs)))
    (fun z hz => by
      rcases List.mem_cons.1 hz with rfl | hz
      · exact lookedUp.2.2.1 _ h0
      · rw [List.mem_singleton.1 hz]
        exact lookedUp.2.2.1 _ h1) hx
  have hname : extendedName "A" = (symbol "A").name :=
    (known.1 _ h0).2.2.1.trans (lookedUp.2.2.2 _ h0).2.2.symm
  exact ⟨only, hx, hiff.2 (.inr ⟨symbol "B", rfl, .inr ⟨symbol "A", by simp [hreached], hname⟩⟩)⟩

/-- Behind a receiver whose type is two steps below, nothing is called, although no type of the
chain has a member with the name. -/
theorem call_extension_apart_twoSteps :
    OnlyExtension index "e" extension "A" ∧
    supertypesOf index (levels index (maxDepth - 2)) (symbol "C") = [symbol "B"] ∧
    supertypesOf index (levels index (maxDepth - 2)) (symbol "B") = [symbol "A"] ∧
    (∀ name ∈ ["A", "B", "C"], ∀ ls, membersNamed index ls (symbol name) "e" .callable = []) ∧
    typeOfExpr index (levels index (maxDepth - 2)) file (receiver 0) =
      some ⟨"A", some (symbol "A")⟩ ∧
    typeOfExpr index (levels index (maxDepth - 2)) file (receiver 2) =
      some ⟨"C", some (symbol "C")⟩ ∧
    (ofIndex index file).call (dotted 0) = .ok (some ⟨extension, true⟩) ∧
    (ofIndex index file).call (dotted 2) = .ok none := by
  have h0 : (0, "A", []) ∈ hierarchy := by decide
  have h1 : (1, "B", ["A"]) ∈ hierarchy := by decide
  have h2 : (2, "C", ["B"]) ∈ hierarchy := by decide
  have hx := call_receiver h0
  have hz := call_receiver h2
  rw [if_pos (by decide)] at hx
  rw [if_neg (by decide)] at hz
  have htypex := typeOfExpr_receiver h0
  have htypez := typeOfExpr_receiver h2
  exact ⟨only, supertypesOf_symbol h2 12, supertypesOf_symbol h1 12,
    fun _ _ ls => membersNamed_symbol ls _, htypex, htypez, hx, hz⟩

end Answers

end Crossref
