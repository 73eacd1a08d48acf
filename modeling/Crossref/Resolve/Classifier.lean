import Crossref.Resolve.Level

/-!
# Resolution: classifiers

The classifier behind an alias, the supertypes of a classifier, the implicit receivers at a node
and the members that a classifier offers.  Every function here asks the given levels and nothing
deeper.

* `membersNamed_nil`: with no levels left, no member is found.
-/

namespace Crossref.Resolve

/-- The classifier that an alias stands for in the end; any other classifier stands for itself. -/
def followAlias (index : Index) (ls : Levels) (c : Symbol) : Option Symbol :=
  if c.kind = .typeAlias then do
    let target ← c.typeText
    let (f, anchor) ← index.anchor? c
    ls.top.classifierNamed f anchor target true
  else some c

/-- The supertypes of a classifier that can be resolved, in the order written. -/
def supertypesOf (index : Index) (ls : Levels) (c : Symbol) : List Symbol :=
  match index.anchor? c with
  | some (f, anchor) => c.superTypes.filterMap fun t => ls.top.classifierNamed f anchor t true
  | none => []

/-! ### Implicit receivers -/

/-- The nodes that declare a classifier whose members are at hand inside. -/
def receiverClassKinds : List String :=
  ["class_declaration", "object_declaration", "companion_object", "interface_declaration",
   "enum_declaration"]

/-- The receivers that a node adds for what stands in it: the classifier it declares, the
supertypes of an object literal, the receiver of an extension. -/
def receiversAt (index : Index) (ls : Levels) (f : SourceFile) (n : Node) : List Symbol :=
  if receiverClassKinds.contains n.kind then (index.classifierAt? (f.keyOf n)).toList
  else if n.kind = "object_literal" then
    ((Kotlin.delegationSpecifiers n).filterMap Kotlin.specifierType?).filterMap fun t =>
      ls.top.classifierNamed f n (f.textOf t) true
  else if n.kind = "function_declaration" ∨ n.kind = "property_declaration" then
    ((Kotlin.receiverType? n f.text).bind fun t => ls.top.classifierNamed f n t true).toList
  else []

/-- The implicit receivers at a node, innermost first. -/
def enclosingReceivers (index : Index) (ls : Levels) (f : SourceFile) (n : Node) : List Symbol :=
  n.ancestors.flatMap (receiversAt index ls f)

/-! ### Members -/

/-- The direct members of a classifier and of its companion with the name, of the wanted sort. -/
def directMembersNamed (index : Index) (c : Symbol) (name : String) (want : Want) : List Symbol :=
  let fits (s : Symbol) : Bool := s.name == name && want.accepts s
  (index.membersOf c.handle).flatMap fun m =>
    (if fits m then [m] else [])
      ++ (if m.kind = .object && m.hasModifier "companion" then
            (index.membersOf m.handle).filter fits
          else [])

/-- One round of the search for a member: what the classifiers of the round offer, the classifiers
seen so far, and the supertypes that make the next round. -/
structure Round where
  seen : List Handle
  found : List Symbol
  next : List Symbol

/-- Looks at one classifier of a round; one that was seen before adds nothing. -/
def Round.visit (index : Index) (ls : Levels) (name : String) (want : Want) (r : Round)
    (c : Symbol) : Round :=
  match followAlias index ls c with
  | none => r
  | some c =>
    if r.seen.contains c.handle then r
    else
      { seen := c.handle :: r.seen
        found := r.found ++ directMembersNamed index c name want
        next := r.next ++ supertypesOf index ls c }

/-- The members with the name that the classifiers of a round offer, or else their supertypes;
one level is spent on each round. -/
def membersFrom (index : Index) (name : String) (want : Want) :
    Levels → List Handle → List Symbol → List Symbol
  | [], _, _ => []
  | _ :: _, _, [] => []
  | _ :: ls, seen, c :: cs =>
    let round := (c :: cs).foldl (Round.visit index ls name want) ⟨seen, [], []⟩
    match round.found with
    | [] => membersFrom index name want ls round.seen round.next
    | found => found

/-- The members of a classifier with the name: its own and its companion's, or else those of its
supertypes, nearest first. -/
def membersNamed (index : Index) (ls : Levels) (c : Symbol) (name : String) (want : Want) :
    List Symbol :=
  membersFrom index name want ls [] [c]

theorem membersNamed_nil (index : Index) (c : Symbol) (name : String) (want : Want) :
    membersNamed index [] c name want = [] := rfl

/-- The constructors of a classifier, through aliases. -/
def constructorsOf (index : Index) (ls : Levels) (c : Symbol) : List Symbol :=
  match followAlias index ls c with
  | some c => (index.membersOf c.handle).filter (·.kind = .constructor)
  | none => []

end Crossref.Resolve
