import Crossref.Resolve.Classifier
import Crossref.Resolve.Local

/-!
# Resolution: names and types

What a simple name denotes at a node, by a fixed sequence of tiers, and which classifier a type as
written names.  The first tier that offers a symbol of the wanted sort decides.

* `lookupName_eq_nil_iff`: a name denotes nothing exactly when it is empty or no tier offers
  anything.
-/

namespace Crossref.Resolve

/-! ### The tiers of a name -/

/-- The members of the implicit receivers at a node: those of the innermost receiver that has
any. -/
def receiverMembers (index : Index) (ls : Levels) (f : SourceFile) (name : String) (n : Node)
    (want : Want) : List Symbol :=
  firstFound ((enclosingReceivers index ls f n).map fun c _ => membersNamed index ls c name want)

/-- The symbols at the top of the file itself. -/
def inFile (index : Index) (f : SourceFile) (name : String) (want : Want) : List Symbol :=
  (index.topLevelIn f.id).filter fun s => s.name == name && want.accepts s

/-- The symbols behind the imports that bring the name into the file. -/
def imported (index : Index) (f : SourceFile) (name : String) (want : Want) : List Symbol :=
  firstFound ((f.imports.filter fun i => i.visibleName == some name).map fun i _ =>
    qualified index i.path want)

/-- The symbols of the file's package. -/
def inPackage (index : Index) (f : SourceFile) (name : String) (want : Want) : List Symbol :=
  qualified index (".".intercalate (QualifiedName.packageParts f.package ++ [name])) want

/-- The symbols behind the star imports. -/
def starImported (index : Index) (f : SourceFile) (name : String) (want : Want) : List Symbol :=
  firstFound ((f.imports.filter Import.star).map fun i _ =>
    qualified index (i.path ++ "." ++ name) want)

/-- The symbols of a name that only one declaration outside all classifiers has. -/
def globallyUnique (index : Index) (name : String) (want : Want) : List Symbol :=
  unambiguous ((index.findByName name).filter fun s => s.parent.isNone && want.accepts s)

/-- The tiers in which a name is looked for; a local binding never names a type. -/
def tiers (index : Index) (ls : Levels) (f : SourceFile) (name : String) (n : Node)
    (want : Want) : List (Unit → List Symbol) :=
  [fun _ => if want = .type then [] else localBindings f name n,
   fun _ => receiverMembers index ls f name n want,
   fun _ => inFile index f name want,
   fun _ => imported index f name want,
   fun _ => inPackage index f name want,
   fun _ => starImported index f name want,
   fun _ => globallyUnique index name want]

/-- What a name denotes at a node. -/
def lookupName (index : Index) (ls : Levels) (f : SourceFile) (name : String) (n : Node)
    (want : Want) : List Symbol :=
  if name = "" then [] else firstFound (tiers index ls f name n want)

theorem lookupName_eq_nil_iff {index : Index} {ls : Levels} {f : SourceFile} {name : String}
    {n : Node} {want : Want} :
    lookupName index ls f name n want = [] ↔
      name = "" ∨ ∀ tier ∈ tiers index ls f name n want, tier () = [] := by
  unfold lookupName
  split
  · next h => simp [h]
  · next h => simp [h, firstFound_eq_nil_iff]

/-! ### Types as written -/

/-- The classifier that a dotted path names segment by segment, the first from the node and each
other as a member of the one before. -/
def classifierAlong (index : Index) (ls : Levels) (f : SourceFile) (n : Node) :
    List String → Option Symbol
  | [] => none
  | first :: rest => do
    let outermost ← (ls.top.lookup f first n .type).head?
    rest.foldlM (fun c segment => (membersNamed index ls c segment .type).head?) outermost

/-- The classifier that the name of a type denotes: a dotted one as a qualified name first. -/
def classifierOfName (index : Index) (ls : Levels) (f : SourceFile) (n : Node) (name : String) :
    Option Symbol :=
  if name.toList.contains '.' then
    match (qualified index name .type).head? with
    | some c => some c
    | none => classifierAlong index ls f n (Text.splitOn name '.')
  else (ls.top.lookup f name n .type).head?

/-- The classifier that a type as written names, behind aliases if asked. -/
def classifierOfText (index : Index) (ls : Levels) (f : SourceFile) (n : Node) (text : String)
    (throughAlias : Bool) : Option Symbol := do
  let name := Text.withoutBlanks (Kotlin.simpleTypeName text)
  let found ← if name = "" then none else classifierOfName index ls f n name
  if throughAlias then followAlias index ls found else some found

end Crossref.Resolve
