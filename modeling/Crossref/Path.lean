import Crossref.Text.Basic

/-!
# Paths

A path keeps the text it was written with; what it names is its list of components.  Repeated
slashes, inner `.` components and a trailing slash leave the components as they are, a leading `.`
and every `..` are components of their own.

* `Path.Same`: two spellings with the same components name the same thing.
* `Path.isUnder_iff`: a path lies under another when its components continue the other's.
-/

namespace Crossref

/-- A path as it was written. -/
structure Path where
  text : String
  deriving DecidableEq, Inhabited

namespace Path

/-- One step of a path. -/
inductive Component where
  | root
  | here
  | up
  | name (text : String)
  deriving DecidableEq, Hashable, Inhabited

/-- The place of a component's constructor in the order. -/
def Component.rank : Component → Nat
  | .root => 0
  | .here => 1
  | .up => 2
  | .name _ => 3

/-- The order of components: the root, `.`, `..`, then names by their characters. -/
def Component.compare : Component → Component → Ordering
  | .name a, .name b => Ord.compare a b
  | a, b => Ord.compare a.rank b.rank

/-- The path starts at the root. -/
def isAbsolute (p : Path) : Bool := Text.startsWith p.text "/"

/-- The components of the pieces between slashes: empty pieces and `.` are none. -/
def componentsOf (pieces : List String) : List Component :=
  pieces.filterMap fun piece =>
    if piece = "" ∨ piece = "." then none
    else if piece = ".." then some .up
    else some (.name piece)

/-- What the path names, step by step. -/
def components (p : Path) : List Component :=
  let pieces := Text.splitOn p.text '/'
  let lead :=
    if p.isAbsolute then [.root]
    else if pieces.head? = some "." then [.here]
    else []
  lead ++ componentsOf pieces

/-- Two paths with the same components, however spelled. -/
def Same (p q : Path) : Prop := p.components = q.components

instance (p q : Path) : Decidable (Same p q) := inferInstanceAs (Decidable (_ = _))

/-- The lexicographic order of the components. -/
def compareComponents : List Component → List Component → Ordering
  | [], [] => .eq
  | [], _ :: _ => .lt
  | _ :: _, [] => .gt
  | a :: as, b :: bs => (a.compare b).then (compareComponents as bs)

/-- The order of paths by their components. -/
def compare (p q : Path) : Ordering := compareComponents p.components q.components

/-- The path's components begin with those of `base`. -/
def isUnder (p base : Path) : Bool := base.components.isPrefixOf p.components

theorem isUnder_iff {p base : Path} :
    p.isUnder base = true ↔ ∃ below, p.components = base.components ++ below := by
  rw [isUnder, List.isPrefixOf_iff_prefix]
  exact ⟨fun ⟨below, h⟩ => ⟨below, h.symm⟩, fun ⟨below, h⟩ => ⟨below, h.symm⟩⟩

/-- `q` seen from `p`: an absolute `q` stands for itself, any other is written behind `p` and one
slash. -/
def join (p q : Path) : Path :=
  if q.isAbsolute then q
  else if p.text = "" ∨ Text.endsWithChar p.text '/' then ⟨p.text ++ q.text⟩
  else ⟨p.text ++ "/" ++ q.text⟩

/-- The last component, when it is a name. -/
def fileName? (p : Path) : Option String :=
  match p.components.getLast? with
  | some (.name n) => some n
  | _ => none

/-- What follows the last dot of the file name; a dot in front of the name begins no extension. -/
def extension? (p : Path) : Option String := do
  let name ← p.fileName?
  let stem ← Text.beforeLast? name '.'
  if stem = "" then none else some (Text.afterLast name '.')

/-- The pieces of a path's body without those at the end that name nothing. -/
def trimPieces (pieces : List String) : List String :=
  (pieces.reverse.dropWhile fun piece => piece = "" ∨ piece = ".").reverse

/-- The path without its last component, as it was written up to there; the root and the empty
path have none. -/
def parent? (p : Path) : Option Path :=
  let lead := if p.isAbsolute then "/" else if p.components.head? = some .here then "." else ""
  let body := Text.splitOn (String.ofList (p.text.toList.drop lead.length)) '/'
  match (trimPieces body).reverse with
  | _ :: rest =>
    some ⟨lead ++ "/".intercalate (trimPieces rest.reverse)⟩
  | [] => if lead = "." then some ⟨""⟩ else none

end Path

end Crossref
