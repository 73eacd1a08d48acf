import Crossref.Slice
import Crossref.Usage.Basic

/-!
# Usages: grouping by declaration

The usages of a run, put together by the declaration of their symbols.  Groups stand in the order
in which their declarations were first used, kinds of use in the order in which they first
occurred.  A group is dropped when its declaration lies in the one that is being looked at, when it
was not written in the project and only such declarations are asked for, and when it lies in the
declaration of another group.

* `mem_outermost_iff`: what is left are the groups whose keys lie strictly in no other key.
-/

namespace Crossref.Usage

/-- The uses of one declaration: the symbol of the first of them, and their kinds. -/
structure Group where
  key : DeclKey
  symbol : Symbol
  kinds : List Kind
  deriving DecidableEq, Inhabited

/-- The declarations that are used, in the order of their first use. -/
def usedKeys (usages : List Usage) : List DeclKey :=
  (usages.map fun u => u.symbol.declaration).eraseDups

/-- The group of the usages of one declaration, if there are any. -/
def groupOf? (usages : List Usage) (key : DeclKey) : Option Group :=
  let own := usages.filter fun u => u.symbol.declaration == key
  own.head?.map fun first => ⟨key, first.symbol, (own.map Usage.kind).eraseDups⟩

/-- The usages by declaration. -/
def groups (usages : List Usage) : List Group := (usedKeys usages).filterMap (groupOf? usages)

/-- What to leave out. -/
structure Selection where
  /-- Only declarations written in the project are kept. -/
  projectOnly : Bool := false
  /-- Declarations in the span of this one are left out. -/
  excluding : Option DeclKey := none

/-- The declaration stands in a file written in the project. -/
def isProjectAuthored (index : Index) (key : DeclKey) : Bool :=
  match index.file? key.file with
  | some f => f.origin.isProjectAuthored
  | none => false

/-- The declaration is not to be left out. -/
def Selection.keeps (sel : Selection) (index : Index) (key : DeclKey) : Bool :=
  (match sel.excluding with
    | some target => !target.contains key
    | none => true)
  && (!sel.projectOnly || isProjectAuthored index key)

/-- The groups whose declarations lie in no other one's. -/
def outermost (gs : List Group) : List Group :=
  gs.filter fun g => !gs.any fun outer => outer.key.strictlyContains g.key

theorem mem_outermost_iff {gs : List Group} {g : Group} :
    g ∈ outermost gs ↔ g ∈ gs ∧ ∀ outer ∈ gs, outer.key.strictlyContains g.key = false := by
  simp [outermost]

/-- The groups that are reported. -/
def selected (index : Index) (sel : Selection) (usages : List Usage) : List Group :=
  outermost ((groups usages).filter fun g => sel.keeps index g.key)

/-- A declaration that is used, and the ways it is used in. -/
structure Referenced where
  slice : Slice
  usageKinds : List Kind
  deriving DecidableEq, Inhabited

/-- The entry of a group, if its declaration can be found. -/
def referenced? (index : Index) (g : Group) : Option Referenced :=
  match Slice.ofSymbol index g.symbol with
  | .ok slice => some ⟨slice, g.kinds⟩
  | .error _ => none

/-- The declarations that are used, each with the ways it is used in. -/
def aggregate (index : Index) (sel : Selection) (usages : List Usage) : List Referenced :=
  (selected index sel usages).filterMap (referenced? index)

end Crossref.Usage
