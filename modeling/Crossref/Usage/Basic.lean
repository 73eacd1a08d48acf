import Crossref.Resolve.Level

/-!
# Usages

One use of a symbol at one node, and how the kind of the use is chosen.

* `Kind.ofLabel?_label`: a kind is read back from its label.
* `classifyCall_constructor`: invoking a constructor is a constructor call wherever it stands.
-/

namespace Crossref

open Resolve (Call)

/-- How a declaration is used at a node. -/
inductive Usage.Kind where
  | call
  | propertyRead
  | propertyWrite
  | typeReference
  | supertype
  | constructorCall
  | annotationUse
  | delegatedProperty
  | operatorCall
  | extensionReceiver
  deriving DecidableEq, Inhabited

namespace Usage.Kind

def label : Kind → String
  | .call => "CALL"
  | .propertyRead => "PROPERTY_READ"
  | .propertyWrite => "PROPERTY_WRITE"
  | .typeReference => "TYPE_REFERENCE"
  | .supertype => "SUPERTYPE"
  | .constructorCall => "CONSTRUCTOR_CALL"
  | .annotationUse => "ANNOTATION"
  | .delegatedProperty => "DELEGATED_PROPERTY"
  | .operatorCall => "OPERATOR_CALL"
  | .extensionReceiver => "EXTENSION_RECEIVER"

/-- All kinds of use. -/
def all : List Kind :=
  [.call, .propertyRead, .propertyWrite, .typeReference, .supertype, .constructorCall,
   .annotationUse, .delegatedProperty, .operatorCall, .extensionReceiver]

/-- The kind with the label. -/
def ofLabel? (text : String) : Option Kind := all.find? fun k => k.label == text

theorem ofLabel?_label (k : Kind) : ofLabel? k.label = some k := by
  cases k <;> decide

end Usage.Kind

/-- The node at which a usage was recorded. -/
structure Usage.Site where
  file : FileId
  start : Nat
  stop : Nat
  nodeKind : String
  deriving DecidableEq, Inhabited

/-- The site of a node in a file. -/
def Usage.Site.ofNode (f : SourceFile) (n : Node) : Usage.Site := ⟨f.id, n.start, n.stop, n.kind⟩

/-- A use of a symbol. -/
structure Usage where
  symbol : Symbol
  kind : Usage.Kind
  site : Usage.Site
  deriving DecidableEq, Inhabited

namespace Usage

/-- A read of a local variable, a parameter, or a property that the constructor declares. -/
def isLowSignal (u : Usage) : Bool :=
  u.kind = .propertyRead && (u.symbol.kind.isLocal || u.symbol.declaredInConstructor)

/-- The kind of an invocation: of a constructor, of an operator, by a delegated property, of a
variable that holds a function, or else a plain call. -/
def classifyCall (c : Call) (inDelegate : Bool) : Kind :=
  if c.symbol.kind = .constructor then .constructorCall
  else if c.symbol.isOperator then .operatorCall
  else if inDelegate then .delegatedProperty
  else if c.symbol.kind.isVariable then .propertyRead
  else .call

/-- The kind of an access: only what is mutable is written. -/
def classifyAccess (s : Symbol) (isTarget : Bool) : Kind :=
  if isTarget && s.isMutable then .propertyWrite else .propertyRead

theorem classifyCall_constructor {c : Call} (h : c.symbol.kind = .constructor) (d : Bool) :
    classifyCall c d = .constructorCall := by
  simp [classifyCall, h]

/-- The usages of one use: a use through an extension is recorded a second time as that of its
receiver. -/
def paired (s : Symbol) (kind : Kind) (site : Site) (extension : Bool) : List Usage :=
  ⟨s, kind, site⟩ :: if extension then [⟨s, .extensionReceiver, site⟩] else []

end Usage

end Crossref
