import Crossref.Path

/-!
# Symbols

What a declaration introduces.  A declaration is known by its key, the file it stands in and the
bytes it spans; a symbol is known by its handle, which adds the symbol's kind and a slot, because
one declaration may introduce several symbols (a class and its constructor, say, or the members a
compiler adds to a class).

* `DeclKey.Contains`: containment of keys is reflexive, transitive and antisymmetric, and strict
  containment is irreflexive.
-/

namespace Crossref

/-- The language a source file is written in. -/
inductive Language where
  | kotlin
  | java
  deriving DecidableEq, Inhabited

namespace Language

/-- The language of a path, by its extension. -/
def ofPath? (p : Path) : Option Language :=
  match p.extension? with
  | some "kt" => some .kotlin
  | some "kts" => some .kotlin
  | some "java" => some .java
  | _ => none

end Language

/-! ### Origins -/

/-- Where the code of a declaration comes from. -/
inductive Origin where
  | source
  | sourceGenerated
  | library
  | javaSource
  | javaLibrary
  | synthetic
  deriving DecidableEq, Inhabited

namespace Origin

def label : Origin → String
  | .source => "SOURCE"
  | .sourceGenerated => "SOURCE_GENERATED"
  | .library => "LIBRARY"
  | .javaSource => "JAVA_SOURCE"
  | .javaLibrary => "JAVA_LIBRARY"
  | .synthetic => "SYNTHETIC"

/-- Written by the authors of the project. -/
def isProjectAuthored : Origin → Bool
  | .source => true
  | .javaSource => true
  | _ => false

def isLibrary : Origin → Bool
  | .library => true
  | .javaLibrary => true
  | _ => false

end Origin

/-! ### Keys of declarations -/

/-- The number of a file in its index. -/
abbrev FileId := Nat

def FileId.render (id : FileId) : String := "#" ++ toString id

/-- A declaration: the file it stands in and the bytes it spans. -/
structure DeclKey where
  file : FileId
  start : Nat
  stop : Nat
  deriving DecidableEq, Hashable, Inhabited

/-- The first difference decides; a list is never longer than the one it is compared with here. -/
def compareNats : List Nat → List Nat → Ordering
  | a :: as, b :: bs => (compare a b).then (compareNats as bs)
  | _, _ => .eq

namespace DeclKey

def render (k : DeclKey) : String :=
  FileId.render k.file ++ ":" ++ toString k.start ++ ":" ++ toString k.stop

/-- `inner` is another declaration within the span of `outer`, in the same file. -/
def strictlyContains (outer inner : DeclKey) : Bool :=
  outer.file == inner.file && outer.start ≤ inner.start && inner.stop ≤ outer.stop
    && outer != inner

/-- `inner` is `outer` or lies within its span. -/
def contains (outer inner : DeclKey) : Bool := outer == inner || outer.strictlyContains inner

/-- Files first, then starts, then ends. -/
def compare (a b : DeclKey) : Ordering :=
  compareNats [a.file, a.start, a.stop] [b.file, b.start, b.stop]

theorem contains_iff {a b : DeclKey} :
    a.contains b = true ↔ a.file = b.file ∧
      (a = b ∨ (a.start ≤ b.start ∧ b.stop ≤ a.stop)) := by
  simp only [contains, strictlyContains, Bool.or_eq_true, beq_iff_eq, Bool.and_eq_true,
    decide_eq_true_eq, bne_iff_ne, ne_eq]
  constructor
  · rintro (rfl | ⟨⟨⟨h₁, h₂⟩, h₃⟩, -⟩)
    · exact ⟨rfl, Or.inl rfl⟩
    · exact ⟨h₁, Or.inr ⟨h₂, h₃⟩⟩
  · rintro ⟨h₁, h | ⟨h₂, h₃⟩⟩
    · exact Or.inl h
    · by_cases e : a = b
      · exact Or.inl e
      · exact Or.inr ⟨⟨⟨h₁, h₂⟩, h₃⟩, e⟩

theorem contains_refl (a : DeclKey) : a.contains a = true := by simp [contains]

theorem contains_trans {a b c : DeclKey} (hab : a.contains b = true)
    (hbc : b.contains c = true) : a.contains c = true := by
  rw [contains_iff] at *
  obtain ⟨h₁, h₂⟩ := hab
  obtain ⟨h₃, h₄⟩ := hbc
  refine ⟨h₁.trans h₃, ?_⟩
  rcases h₂ with rfl | h₂
  · exact h₄
  · rcases h₄ with rfl | h₄
    · exact Or.inr h₂
    · exact Or.inr ⟨Nat.le_trans h₂.1 h₄.1, Nat.le_trans h₄.2 h₂.2⟩

theorem contains_antisymm {a b : DeclKey} (hab : a.contains b = true) (hba : b.contains a = true) :
    a = b := by
  obtain ⟨hfile, hab⟩ := contains_iff.1 hab
  obtain ⟨-, hba⟩ := contains_iff.1 hba
  rcases hab with rfl | ⟨h₁, h₂⟩
  · rfl
  · rcases hba with rfl | ⟨h₃, h₄⟩
    · rfl
    · cases a
      cases b
      simp only at hfile h₁ h₂ h₃ h₄
      rw [hfile, Nat.le_antisymm h₁ h₃, Nat.le_antisymm h₄ h₂]

theorem strictlyContains_irrefl (a : DeclKey) : a.strictlyContains a = false := by
  simp [strictlyContains]

end DeclKey

/-! ### Kinds of symbols -/

/-- What a symbol is. -/
inductive Symbol.Kind where
  | plainClass
  | interface
  | object
  | enumClass
  | enumEntry
  | annotationClass
  | typeAlias
  | function
  | constructor
  | property
  | localVariable
  | parameter
  | destructuringComponent
  deriving DecidableEq, Hashable, Inhabited

namespace Symbol.Kind

/-- Names a type. -/
def isClassifier : Kind → Bool
  | .plainClass => true
  | .interface => true
  | .object => true
  | .enumClass => true
  | .annotationClass => true
  | .typeAlias => true
  | _ => false

/-- Is invoked with arguments. -/
def isCallable : Kind → Bool
  | .function => true
  | .constructor => true
  | _ => false

/-- Holds a value. -/
def isVariable : Kind → Bool
  | .property => true
  | .localVariable => true
  | .parameter => true
  | .destructuringComponent => true
  | .enumEntry => true
  | _ => false

/-- Lives in the body or the signature of one function only. -/
def isLocal : Kind → Bool
  | .localVariable => true
  | .parameter => true
  | .destructuringComponent => true
  | _ => false

def label : Kind → String
  | .plainClass => "class"
  | .interface => "interface"
  | .object => "object"
  | .enumClass => "enum class"
  | .enumEntry => "enum entry"
  | .annotationClass => "annotation class"
  | .typeAlias => "type alias"
  | .function => "function"
  | .constructor => "constructor"
  | .property => "property"
  | .localVariable => "local variable"
  | .parameter => "parameter"
  | .destructuringComponent => "destructuring component"

/-- The place of the kind in the order of kinds. -/
def rank : Kind → Nat
  | .plainClass => 0
  | .interface => 1
  | .object => 2
  | .enumClass => 3
  | .enumEntry => 4
  | .annotationClass => 5
  | .typeAlias => 6
  | .function => 7
  | .constructor => 8
  | .property => 9
  | .localVariable => 10
  | .parameter => 11
  | .destructuringComponent => 12

end Symbol.Kind

/-! ### Symbols -/

/-- The identity of a symbol: a declaration's span, the kind, and a slot that tells apart the
symbols of one kind which one declaration introduces. -/
structure Handle where
  file : FileId
  start : Nat
  stop : Nat
  kind : Symbol.Kind
  slot : Nat
  deriving DecidableEq, Hashable, Inhabited

namespace Handle

/-- Files first, then starts, ends, kinds and slots. -/
def compare (a b : Handle) : Ordering :=
  compareNats [a.file, a.start, a.stop, a.kind.rank, a.slot]
    [b.file, b.start, b.stop, b.kind.rank, b.slot]

/-- The declaration with the handle's span. -/
def key (h : Handle) : DeclKey := ⟨h.file, h.start, h.stop⟩

end Handle

/-- A symbol and all that its declaration says about it. -/
structure Symbol where
  handle : Handle
  /-- The declaration that introduces the symbol. -/
  declaration : DeclKey
  /-- The simple name; constructors are called `<init>`. -/
  name : String
  /-- Absent for what is declared locally. -/
  qualifiedName : Option String
  kind : Symbol.Kind
  origin : Origin
  /-- The classifier that the symbol is a member of. -/
  parent : Option Handle
  /-- The declared type of a variable, the result type of a function, the target of an alias. -/
  typeText : Option String
  /-- The receiver type of an extension. -/
  receiverType : Option String
  /-- The supertypes of a classifier, as written. -/
  superTypes : List String
  /-- The number of value parameters of a callable. -/
  parameterCount : Option Nat
  isMutable : Bool
  /-- A property that a parameter of the primary constructor introduces. -/
  declaredInConstructor : Bool
  modifiers : List String
  language : Language
  file : Path
  deriving DecidableEq, Inhabited

namespace Symbol

/-- The plain symbol with the given handle, declared by the handle's own span. -/
def ofHandle (handle : Handle) (name : String) (origin : Origin) (language : Language)
    (file : Path) : Symbol where
  handle := handle
  declaration := handle.key
  name := name
  qualifiedName := none
  kind := handle.kind
  origin := origin
  parent := none
  typeText := none
  receiverType := none
  superTypes := []
  parameterCount := none
  isMutable := false
  declaredInConstructor := false
  modifiers := []
  language := language
  file := file

def hasModifier (s : Symbol) (m : String) : Bool := s.modifiers.contains m

def isOperator (s : Symbol) : Bool := s.hasModifier "operator"

def isExtension (s : Symbol) : Bool := s.receiverType.isSome

/-- The kind in words and the fullest name there is. -/
def render (s : Symbol) : String := s.kind.label ++ " " ++ s.qualifiedName.getD s.name

end Symbol

end Crossref
