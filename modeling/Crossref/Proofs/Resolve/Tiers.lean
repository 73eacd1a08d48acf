import Crossref.Proofs.Resolve.Callees
import Crossref.Session

/-!
# Proofs — resolution — calls from inside and outside a file

A name whose declarations all stand at the top of one file is looked for in three ways: in its own
file among what stands at the top, in other files by its qualified name, which an import or the
package of the file gives.  A qualified name finds the constructors of a class together with the
class and the functions of the name; the file's own tier finds the class and the functions alone.

* `lookupName_inside`, `lookupName_outside`: the candidates of a call.
* `Answers.call_of_access`: a call is answered with the callee among what its first child leads to.
* `Answers.call_inside`, `Answers.call_outside`: its callee.
-/

namespace Crossref

/-- The qualified name that a name at the top of the file has. -/
def SourceFile.qualify (f : SourceFile) (name : String) : String :=
  ".".intercalate (QualifiedName.packageParts f.package ++ [name])

/-- All declarations of the name stand at the top of the file; nothing but constructors shares their
qualified name. -/
structure Index.DeclaredIn (i : Index) (f : SourceFile) (name : String) : Prop where
  known : ∃ s ∈ i.symbols, s.name = name
  atTop : ∀ s ∈ i.symbols, s.name = name →
    s.parent = none ∧ s.qualifiedName = some (f.qualify name)
  own : ∀ s ∈ i.symbols, s.qualifiedName = some (f.qualify name) →
    s.handle.file = f.id ∧ (s.name = name ∨ s.kind = .constructor)

instance (i : Index) (f : SourceFile) (name : String) : Decidable (i.DeclaredIn f name) :=
  decidable_of_iff ((∃ s ∈ i.symbols, s.name = name) ∧
      (∀ s ∈ i.symbols, s.name = name →
        s.parent = none ∧ s.qualifiedName = some (f.qualify name)) ∧
      ∀ s ∈ i.symbols, s.qualifiedName = some (f.qualify name) →
        s.handle.file = f.id ∧ (s.name = name ∨ s.kind = .constructor))
    ⟨fun ⟨hknown, htop, hown⟩ => ⟨hknown, htop, hown⟩, fun h => ⟨h.known, h.atTop, h.own⟩⟩

namespace Resolve

/-! ### Calls of a name -/

/-- The node calls the name with as many arguments, and neither a local binding nor a receiver
around it offers the name. -/
structure BareCall (i : Index) (g : SourceFile) (name : String) (arguments : Nat) (n : Node) :
    Prop where
  kind : n.kind = "call_expression"
  inside : n.stop ≤ Text.size g.text
  counted : callArgumentCount n = arguments
  callee : ∃ callee, n.namedChild? 0 = some callee ∧ callee.kind = "simple_identifier" ∧
    g.textOf callee = name ∧ localBindings g name callee = [] ∧
    receiverMembers i (levels i maxDepth).below g name callee .callable = []

instance (i : Index) (g : SourceFile) (name : String) (arguments : Nat) (n : Node) :
    Decidable (BareCall i g name arguments n) :=
  decidable_of_iff (n.kind = "call_expression" ∧ n.stop ≤ Text.size g.text ∧
      callArgumentCount n = arguments ∧
      ∃ callee ∈ n.namedChild? 0, callee.kind = "simple_identifier" ∧
        g.textOf callee = name ∧ localBindings g name callee = [] ∧
        receiverMembers i (levels i maxDepth).below g name callee .callable = [])
    ⟨fun ⟨hkind, hinside, hcounted, hcallee⟩ => ⟨hkind, hinside, hcounted, hcallee⟩,
      fun h => ⟨h.kind, h.inside, h.counted, h.callee⟩⟩

/-- Another file sees the declarations of the name in `f`, from the same package or through an
import, and no import brings another callable of the name. -/
structure Sees (i : Index) (f : SourceFile) (name : String) (g : SourceFile) : Prop where
  other : g.id ≠ f.id
  imports : ∀ im ∈ g.imports, im.visibleName = some name →
    im.path = f.qualify name ∨ qualified i im.path .callable = []
  visible : QualifiedName.packageParts g.package = QualifiedName.packageParts f.package ∨
    ∃ im ∈ g.imports, im.visibleName = some name ∧ im.path = f.qualify name

instance (i : Index) (f : SourceFile) (name : String) (g : SourceFile) :
    Decidable (Sees i f name g) :=
  decidable_of_iff (g.id ≠ f.id ∧
      (∀ im ∈ g.imports, im.visibleName = some name →
        im.path = f.qualify name ∨ qualified i im.path .callable = []) ∧
      (QualifiedName.packageParts g.package = QualifiedName.packageParts f.package ∨
        ∃ im ∈ g.imports, im.visibleName = some name ∧ im.path = f.qualify name))
    ⟨fun ⟨hother, himports, hvisible⟩ => ⟨hother, himports, hvisible⟩,
      fun h => ⟨h.other, h.imports, h.visible⟩⟩

/-- The callee of a name among what stands at the top of the file. -/
def calledInside (i : Index) (f : SourceFile) (name : String) (arguments : Nat) : Option Symbol :=
  chooseCallable i (levels i maxDepth) (inFile i f name .callable) arguments

/-- The callee of a name among what has its qualified name. -/
def calledOutside (i : Index) (f : SourceFile) (name : String) (arguments : Nat) : Option Symbol :=
  chooseCallable i (levels i maxDepth) (qualified i (f.qualify name) .callable) arguments

/-! ### Trying in turn -/

section Trying

variable {α : Type} {answer : Unit → List α} {answers : List (Unit → List α)}

theorem firstFound_cons_of_eq_nil (h : answer () = []) :
    firstFound (answer :: answers) = firstFound answers := by
  rw [firstFound, h]

theorem firstFound_cons_of_ne_nil (h : answer () ≠ []) :
    firstFound (answer :: answers) = answer () := by
  rw [firstFound]
  split
  · next e => exact absurd e h
  · rfl

/-- Where every answer is the same or empty, so is the first that is found. -/
theorem firstFound_of_forall {found : List α} (h : ∀ a ∈ answers, a () = found ∨ a () = []) :
    firstFound answers = found ∨ firstFound answers = [] := by
  induction answers with
  | nil => exact .inr rfl
  | cons a as ih =>
      by_cases ha : a () = []
      · rw [firstFound_cons_of_eq_nil ha]
        exact ih fun b hb => h b (List.mem_cons_of_mem _ hb)
      · rw [firstFound_cons_of_ne_nil ha]
        exact h a List.mem_cons_self

end Trying

/-! ### The candidates of a call -/

/-- Whatever has a name can be called. -/
theorem accepts_callable (s : Symbol) : Want.callable.accepts s = true := by
  rw [Want.accepts]
  cases s.kind <;> rfl

section Candidates

variable {i : Index} (hi : i.Consistent) {f : SourceFile} {name : String}
  (hdeclared : i.DeclaredIn f name)
include hi

theorem qualified_eq_filter (qualifiedName : String) :
    qualified i qualifiedName .callable =
      i.symbols.filter (·.qualifiedName == some qualifiedName) := by
  rw [qualified, hi.tables, Index.findByQualifiedName_ofParts]
  exact List.filter_eq_self.2 fun s _ => accepts_callable s

theorem inFile_eq_filter (g : SourceFile) (name : String) :
    inFile i g name .callable =
      i.symbols.filter fun s => s.name == name && Index.topLevelFile s == some g.id := by
  have htop : i.topLevelIn g.id = i.symbols.filter (Index.topLevelFile · == some g.id) :=
    (congrArg (·.topLevelIn g.id) hi.tables).trans (Index.topLevelIn_ofParts _ _ _)
  rw [inFile, htop, List.filter_filter]
  simp [accepts_callable]

include hdeclared

/-- In its own file the name leads to all symbols that have it. -/
theorem inFile_own : inFile i f name .callable = i.symbols.filter (·.name == name) := by
  rw [inFile_eq_filter hi]
  refine List.filter_congr fun s hs => ?_
  by_cases hname : s.name = name
  · obtain ⟨hparent, hqualified⟩ := hdeclared.atTop s hs hname
    simp [hname, Index.topLevelFile, hparent, (hdeclared.own s hs hqualified).1]
  · simp [hname]

/-- Nothing with the name stands in another file. -/
theorem inFile_other {g : SourceFile} (hg : g.id ≠ f.id) : inFile i g name .callable = [] := by
  rw [inFile_eq_filter hi]
  refine List.filter_eq_nil_iff.2 fun s hs h => ?_
  simp only [Bool.and_eq_true, beq_iff_eq] at h
  obtain ⟨hparent, hqualified⟩ := hdeclared.atTop s hs h.1
  have hfile : Index.topLevelFile s = some f.id := by
    simp [Index.topLevelFile, hparent, (hdeclared.own s hs hqualified).1]
  exact hg (Option.some.inj (h.2.symm.trans hfile))

theorem inFile_own_ne_nil : inFile i f name .callable ≠ [] := by
  obtain ⟨s, hs, hname⟩ := hdeclared.known
  rw [inFile_own hi hdeclared]
  exact List.ne_nil_of_mem (List.mem_filter.2 ⟨hs, by simp [hname]⟩)

theorem qualified_ne_nil : qualified i (f.qualify name) .callable ≠ [] := by
  obtain ⟨s, hs, hname⟩ := hdeclared.known
  rw [qualified_eq_filter hi]
  exact List.ne_nil_of_mem (List.mem_filter.2 ⟨hs, by simp [(hdeclared.atTop s hs hname).2]⟩)

variable {ls : Levels} {g : SourceFile} {callee : Node} (hne : name ≠ "")
  (hlocal : localBindings g name callee = [])
  (hreceivers : receiverMembers i ls g name callee .callable = [])
include hne hlocal hreceivers

omit hi hdeclared in
/-- With no binding and no receiver the search begins at the top of the file. -/
theorem lookupName_eq_drop :
    lookupName i ls g name callee .callable =
      firstFound ((tiers i ls g name callee .callable).drop 2) := by
  rw [lookupName, if_neg hne, tiers, firstFound_cons_of_eq_nil (by simpa using hlocal),
    firstFound_cons_of_eq_nil hreceivers]
  rfl

/-- **Inside the file** a call has the symbols with the name as its candidates. -/
theorem lookupName_inside (hg : g = f) :
    lookupName i ls g name callee .callable = inFile i f name .callable := by
  rw [lookupName_eq_drop hne hlocal hreceivers, hg]
  exact firstFound_cons_of_ne_nil (inFile_own_ne_nil hi hdeclared)

/-- **Outside the file** a call has all that has the qualified name as its candidates. -/
theorem lookupName_outside (hsees : Sees i f name g) :
    lookupName i ls g name callee .callable = qualified i (f.qualify name) .callable := by
  have hfound := qualified_ne_nil hi hdeclared
  have himported : imported i g name .callable = qualified i (f.qualify name) .callable ∨
      imported i g name .callable = [] := by
    refine firstFound_of_forall fun a ha => ?_
    obtain ⟨im, him, rfl⟩ := List.mem_map.1 ha
    obtain ⟨hmem, hvisible⟩ := List.mem_filter.1 him
    exact (hsees.imports im hmem (beq_iff_eq.1 hvisible)).imp (fun h => by rw [h]) id
  rw [lookupName_eq_drop hne hlocal hreceivers]
  change firstFound ((fun _ => inFile i g name .callable) ::
    (fun _ => imported i g name .callable) :: (fun _ => inPackage i g name .callable) :: _) = _
  rw [firstFound_cons_of_eq_nil (inFile_other hi hdeclared hsees.other)]
  rcases himported with h | h
  · rw [firstFound_cons_of_ne_nil (by rw [h]; exact hfound), h]
  · rw [firstFound_cons_of_eq_nil h]
    -- no import leads to the name, so the file stands in the same package
    have hpackage : inPackage i g name .callable = qualified i (f.qualify name) .callable := by
      rcases hsees.visible with hpackage | ⟨im, him, hvisible, hpath⟩
      · rw [inPackage, hpackage, SourceFile.qualify]
      · have hnone := (firstFound_eq_nil_iff _).1 h _ (List.mem_map_of_mem
          (List.mem_filter.2 ⟨him, beq_iff_eq.2 hvisible⟩))
        rw [hpath] at hnone
        exact absurd hnone hfound
    rw [firstFound_cons_of_ne_nil (by rw [hpackage]; exact hfound), hpackage]

end Candidates

/-- The callee among what an access leads to. -/
def calleeOf (i : Index) (access : Access) (arguments : Nat) : Option Call :=
  (chooseCallable i (levels i maxDepth) access.symbols arguments).map fun s =>
    ⟨s, s.isExtension || access.asExtension⟩

end Resolve

namespace Answers

open Resolve

/-- A call in the file's text is answered with the callee among what its first child leads to. -/
theorem call_of_access {i : Index} {f : SourceFile} {n callee : Node} {access : Access}
    (hkind : n.kind = "call_expression") (hinside : n.stop ≤ Text.size f.text)
    (hchild : n.namedChild? 0 = some callee)
    (hcallee : callee.kind = "simple_identifier" ∧
        access = ⟨lookupName i (levels i (maxDepth - 1)) f (f.textOf callee) callee .callable,
          false⟩ ∨
      callee.kind = "navigation_expression" ∧
        access = accessNavigation i (levels i (maxDepth - 1)) f callee .callable) :
    (ofIndex i f).call n = .ok (calleeOf i access (callArgumentCount n)) := by
  have hcalled : called i (levels i maxDepth) f n = calleeOf i access (callArgumentCount n) := by
    rw [called, hkind]
    change callTarget i (levels i maxDepth) f n = _
    rw [callTarget, hchild, Option.bind_eq_bind, Option.bind_some]
    rcases hcallee with ⟨hk, rfl⟩ | ⟨hk, rfl⟩ <;> rw [hk] <;> exact Option.map_eq_bind.symm
  rw [← hcalled]
  exact if_neg (Nat.not_lt.2 hinside)

/-- A call of a name is answered with the callee among the candidates of the name. -/
theorem call_of_bareCall {i : Index} {g : SourceFile} {name : String} {arguments : Nat} {n : Node}
    {candidates : List Symbol} (hcall : BareCall i g name arguments n)
    (hcandidates : ∀ callee, localBindings g name callee = [] →
      receiverMembers i (levels i maxDepth).below g name callee .callable = [] →
      lookupName i (levels i maxDepth).below g name callee .callable = candidates) :
    (ofIndex i g).call n =
      .ok ((chooseCallable i (levels i maxDepth) candidates arguments).map Call.ofSymbol) := by
  obtain ⟨callee, hchild, hkind, hname, hlocal, hreceivers⟩ := hcall.callee
  have hlookup : lookupName i (levels i (maxDepth - 1)) g (g.textOf callee) callee .callable =
      candidates := by
    rw [hname]
    exact hcandidates callee hlocal hreceivers
  rw [call_of_access hcall.kind hcall.inside hchild (.inl ⟨hkind, rfl⟩), hcall.counted, hlookup,
    calleeOf]
  simp only [Bool.or_false]
  rfl

section Calls

variable {i : Index} (hi : i.Consistent) {f : SourceFile} {name : String} (hne : name ≠ "")
  (hdeclared : i.DeclaredIn f name) {arguments : Nat}
include hi hne hdeclared

theorem call_inside {n : Node} (hn : BareCall i f name arguments n) :
    (ofIndex i f).call n = .ok ((calledInside i f name arguments).map Call.ofSymbol) :=
  call_of_bareCall hn fun _ hlocal hreceivers =>
    lookupName_inside hi hdeclared hne hlocal hreceivers rfl

theorem call_outside {g : SourceFile} {n : Node} (hsees : Sees i f name g)
    (hn : BareCall i g name arguments n) :
    (ofIndex i g).call n = .ok ((calledOutside i f name arguments).map Call.ofSymbol) :=
  call_of_bareCall hn fun _ hlocal hreceivers =>
    lookupName_outside hi hdeclared hne hlocal hreceivers hsees

end Calls

end Answers

end Crossref
