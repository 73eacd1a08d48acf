import Crossref.Proofs.Kotlin.Constructors
import Crossref.Proofs.Resolve.Tiers
import Crossref.Proofs.Tree.Spans

/-!
# Proofs — resolution — calls of a class and of functions with its name

Inside the file of its declarations a name leads to the functions, and to the constructors of a
class only if there is no function.  Outside it leads to all of them, and the number of arguments
decides.  So a call has the same callee everywhere unless the constructors make a difference: where
only a class has the name they never do, and next to functions they do when outside one of them is
called.

* `Answers.call_alike_iff`: when a call has the same callee inside and outside.
-/

namespace Crossref

/-- A class has the name and no function does; the class's constructors are known by its qualified
name. -/
structure Index.OnlyClass (i : Index) (name : String) (c : Symbol) : Prop where
  indexed : c ∈ i.symbols
  named : c.name = name
  isClass : Kotlin.IsClass c
  only : ∀ s ∈ i.symbols, s.name = name →
    s.kind.isCallable = false ∧ (s.kind.isClassifier = true → s = c)
  constructors : ∀ s ∈ i.symbols, s.kind = .constructor → s.parent = some c.handle →
    s.qualifiedName = c.qualifiedName

namespace Resolve

section Constructors

variable {i : Index} {f : SourceFile} {name : String} (hdeclared : i.DeclaredIn f name)
include hdeclared

/-- What has the name has the qualified name. -/
theorem qualified_of_named : ∀ s ∈ i.symbols, (s.name == name) = true →
    (s.qualifiedName == some (f.qualify name)) = true := by
  intro s hs hname
  rw [beq_iff_eq] at hname ⊢
  exact (hdeclared.atTop s hs hname).2

/-- What has only the qualified name is a constructor. -/
theorem constructor_of_qualified : ∀ s ∈ i.symbols,
    (s.qualifiedName == some (f.qualify name)) = true → (s.name == name) = false →
      s.kind = .constructor := by
  intro s hs hqualified hname
  rw [beq_iff_eq] at hqualified
  exact (hdeclared.own s hs hqualified).2.resolve_left (beq_eq_false_iff_ne.1 hname)

variable (hi : i.Reachable)
include hi

theorem calledInside_eq (arguments : Nat) : calledInside i f name arguments =
    chooseCallable i (levels i maxDepth) (i.symbols.filter (·.name == name)) arguments := by
  rw [calledInside, inFile_own hi.consistent hdeclared]

omit hdeclared in
theorem calledOutside_eq (arguments : Nat) : calledOutside i f name arguments =
    chooseCallable i (levels i maxDepth)
      (i.symbols.filter (·.qualifiedName == some (f.qualify name))) arguments := by
  rw [calledOutside, qualified_eq_filter hi.consistent]

variable (hf : f ∈ i.files) (hkotlin : f.language = .kotlin) {c : Symbol}
  (hclass : i.OnlyClass name c)
include hf hkotlin hclass

/-- Where a class alone has the name, what is called by the qualified name are its constructors. -/
theorem qualified_callable_iff {s : Symbol} (hs : s ∈ i.symbols) :
    s.kind.isCallable = true ∧ s.qualifiedName = some (f.qualify name) ↔
      s.kind = .constructor ∧ s.parent = some c.handle := by
  have hc := hdeclared.atTop c hclass.indexed hclass.named
  constructor
  · rintro ⟨hcallable, hqualified⟩
    obtain ⟨hfile, hname | hkind⟩ := hdeclared.own s hs hqualified
    · rw [(hclass.only s hs hname).1] at hcallable
      cases hcallable
    refine ⟨hkind, ?_⟩
    -- the constructor is one of a class of the file with the same qualified name, which is `c`
    obtain ⟨g, hg, hsg⟩ := hi.consistent.sourced s hs
    obtain ⟨-, -, -, hgfile⟩ := SourceFile.exists_place hsg
    obtain rfl : g = f := Option.some.inj ((hi.consistent.file?_id hg).symm.trans
      (by rw [← hgfile, hfile]; exact hi.consistent.file?_id hf))
    have hsymbols : g.symbols = Kotlin.symbols g := by rw [SourceFile.symbols, hkotlin]
    rw [hsymbols] at hsg
    obtain ⟨d, hd, hdclass, hparent, hdqualified⟩ :=
      Kotlin.owned_of_mem_symbols hsg hkind (by simp [hqualified])
    have hdmem := hi.mem_symbols g hf d (hsymbols ▸ hd)
    rcases (hdeclared.own d hdmem (hdqualified ▸ hqualified)).2 with hdname | hdkind
    · rw [hparent, (hclass.only d hdmem hdname).2 hdclass.1]
    · have hclassifier := hdclass.1
      rw [hdkind] at hclassifier
      cases hclassifier
  · rintro ⟨hkind, hparent⟩
    exact ⟨by rw [hkind]; rfl, (hclass.constructors s hs hkind hparent).trans hc.2⟩

/-- Where a class alone has the name, a call has the same callee inside and outside. -/
theorem calledInside_eq_calledOutside (arguments : Nat) :
    calledInside i f name arguments = calledOutside i f name arguments := by
  rw [calledInside_eq hdeclared hi, calledOutside_eq hi]
  refine chooseCallable_eq_of_constructors (qualified_of_named hdeclared)
    (constructor_of_qualified hdeclared) ?_ (c := c) ?_ ?_ arguments
  · refine List.filter_eq_nil_iff.2 fun s hs => ?_
    obtain ⟨hindexed, hname⟩ := List.mem_filter.1 hs
    simp [(hclass.only s hindexed (beq_iff_eq.1 hname)).1]
  · cases hfirst : (i.symbols.filter (·.name == name)).find? (·.kind.isClassifier) with
    | none =>
        have hc : c ∈ i.symbols.filter (·.name == name) :=
          List.mem_filter.2 ⟨hclass.indexed, beq_iff_eq.2 hclass.named⟩
        exact absurd hclass.isClass.1 (List.find?_eq_none.1 hfirst c hc)
    | some d =>
        obtain ⟨hindexed, hname⟩ := List.mem_filter.1 (List.mem_of_find?_eq_some hfirst)
        have hclassifier := List.find?_some hfirst
        rw [(hclass.only d hindexed (beq_iff_eq.1 hname)).2 hclassifier]
  · rw [constructorsOf_eq_filter hi.consistent _ hclass.isClass.2, List.filter_filter]
    refine List.filter_congr fun s hs => ?_
    have hiff := qualified_callable_iff hdeclared hi hf hkotlin hclass hs
    rw [Bool.eq_iff_iff]
    simpa using hiff

end Constructors

end Resolve

namespace Answers

open Resolve

/-- **A call of a name inside and outside the file of its declarations.**  Inside, the callee is one
of the symbols with the name; outside, whether the package or an import leads to the name, it is
one of the symbols with the qualified name.  The two are the same exactly if each can be called on
the other side, too: where functions have the name, if outside no constructor is called; and
always where only a class has it. -/
theorem call_alike_iff {i : Index} (hi : i.Reachable) {f : SourceFile} (hf : f ∈ i.files)
    (hkotlin : f.language = .kotlin) {name : String} (hne : name ≠ "")
    (hdeclared : i.DeclaredIn f name) (arguments : Nat) :
    (∀ n, BareCall i f name arguments n →
      (ofIndex i f).call n = .ok ((calledInside i f name arguments).map Call.ofSymbol)) ∧
    (∀ g, Sees i f name g → ∀ n, BareCall i g name arguments n →
      (ofIndex i g).call n = .ok ((calledOutside i f name arguments).map Call.ofSymbol)) ∧
    (calledInside i f name arguments = calledOutside i f name arguments ↔
      (∀ s, calledInside i f name arguments = some s → ∃ m, calledOutside i f name m = some s) ∧
      ∀ s, calledOutside i f name arguments = some s → ∃ m, calledInside i f name m = some s) ∧
    ((∃ s ∈ i.symbols, s.name = name ∧ s.kind.isCallable = true) →
      (calledInside i f name arguments = calledOutside i f name arguments ↔
        ∀ s, calledOutside i f name arguments = some s → s.name = name)) ∧
    ((∃ c, i.OnlyClass name c) →
      calledInside i f name arguments = calledOutside i f name arguments) := by
  have hinside := calledInside_eq hdeclared hi
  have houtside : ∀ m, calledOutside i f name m = _ := calledOutside_eq hi
  have hsub := qualified_of_named hdeclared
  refine ⟨fun n hn => call_inside hi.consistent hne hdeclared hn,
    fun g hsees n hn => call_outside hi.consistent hne hdeclared hsees hn, ?_, ?_, ?_⟩
  · simp only [hinside, houtside]
    exact chooseCallable_eq_iff hi.consistent hsub (constructor_of_qualified hdeclared) arguments
  · rintro ⟨s, hs, hname, hcallable⟩
    simp only [hinside, houtside]
    have hmem : s ∈ i.symbols.filter (·.name == name) :=
      List.mem_filter.2 ⟨hs, beq_iff_eq.2 hname⟩
    rw [chooseCallable_eq_iff_of_callables hsub
      (List.ne_nil_of_mem (List.mem_filter.2 ⟨hmem, hcallable⟩))]
    simp only [beq_iff_eq]
  · rintro ⟨c, hclass⟩
    exact calledInside_eq_calledOutside hdeclared hi hf hkotlin hclass arguments

end Answers

/-! ### A class and a function with the same name -/

namespace Overloaded

/-- ```
package p
class N(val a: Int)
fun N(a: Int, b: Int) = 1
fun f() = N(1)
fun g() = N(1, 2)
``` -/
def declaringText : String :=
  "package p\nclass N(val a: Int)\nfun N(a: Int, b: Int) = 1\nfun f() = N(1)\nfun g() = N(1, 2)\n"

/-- ```
package p
fun h() = N(1)
fun k() = N(1, 2)
``` -/
def packageText : String := "package p\nfun h() = N(1)\nfun k() = N(1, 2)\n"

/-- `package q`, `import p.N`, and the two functions of the other file. -/
def importingText : String := "package q\nimport p.N\nfun h() = N(1)\nfun k() = N(1, 2)\n"

/-- A name of one letter. -/
def letter (start : Nat) : Tree := .named "simple_identifier" start (start + 1) []

/-- The package of one letter at the beginning of a text. -/
def packageTree : Tree :=
  .named "package_header" 0 9 [.token "package" 0 7, .named "identifier" 8 9 [letter 8]]

/-- `: Int` -/
def typeTree (start : Nat) : List Tree :=
  [.token ":" start (start + 1),
   .named "user_type" (start + 2) (start + 5)
    [.named "type_identifier" (start + 2) (start + 5) []]]

def argumentTree (start : Nat) : Tree :=
  .named "value_argument" start (start + 1) [.named "integer_literal" start (start + 1) []]

/-- A call of a name of one letter. -/
def callTree (start stop : Nat) (arguments : List Tree) : Tree :=
  .named "call_expression" start stop
    [letter start,
     .named "call_suffix" (start + 1) stop
      [.named "value_arguments" (start + 1) stop
        (.token "(" (start + 1) (start + 2) :: arguments ++ [.token ")" (stop - 1) stop])]]

/-- A function whose value is given. -/
def functionTree (start value stop : Nat) (parameters : List Tree) (body : Tree) : Tree :=
  .named "function_declaration" start stop
    [.token "fun" start (start + 3), letter (start + 4),
     .named "function_value_parameters" (start + 5) (value - 3)
      (.token "(" (start + 5) (start + 6) :: parameters ++ [.token ")" (value - 4) (value - 3)]),
     .named "function_body" (value - 2) stop [.token "=" (value - 2) (value - 1), body]]

/-- A function that makes a call with one argument, and a function that makes one with two. -/
def callingTrees (start : Nat) : List Tree :=
  [functionTree start (start + 10) (start + 14) []
    (callTree (start + 10) (start + 14) [argumentTree (start + 12)]),
   functionTree (start + 15) (start + 25) (start + 32) []
    (callTree (start + 25) (start + 32)
      [argumentTree (start + 27), .token "," (start + 28) (start + 29),
       argumentTree (start + 30)])]

def parameterTree (start : Nat) : Tree :=
  .named "parameter" start (start + 6) (letter start :: typeTree (start + 1))

def classTree : Tree :=
  .named "class_declaration" 10 29
    [.token "class" 10 15, .named "type_identifier" 16 17 [],
     .named "primary_constructor" 17 29
      [.token "(" 17 18,
       .named "class_parameter" 18 28
        (.named "binding_pattern_kind" 18 21 [.token "val" 18 21] :: letter 22 :: typeTree 23),
       .token ")" 28 29]]

def declaringTree : Tree :=
  .named "source_file" 0 89
    (packageTree :: classTree ::
      functionTree 30 54 55 [parameterTree 36, .token "," 42 43, parameterTree 44]
        (.named "integer_literal" 54 55 []) ::
      callingTrees 56)

def packageFileTree : Tree := .named "source_file" 0 43 (packageTree :: callingTrees 10)

def importingTree : Tree :=
  .named "source_file" 0 54
    (packageTree ::
      .named "import_list" 10 20
        [.named "import_header" 10 20
          [.token "import" 10 16,
           .named "identifier" 17 20 [letter 17, .token "." 18 19, letter 19]]] ::
      callingTrees 21)

def given : List ParsedText :=
  [⟨⟨"/p/a.kt"⟩, declaringText, declaringTree⟩, ⟨⟨"/p/b.kt"⟩, packageText, packageFileTree⟩,
   ⟨⟨"/p/c.kt"⟩, importingText, importingTree⟩]

def index : Index := Project.indexOf ⟨"/p"⟩ {} given

def file (id : Fin given.length) : SourceFile :=
  Project.sourceFile ⟨"/p"⟩ {} id .kotlin (given.get id)

/-- The file that declares the name. -/
def declaring : SourceFile := file ⟨0, by decide⟩

/-- Another file of the package. -/
def inPackage : SourceFile := file ⟨1, by decide⟩

/-- A file that imports the name. -/
def importing : SourceFile := file ⟨2, by decide⟩

/-- The calls of a file, in their order. -/
def calls (f : SourceFile) : List Node := f.top.preorder.filter (·.kind == "call_expression")

def oneArgument (f : SourceFile) : Node := (calls f).headD f.top

def twoArguments (f : SourceFile) : Node := (calls f).getLastD f.top

theorem reachable : index.Reachable := .built _ _ _

theorem declaring_mem : declaring ∈ index.files := List.mem_of_getElem? (i := 0) rfl

/-- What the files declare and see, and the calls in them. -/
theorem written : index.DeclaredIn declaring "N" ∧
    (Resolve.Sees index declaring "N" inPackage ∧ Resolve.Sees index declaring "N" importing) ∧
    ∀ f ∈ [declaring, inPackage, importing], Resolve.BareCall index f "N" 1 (oneArgument f) ∧
      Resolve.BareCall index f "N" 2 (twoArguments f) := by
  decide +kernel

theorem declaredIn : index.DeclaredIn declaring "N" := written.1

theorem sees : Resolve.Sees index declaring "N" inPackage ∧
    Resolve.Sees index declaring "N" importing := written.2.1

theorem bareCalls : ∀ f ∈ [declaring, inPackage, importing],
    Resolve.BareCall index f "N" 1 (oneArgument f) ∧
      Resolve.BareCall index f "N" 2 (twoArguments f) := written.2.2

/-- The names of the symbols that calls with one argument and with two lead to. -/
theorem name_calledOutside :
    (Resolve.calledOutside index declaring "N" 1).map (·.name) = some "<init>" ∧
      (Resolve.calledOutside index declaring "N" 2).map (·.name) = some "N" := by
  rw [Resolve.calledOutside_eq reachable, Resolve.calledOutside_eq reachable]
  decide +kernel

theorem name_calledInside :
    (Resolve.calledInside index declaring "N" 1).map (·.name) = some "N" := by
  rw [Resolve.calledInside_eq declaredIn reachable]
  decide +kernel

end Overloaded

open Overloaded in
/-- With two arguments the function is called inside and outside. -/
theorem Answers.call_alike_iff_twoArguments :
    (index.Reachable ∧ declaring ∈ index.files ∧ declaring.language = .kotlin ∧ "N" ≠ "" ∧
      index.DeclaredIn declaring "N") ∧
    (Answers.ofIndex index declaring).call (twoArguments declaring) =
      (Answers.ofIndex index inPackage).call (twoArguments inPackage) ∧
    (Answers.ofIndex index declaring).call (twoArguments declaring) =
      (Answers.ofIndex index importing).call (twoArguments importing) := by
  obtain ⟨hinside, houtside, -, hfunction, -⟩ :=
    Answers.call_alike_iff reachable declaring_mem rfl (by decide) declaredIn 2
  have halike : Resolve.calledInside index declaring "N" 2 =
      Resolve.calledOutside index declaring "N" 2 := by
    refine (hfunction (by decide +kernel)).2 fun s hs => ?_
    have hname := name_calledOutside.2
    rw [hs] at hname
    exact Option.some.inj hname
  refine ⟨⟨reachable, declaring_mem, rfl, by decide, declaredIn⟩, ?_, ?_⟩
  · rw [hinside _ (bareCalls _ (by simp)).2, houtside _ sees.1 _ (bareCalls _ (by simp)).2, halike]
  · rw [hinside _ (bareCalls _ (by simp)).2, houtside _ sees.2 _ (bareCalls _ (by simp)).2, halike]

open Overloaded in
/-- With one argument the constructor is called outside, and inside the function, which takes
two. -/
theorem Answers.call_apart_oneArgument :
    index.Reachable ∧ declaring ∈ index.files ∧ index.DeclaredIn declaring "N" ∧
    Resolve.Sees index declaring "N" inPackage ∧ Resolve.Sees index declaring "N" importing ∧
    Resolve.BareCall index declaring "N" 1 (oneArgument declaring) ∧
    Resolve.BareCall index inPackage "N" 1 (oneArgument inPackage) ∧
    Resolve.BareCall index importing "N" 1 (oneArgument importing) ∧
    (Answers.ofIndex index declaring).call (oneArgument declaring) ≠
      (Answers.ofIndex index inPackage).call (oneArgument inPackage) ∧
    (Answers.ofIndex index declaring).call (oneArgument declaring) ≠
      (Answers.ofIndex index importing).call (oneArgument importing) := by
  have hdeclaring := (bareCalls declaring (by simp)).1
  have hpackage := (bareCalls inPackage (by simp)).1
  have himporting := (bareCalls importing (by simp)).1
  have hinside := Answers.call_inside reachable.consistent (by decide) declaredIn hdeclaring
  have hthere := Answers.call_outside reachable.consistent (by decide) declaredIn sees.1 hpackage
  have hbehind := Answers.call_outside reachable.consistent (by decide) declaredIn sees.2 himporting
  have hapart : (Resolve.calledInside index declaring "N" 1).map Resolve.Call.ofSymbol ≠
      (Resolve.calledOutside index declaring "N" 1).map Resolve.Call.ofSymbol := by
    intro h
    have hnames := congrArg (·.map fun c : Resolve.Call => c.symbol.name) h
    simp only [Option.map_map] at hnames
    exact absurd (name_calledInside.symm.trans (hnames.trans name_calledOutside.1)) (by decide)
  refine ⟨reachable, declaring_mem, declaredIn, sees.1, sees.2, hdeclaring, hpackage, himporting,
    fun h => hapart ?_, fun h => hapart ?_⟩
  · rw [hinside, hthere] at h
    exact Except.ok.inj h
  · rw [hinside, hbehind] at h
    exact Except.ok.inj h

end Crossref
