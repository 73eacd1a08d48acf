import Crossref.Proofs.Resolve.Local
import Crossref.Proofs.SourceFile.Keys
import Crossref.Project

/-!
# Proofs — resolution — local bindings in their scopes

A name that a construct binds is visible in a part of it: behind the statement that binds it, in
the body of a loop, in the header, the initializer blocks and the initializers of a class, and all
over the construct otherwise.  The way up from a use asks each construct what it binds, but it does
not ask from which part it came, a block apart.  So the variable of a loop is found from the
expression that is iterated over, too, and the parameter of a constructor from the functions of the
class.

* `exists_inScope`: what a construct other than a loop or a class gives is given in its scope.
* `localBindings_scoped`: everything that is bound is found in its scope, but the variables of loops
  and the parameters of constructors are found wherever in the construct the use is.
-/

namespace Crossref.Resolve
open Node

/-! ### Scopes -/

/-- The parts of a member in which the parameters of the constructor are visible: all of an
initializer block, the delegate of a property, and its initializer. -/
def initialPartsOf (member : Node) : List Node :=
  match member.kind with
  | "anonymous_initializer" => [member]
  | "property_declaration" =>
    member.childrenOfKind "property_delegate" ++
      (member.children.dropWhile (·.kind != "=")).filter fun part => !Kotlin.isAccessor part
  | _ => []

/-- The parts of a class in which the parameters of its constructor are visible: the header, and
some of the members. -/
def initialParts (cls : Node) : List Node :=
  let isBody (c : Node) : Bool := ["class_body", "enum_class_body"].contains c.kind
  cls.children.filter (fun c => !isBody c) ++
    (cls.children.filter isBody).flatMap fun body => body.children.flatMap initialPartsOf

/-- The parts of a construct in which the names that it binds are visible. -/
def visibleParts (scope : Node) : List Node :=
  match scope.kind with
  | "for_statement" => scope.childrenOfKind "control_structure_body"
  | "class_declaration" => initialParts scope
  | _ => [scope]

/-- The place is in the scope of a name that `scope` binds at the binder: in a visible part, and in
a block behind the statement that binds it. -/
structure InScope (scope binder n : Node) : Prop where
  visible : ∃ part ∈ visibleParts scope, Below part n
  behind : scope.kind = "statements" → binder.stop ≤ n.start

/-- The constructs in which a name is not visible all over. -/
def partialScopes : List String := ["for_statement", "class_declaration"]

theorem visibleParts_eq {scope : Node} (h : scope.kind ∉ partialScopes) :
    visibleParts scope = [scope] := by
  unfold visibleParts
  split
  · next hk => exact absurd hk fun hk => h (by simp [partialScopes, hk])
  · next hk => exact absurd hk fun hk => h (by simp [partialScopes, hk])
  · rfl

theorem below_of_mem_initialPartsOf {member part : Node} (h : part ∈ initialPartsOf member) :
    Below member part := by
  unfold initialPartsOf at h
  split at h
  · obtain rfl := List.mem_singleton.1 h
    exact .refl
  · rcases List.mem_append.1 h with h | h
    · exact .of_mem_children (mem_childrenOfKind_iff.1 h).1
    · exact .of_mem_children ((List.dropWhile_sublist _).subset (List.mem_filter.1 h).1)
  · cases h

theorem below_of_mem_visibleParts {scope part : Node} (h : part ∈ visibleParts scope) :
    Below scope part := by
  unfold visibleParts at h
  split at h
  · exact .of_mem_children (mem_childrenOfKind_iff.1 h).1
  · rcases List.mem_append.1 h with h | h
    · exact .of_mem_children (List.mem_filter.1 h).1
    · obtain ⟨body, hbody, h⟩ := List.mem_flatMap.1 h
      obtain ⟨member, hmember, h⟩ := List.mem_flatMap.1 h
      exact ((Below.of_mem_children (List.mem_filter.1 hbody).1).child hmember).trans
        (below_of_mem_initialPartsOf h)
  · obtain rfl := List.mem_singleton.1 h
    exact .refl

/-- A place that no visible part spans is not in scope. -/
theorem not_inScope {f : SourceFile} (hf : f.tree.WellFormed) {scope binder n : Node}
    (hscope : Within f.tree scope)
    (h : ∀ part ∈ visibleParts scope, ¬ (part.start ≤ n.start ∧ n.stop ≤ part.stop)) :
    ¬ InScope scope binder n := by
  rintro ⟨⟨part, hpart, hbelow⟩, -⟩
  exact h part hpart (hf.span_le ((below_of_mem_visibleParts hpart).within hscope) hbelow)

/-- What a block binds is bound by one of its declarations. -/
theorem Binds.of_statements {f : SourceFile} {name : String} {scope binder : Node} {s : Symbol}
    (h : Binds f name scope binder s) (hk : scope.kind = "statements") :
    binder ∈ scope.children ∧ binder.kind ∈ ["property_declaration", "function_declaration"] := by
  cases h with
  | single _ hs hkind _ _ => exact ⟨hs, by simp [hkind]⟩
  | component _ hs hkind _ _ _ => exact ⟨hs, by simp [hkind]⟩
  | function _ hs hkind _ => exact ⟨hs, by simp [hkind]⟩
  | lambdaParameter h _ _ _ => exact absurd (hk.symm.trans h) (by decide)
  | implicitParameter h _ _ => exact absurd (hk.symm.trans h) (by decide)
  | parameter h _ _ => exact absurd (hk ▸ h) (by decide)
  | loopVariable h _ _ => exact absurd (hk.symm.trans h) (by decide)
  | caught h _ _ => exact absurd (hk.symm.trans h) (by decide)
  | setterParameter h _ _ => exact absurd (hk.symm.trans h) (by decide)
  | constructorParameter h _ _ _ => exact absurd (hk.symm.trans h) (by decide)

/-! ### The way up -/

/-- The way up from the current node comes to the scope before anything is bound. -/
inductive ReachedFrom (f : SourceFile) (name : String) (scope : Node) :
    Node → List Node → Prop where
  | here {current : Node} {above : List Node} : ReachedFrom f name scope current (scope :: above)
  | up {current nearer : Node} {above : List Node}
      (hnone : scopeBindings f name nearer current = [])
      (h : ReachedFrom f name scope nearer above) :
      ReachedFrom f name scope current (nearer :: above)

/-- The scope stands above the node, and no scope between them binds the name. -/
def Reaches (f : SourceFile) (name : String) (n scope : Node) : Prop :=
  ReachedFrom f name scope n n.ancestors

/-- The node above a place is its parent. -/
theorem parent_of_ancestors_eq {t : Tree} {c p : Node} {above : List Node} (hc : Within t c)
    (h : c.ancestors = p :: above) : Within t p ∧ c ∈ p.children ∧ p.ancestors = above := by
  cases hc with
  | top => cases h
  | @child m _ hm hmc =>
      rw [ancestors_of_mem_children hmc] at h
      obtain ⟨rfl, rfl⟩ := List.cons.inj h
      exact ⟨hm, hmc, rfl⟩

/-- Induction over the way up: what is found is given by the scope that it reaches, for the child
that it comes from. -/
theorem exists_reachedFrom {f : SourceFile} {name : String} {s : Symbol} :
    ∀ {above : List Node} {current : Node}, Within f.tree current → current.ancestors = above →
      s ∈ bindingsAbove f name current above →
      ∃ scope child, ReachedFrom f name scope current above ∧ Within f.tree scope ∧
        child ∈ scope.children ∧ Below child current ∧ s ∈ scopeBindings f name scope child
  | [], _, _, _, h => by cases h
  | nearer :: above, current, hc, habove, h => by
      obtain ⟨hnearer, hchild, hup⟩ := parent_of_ancestors_eq hc habove
      rw [bindingsAbove] at h
      split at h
      · next hnone =>
        obtain ⟨scope, child, hreached, hscope, hmem, hbelow, hs⟩ :=
          exists_reachedFrom hnearer hup h
        exact ⟨scope, child, .up hnone hreached, hscope, hmem, hbelow.child hchild, hs⟩
      · exact ⟨nearer, current, .here, hnearer, hchild, .refl, h⟩

/-- A scope that is reached and gives something for every place decides. -/
theorem mem_bindingsAbove_of_reachedFrom {f : SourceFile} {name : String} {scope current : Node}
    {above : List Node} {s : Symbol} (h : ReachedFrom f name scope current above)
    (hs : ∀ child, s ∈ scopeBindings f name scope child) :
    s ∈ bindingsAbove f name current above := by
  induction h with
  | here =>
      rw [bindingsAbove]
      split
      · next hnone => exact absurd (hnone ▸ hs _) List.not_mem_nil
      · exact hs _
  | up hnone _ ih =>
      rw [bindingsAbove, hnone]
      exact ih

/-! ### What is found is in scope -/

/-- What a construct other than a loop or a class gives for one of its children is visible in that
child: in a block, the statement that binds it ends before the child begins. -/
theorem exists_inScope {f : SourceFile} (hf : f.tree.WellFormed) {name : String}
    {scope child n : Node} {s : Symbol} (hscope : Within f.tree scope)
    (hchild : child ∈ scope.children) (hn : Below child n) (hk : scope.kind ∉ partialScopes)
    (h : s ∈ scopeBindings f name scope child) :
    ∃ binder, Binds f name scope binder s ∧ InScope scope binder n := by
  have hvisible : ∃ part ∈ visibleParts scope, Below part n := by
    rw [visibleParts_eq hk]
    exact ⟨scope, List.mem_singleton_self _, (Below.of_mem_children hchild).trans hn⟩
  by_cases hblock : scope.kind = "statements"
  · simp only [scopeBindings, hblock] at h
    obtain ⟨statement, hmem, hstart, hbinds⟩ := exists_binds_of_mem_blockBindings hblock h
    refine ⟨statement, hbinds, hvisible, fun _ => ?_⟩
    have hbefore : statement.stop ≤ child.start := by
      rcases split_of_mem_of_ne hmem hchild (fun e => Nat.lt_irrefl _ (e ▸ hstart)) with
        ⟨_, _, _, hs⟩ | ⟨_, _, _, hs⟩
      · exact hf.children_apart hscope hs
      · -- a statement behind the child does not begin before it
        have hapart := hf.children_apart hscope hs
        have hspan := hf.start_le_stop (.child hscope hchild)
        omega
    exact Nat.le_trans hbefore (hf.span_le (.child hscope hchild) hn).1
  · obtain ⟨binder, hbinds⟩ := exists_binds_of_mem_scopeBindings h
    exact ⟨binder, hbinds, hvisible, fun e => absurd e hblock⟩

/-- **Local bindings and their scopes.**  Everything that is found is bound by a scope around the
use, the first on the way up that binds the name, and the use is in its scope, unless the construct
is a loop or a class.  These do not ask where in them the use is: everything that a construct other
than a block binds is found from all over it, where nothing nearer binds the name. -/
theorem localBindings_scoped {f : SourceFile} (hf : f.tree.WellFormed) {n : Node}
    (hn : Within f.tree n) (name : String) :
    (∀ s ∈ localBindings f name n, ∃ scope ∈ n.ancestors, ∃ binder,
      Reaches f name n scope ∧ Binds f name scope binder s ∧
        (InScope scope binder n ∨ scope.kind ∈ partialScopes)) ∧
    ∀ scope, Reaches f name n scope → scope.kind ≠ "statements" →
      ∀ binder s, Binds f name scope binder s → s ∈ localBindings f name n := by
  refine ⟨fun s hs => ?_, fun scope hreaches hblock binder s hbinds => ?_⟩
  · obtain ⟨scope, child, hreached, hscope, hchild, hbelow, hgiven⟩ :=
      exists_reachedFrom hn rfl hs
    have habove : scope ∈ n.ancestors := mem_ancestors_of_below hchild hbelow
    by_cases hk : scope.kind ∈ partialScopes
    · obtain ⟨binder, hbinds⟩ := exists_binds_of_mem_scopeBindings hgiven
      exact ⟨scope, habove, binder, hreached, hbinds, .inr hk⟩
    · obtain ⟨binder, hbinds, hin⟩ := exists_inScope hf hscope hchild hbelow hk hgiven
      exact ⟨scope, habove, binder, hreached, hbinds, .inl hin⟩
  · exact mem_bindingsAbove_of_reachedFrom hreaches fun _ =>
      (mem_scopeBindings_iff hblock).2 ⟨binder, hbinds⟩

/-! ### A parameter and a loop variable with one name -/

namespace Shadowed

/-- ```
class A(x: IntArray) {
    val y = x
    fun f() = x
    fun g(x: IntArray) { for (x in x) x }
}
``` -/
def text : String :=
  "class A(x: IntArray) \x7b\n    val y = x\n    fun f() = x\n" ++
    "    fun g(x: IntArray) \x7b for (x in x) x \x7d\n\x7d\n"

/-- A name of one letter. -/
def nameTree (start : Nat) : Tree := .named "simple_identifier" start (start + 1) []

/-- `x: IntArray` -/
def declarationTree (kind : String) (start : Nat) : Tree :=
  .named kind start (start + 11)
    [nameTree start, .token ":" (start + 1) (start + 2),
     .named "user_type" (start + 3) (start + 11)
      [.named "type_identifier" (start + 3) (start + 11) []]]

def loopTree : Tree :=
  .named "for_statement" 78 92
    [.token "for" 78 81, .token "(" 82 83, .named "variable_declaration" 83 84 [nameTree 83],
     .token "in" 85 87, nameTree 88, .token ")" 89 90,
     .named "control_structure_body" 91 92 [nameTree 91]]

def tree : Tree :=
  .named "source_file" 0 97
    [.named "class_declaration" 0 96
      [.token "class" 0 5, .named "type_identifier" 6 7 [],
       .named "primary_constructor" 7 20
        [.token "(" 7 8, declarationTree "class_parameter" 8, .token ")" 19 20],
       .named "class_body" 21 96
        [.token "\x7b" 21 22,
         .named "property_declaration" 27 36
          [.named "binding_pattern_kind" 27 30 [.token "val" 27 30],
           .named "variable_declaration" 31 32 [nameTree 31], .token "=" 33 34, nameTree 35],
         .named "function_declaration" 41 52
          [.token "fun" 41 44, nameTree 45,
           .named "function_value_parameters" 46 48 [.token "(" 46 47, .token ")" 47 48],
           .named "function_body" 49 52 [.token "=" 49 50, nameTree 51]],
         .named "function_declaration" 57 94
          [.token "fun" 57 60, nameTree 61,
           .named "function_value_parameters" 62 75
            [.token "(" 62 63, declarationTree "parameter" 63, .token ")" 74 75],
           .named "function_body" 76 94
            [.token "\x7b" 76 77, .named "statements" 78 92 [loopTree], .token "\x7d" 93 94]],
         .token "\x7d" 95 96]]]

def file : SourceFile := Project.sourceFile ⟨"/p"⟩ {} 0 .kotlin ⟨⟨"/p/a.kt"⟩, text, tree⟩

/-- The nodes of a kind that begin at a byte. -/
def nodesAt (kind : String) (b : Nat) : List Node :=
  file.top.preorder.filter fun n => n.kind == kind && n.start == b

/-- The constructor's parameter `x`. -/
def parameter : Node := (nodesAt "class_parameter" 8).head (by decide +kernel)

/-- The variable of the loop. -/
def loopVariable : Node := (nodesAt "variable_declaration" 83).head (by decide +kernel)

/-- `x` in the initializer of `y`. -/
def inInitializer : Node := (nodesAt "simple_identifier" 35).head (by decide +kernel)

/-- `x` in the function `f`. -/
def inFunction : Node := (nodesAt "simple_identifier" 51).head (by decide +kernel)

/-- The `x` that the loop goes over. -/
def iterated : Node := (nodesAt "simple_identifier" 88).head (by decide +kernel)

theorem wellFormed : file.tree.WellFormed := by decide +kernel

theorem within {kind : String} {b : Nat} (h : nodesAt kind b ≠ []) :
    Within file.tree ((nodesAt kind b).head h) :=
  within_iff_mem_preorder.2 (List.mem_filter.1 (List.head_mem h)).1

/-- No construct around the place that binds the symbol has the place in its scope: a block has no
declarations, and the visible parts of the constructs that give the symbol do not span the place. -/
def OutOfScope (s : Symbol) (n : Node) : Prop :=
  ∀ scope ∈ n.ancestors,
    (scope.kind = "statements" →
      ∀ c ∈ scope.children, c.kind ∉ ["property_declaration", "function_declaration"]) ∧
    (scope.kind ≠ "statements" → s ∈ scopeBindings file "x" scope n →
      ∀ part ∈ visibleParts scope, ¬ (part.start ≤ n.start ∧ n.stop ≤ part.stop))

instance (s : Symbol) (n : Node) : Decidable (OutOfScope s n) :=
  inferInstanceAs (Decidable (∀ scope ∈ n.ancestors, _))

theorem OutOfScope.not_inScope {s : Symbol} {n : Node} (h : OutOfScope s n)
    (hn : Within file.tree n) :
    ∀ scope ∈ n.ancestors, ∀ binder, Binds file "x" scope binder s → ¬ InScope scope binder n := by
  intro scope hscope binder hbinds
  by_cases hk : scope.kind = "statements"
  · obtain ⟨hmem, hkind⟩ := hbinds.of_statements hk
    exact absurd hkind ((h scope hscope).1 hk binder hmem)
  · exact Resolve.not_inScope wellFormed (hn.ancestor hscope).1
      ((h scope hscope).2 hk ((mem_scopeBindings_iff hk).2 ⟨binder, hbinds⟩))

theorem found_inInitializer : localBindings file "x" inInitializer =
    [localSymbol file parameter .parameter "x"] := by
  decide +kernel

end Shadowed

open Shadowed in
/-- The parameter is found from the initializer of a property. -/
theorem localBindings_scoped_inInitializer :
    (file.tree.WellFormed ∧ Within file.tree inInitializer) ∧
      ∃ scope ∈ inInitializer.ancestors, ∃ binder,
        Reaches file "x" inInitializer scope ∧
          Binds file "x" scope binder (localSymbol file parameter .parameter "x") ∧
          (InScope scope binder inInitializer ∨ scope.kind ∈ partialScopes) := by
  have hn : Within file.tree inInitializer := within _
  refine ⟨⟨wellFormed, hn⟩, (localBindings_scoped wellFormed hn "x").1 _ ?_⟩
  rw [found_inInitializer]
  exact List.mem_singleton_self _

open Shadowed in
/-- The constructor's parameter is found from a member function, and the variable of a loop from the
expression that the loop goes over; no construct around these uses has them in its scope. -/
theorem localBindings_outOfScope :
    file.tree.WellFormed ∧
    (Within file.tree inFunction ∧
      localSymbol file parameter .parameter "x" ∈ localBindings file "x" inFunction ∧
      ∀ scope ∈ inFunction.ancestors, ∀ binder,
        Binds file "x" scope binder (localSymbol file parameter .parameter "x") →
          ¬ InScope scope binder inFunction) ∧
    (Within file.tree iterated ∧
      localSymbol file loopVariable .localVariable "x" ∈ localBindings file "x" iterated ∧
      ∀ scope ∈ iterated.ancestors, ∀ binder,
        Binds file "x" scope binder (localSymbol file loopVariable .localVariable "x") →
          ¬ InScope scope binder iterated) := by
  have hfunction : OutOfScope (localSymbol file parameter .parameter "x") inFunction := by
    decide +kernel
  have hiterated : OutOfScope (localSymbol file loopVariable .localVariable "x") iterated := by
    decide +kernel
  refine ⟨wellFormed, ⟨within _, by decide +kernel, hfunction.not_inScope (within _)⟩,
    within _, by decide +kernel, hiterated.not_inScope (within _)⟩

end Crossref.Resolve
