import Crossref.Proofs.Resolve.Answers
import Crossref.Proofs.SourceFile.Keys

/-!
# Proofs — resolution — stale symbols

A session reports a symbol as stale when it should stand in the index and does not.  Whatever a
reference leads to is indexed or bound locally, and what is indexed is found again by its handle.
Local variables and parameters are never expected in the index.  That leaves local functions: they
are no locals by their kind and stand in no table, so a reference to one ends in an error.

* `mem_referenced_cases`: what a reference leads to.
* `reference_ok_iff`: a reference is answered exactly if every local function it leads to is
  indexed.
-/

namespace Crossref

open Node

namespace Resolve

/-- The symbol is the one that is made on the spot for a function of the file. -/
def IsLocalFunction (f : SourceFile) (s : Symbol) : Prop :=
  ∃ m name, Within f.tree m ∧ m.kind = "function_declaration" ∧
    Kotlin.declarationName? m f.text = some name ∧ s = localSymbol f m .function name

theorem kind_localSymbol (f : SourceFile) (m : Node) (kind : Symbol.Kind) (name : String) :
    (localSymbol f m kind name).kind = kind := by
  by_cases hk : kind = .function
  · rw [localSymbol, if_pos hk]; rfl
  · rw [localSymbol, if_neg hk]; rfl

/-- What is bound locally is a local by its kind, or a function. -/
theorem isLocal_or_isLocalFunction {f : SourceFile} {name : String} {n : Node} {s : Symbol}
    (hn : Within f.tree n) (h : s ∈ localBindings f name n) :
    s.kind.isLocal = true ∨ IsLocalFunction f s := by
  obtain ⟨m, kind, bound, hm, hbind, rfl⟩ := exists_canBind_of_mem_localBindings hn h
  rcases hbind with hkind | ⟨rfl, hfun, hname⟩
  · exact .inl ((congrArg Symbol.Kind.isLocal (kind_localSymbol f m kind bound)).trans hkind)
  · exact .inr ⟨m, bound, hm, hfun, hname, rfl⟩

theorem origin_localSymbol (f : SourceFile) (m : Node) (kind : Symbol.Kind) (name : String) :
    (localSymbol f m kind name).origin = f.origin := by
  by_cases hk : kind = .function
  · rw [localSymbol, if_pos hk]; rfl
  · rw [localSymbol, if_neg hk]; rfl

/-- **What a reference leads to** is found by its handle, is a local by its kind, or is a local
function. -/
theorem mem_referenced_cases {i : Index} (hi : i.Consistent) {f : SourceFile} {n : Node}
    (hn : Within f.tree n) {height : Nat} {s : Symbol}
    (h : s ∈ Answers.referenced i (levels i height) f n) :
    (i.symbol? s.handle).isSome = true ∨ s.kind.isLocal = true ∨ IsLocalFunction f s := by
  rcases sourced_referenced hi (sourced_levels hi height) hn h with hs | ⟨name, m, hm, hs⟩
  · exact .inl (hi.isSome_symbol? hs)
  · exact .inr (isLocal_or_isLocalFunction hm hs)

end Resolve

namespace Answers

open Resolve

/-- What a reference leads to, whether or not it is answered. -/
def found (i : Index) (f : SourceFile) (n : Node) : List Symbol :=
  referenced i (levels i (maxDepth + 1)) f n

/-- A reference in the file's text is answered unless something it leads to is stale. -/
theorem reference_ofIndex {i : Index} {f : SourceFile} {n : Node}
    (hstop : n.stop ≤ Text.size f.text) :
    (ofIndex i f).reference n =
      match (found i f n).find? (isStale i) with
      | some s => .error (.staleSymbol s.declaration)
      | none => .ok (found i f n) := by
  have hguard : guard f n (fun _ => found i f n) = .ok (found i f n) :=
    if_neg (Nat.not_lt.2 hstop)
  change (guard f n (fun _ => found i f n) >>= _) = _
  rw [hguard]
  rfl

theorem reference_eq_ok_iff {i : Index} {f : SourceFile} {n : Node}
    (hstop : n.stop ≤ Text.size f.text) :
    (ofIndex i f).reference n = .ok (found i f n) ↔
      ∀ s ∈ found i f n, isStale i s = false := by
  rw [reference_ofIndex hstop]
  cases hfind : (found i f n).find? (isStale i) with
  | none => simpa using hfind
  | some s =>
      have hstale : isStale i s = true := List.find?_some hfind
      constructor
      · intro h
        cases h
      · intro h
        rw [h s (List.mem_of_find?_eq_some hfind)] at hstale
        cases hstale

/-- **What is stale**: exactly the local functions that no table holds. -/
theorem isStale_iff {i : Index} (hi : i.Reachable) {f : SourceFile} (hf : f ∈ i.files) {n : Node}
    (hn : Within f.tree n) {s : Symbol} (hs : s ∈ found i f n) :
    isStale i s = true ↔ IsLocalFunction f s ∧ i.symbol? s.handle = none := by
  simp only [isStale, Bool.and_eq_true, bne_iff_ne, Bool.not_eq_true', Option.isNone_iff_eq_none]
  constructor
  · rintro ⟨⟨-, hkind⟩, hnone⟩
    refine ⟨?_, hnone⟩
    rcases mem_referenced_cases hi.consistent hn hs with h | h | h
    · simp [hnone] at h
    · simp [hkind] at h
    · exact h
  · rintro ⟨⟨m, name, -, -, -, rfl⟩, hnone⟩
    refine ⟨⟨?_, ?_⟩, hnone⟩
    · rw [origin_localSymbol]
      exact hi.origin_ne f hf
    · rw [kind_localSymbol]
      rfl

/-- **A reference is answered exactly if every local function it leads to is indexed.**  Whatever
else it leads to is local by its kind or found again by its handle; and where there is no answer,
the error is that a local function is stale. -/
theorem reference_ok_iff {i : Index} (hi : i.Reachable) {f : SourceFile} (hf : f ∈ i.files)
    (hw : f.WellFormed) {n : Node} (hn : Within f.tree n) :
    (∀ s ∈ found i f n, ¬ IsLocalFunction f s →
      s.kind.isLocal = true ∨ (i.symbol? s.handle).isSome = true) ∧
    ((ofIndex i f).reference n = .ok (found i f n) ↔
      ∀ s ∈ found i f n, IsLocalFunction f s → (i.symbol? s.handle).isSome = true) ∧
    ∀ e, (ofIndex i f).reference n = .error e →
      ∃ s ∈ found i f n, IsLocalFunction f s ∧ i.symbol? s.handle = none ∧
        e = .staleSymbol s.declaration := by
  have hstop : n.stop ≤ Text.size f.text :=
    Nat.le_trans (hw.tree.span_le .top (within_iff_below.1 hn)).2 hw.inText
  refine ⟨fun s hs hlocal => ?_, ?_, fun e he => ?_⟩
  · rcases mem_referenced_cases hi.consistent hn hs with h | h | h
    · exact .inr h
    · exact .inl h
    · exact absurd h hlocal
  · rw [reference_eq_ok_iff hstop]
    refine forall₂_congr fun s hs => ?_
    rw [← Bool.not_eq_true, isStale_iff hi hf hn hs, ← Option.not_isSome_iff_eq_none]
    exact Decidable.not_and_not_right
  · rw [reference_ofIndex hstop] at he
    split at he
    · next s hfind =>
      have hs := List.mem_of_find?_eq_some hfind
      obtain ⟨hlocal, hnone⟩ := (isStale_iff hi hf hn hs).1 (List.find?_some hfind)
      exact ⟨s, hs, hlocal, hnone, (Except.error.inj he).symm⟩
    · cases he

end Answers

/-! ### A reference to a local function -/

namespace LocalReference

/-- ```
fun outer() {
    fun local() {}
    val r = ::local
}
``` -/
def text : String :=
  "fun outer() \x7b\n    fun local() \x7b\x7d\n    val r = ::local\n\x7d\n"

/-- A function without parameters, from the bytes at which it, its name and its body start. -/
def function (start name body stop : Nat) (statements : List Tree) : Tree :=
  .named "function_declaration" start stop
    [.token "fun" start (start + 3), .named "simple_identifier" name (name + 5) [],
     .named "function_value_parameters" (name + 5) (name + 7)
      [.token "(" (name + 5) (name + 6), .token ")" (name + 6) (name + 7)],
     .named "function_body" body stop
      (.token "\x7b" body (body + 1) :: statements ++ [.token "\x7d" (stop - 1) stop])]

def tree : Tree :=
  .named "source_file" 0 55
    [function 0 4 12 54
      [.named "statements" 18 52
        [function 18 22 30 32 [],
         .named "property_declaration" 37 52
          [.named "binding_pattern_kind" 37 40 [.token "val" 37 40],
           .named "variable_declaration" 41 42 [.named "simple_identifier" 41 42 []],
           .token "=" 43 44,
           .named "callable_reference" 45 52
            [.token "::" 45 47, .named "simple_identifier" 47 52 []]]]]]

def given : ParsedText := ⟨⟨"/p/a.kt"⟩, text, tree⟩

def file : SourceFile := Project.sourceFile ⟨"/p"⟩ {} 0 .kotlin given

/-- A project with the one file. -/
def index : Index := Project.indexOf ⟨"/p"⟩ {} [given]

/-- The nodes of a kind. -/
def nodesOf (kind : String) : List Node := file.top.preorder.filter (·.kind == kind)

/-- `::local`. -/
def referenceNode : Node := (nodesOf "callable_reference").head (by decide +kernel)

/-- `fun local()`. -/
def localNode : Node := (nodesOf "function_declaration").getLast (by decide +kernel)

theorem referenceNode_within : Within file.tree referenceNode :=
  within_iff_mem_preorder.2 (List.mem_filter.1 (List.head_mem _)).1

theorem localNode_within : Within file.tree localNode :=
  within_iff_mem_preorder.2 (List.mem_filter.1 (List.getLast_mem _)).1

/-- The reference leads to the local function alone. -/
theorem found_reference :
    Answers.found index file referenceNode =
      [Resolve.localSymbol file localNode .function "local"] := by
  decide +kernel

/-- The only function in the index is `outer`. -/
theorem symbol?_local :
    index.symbol? (Resolve.localSymbol file localNode .function "local").handle = none := by
  rw [index, Project.indexOf, Index.ofFiles, Index.symbol?_ofParts]
  decide +kernel

theorem wellFormed : file.WellFormed := by decide +kernel

theorem file_mem : file ∈ index.files := List.mem_of_getElem? (i := 0) rfl

end LocalReference

open LocalReference in
theorem Answers.reference_ok_iff_local :
    (index.Reachable ∧ file ∈ index.files ∧ file.WellFormed ∧ Within file.tree referenceNode) ∧
      ¬ (Answers.ofIndex index file).reference referenceNode =
        .ok (Answers.found index file referenceNode) := by
  have hr : index.Reachable := .built _ _ _
  refine ⟨⟨hr, file_mem, wellFormed, referenceNode_within⟩, fun hok => ?_⟩
  have hindexed := (Answers.reference_ok_iff hr file_mem wellFormed referenceNode_within).2.1.1 hok
  have hlocal : Resolve.IsLocalFunction file
      (Resolve.localSymbol file localNode .function "local") :=
    ⟨localNode, "local", localNode_within, by decide +kernel, by decide +kernel, rfl⟩
  have hfound := hindexed _ (by rw [found_reference]; exact List.mem_singleton_self _) hlocal
  rw [symbol?_local] at hfound
  cases hfound

open LocalReference in
/-- The reference to a local function of the same file is an error, and what it leads to is neither
local by its kind nor synthetic. -/
theorem Answers.reference_stale_local :
    index.Reachable ∧ file ∈ index.files ∧ file.WellFormed ∧ Within file.tree referenceNode ∧
      (Answers.ofIndex index file).reference referenceNode = .error (.staleSymbol ⟨0, 18, 32⟩) := by
  refine ⟨.built _ _ _, file_mem, wellFormed, referenceNode_within, ?_⟩
  have hstale : Answers.isStale index (Resolve.localSymbol file localNode .function "local")
      = true := by
    rw [Answers.isStale, symbol?_local]
    decide +kernel
  rw [Answers.reference_ofIndex (by decide +kernel), found_reference, List.find?_cons_of_pos hstale]
  have hkey : (Resolve.localSymbol file localNode .function "local").declaration = ⟨0, 18, 32⟩ := by
    decide +kernel
  exact congrArg (fun key => Except.error (SessionError.staleSymbol key)) hkey

end Crossref
