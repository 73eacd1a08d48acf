import Crossref.Proofs.Resolve.Sorts
import Crossref.Proofs.Tree.Spans
import Crossref.Proofs.Usage.Collected
import Crossref.Proofs.Usage.Delegates
import Crossref.Proofs.Usage.Parts

/-!
# Proofs — usages — the kind of a usage, its node and its symbol

The kind of a usage, the node at which it is recorded and its symbol fit together.  `Fits` says how,
one case for each kind of use: which nodes it is recorded at, and what sort of symbol it has.  What
the symbol of a call may be follows from the answers, which are of the sort asked for; everything
else is decided where the usage is made.  In a property delegate no call, operator or assignment is
taken for a plain call or a read.

* `fits_record`: whatever is recorded at a visit fits the node that it is recorded at.
* `collect_fits`: so does whatever is collected over an index.
-/

namespace Crossref.Usage
open Node

/-- The nodes that write a type, or refer to something by a name. -/
def referringKinds : List String :=
  Construct.userType.kinds ++ Construct.identifier.kinds ++ Construct.navigation.kinds
    ++ Construct.callableReference.kinds ++ ["directly_assignable_expression"]

/-- The nodes that invoke something: calls, operators and assignments. -/
def invokingKinds : List String :=
  Construct.call.kinds ++ Construct.operator.kinds ++ Construct.assignment.kinds

/-- A call, an operator or an assignment in a property delegate of what is collected from `n`. -/
def InvokesInDelegate (n m : Node) : Prop := m.kind ∈ invokingKinds ∧ UnderDelegate n m

/-- A usage in what is collected from `n` fits the node `m` that it is recorded at. -/
def Fits (n m : Node) (u : Usage) : Prop :=
  match u.kind with
  | .propertyWrite => m.kind = "directly_assignable_expression" ∧ u.symbol.isMutable = true
  | .supertype => m.kind = "delegation_specifier" ∧ u.symbol.kind.isClassifier = true
  | .annotationUse => m.kind = "annotation" ∧ u.symbol.kind.isClassifier = true
  | .typeReference => m.kind ∈ referringKinds ∧ u.symbol.kind.isClassifier = true
  | .constructorCall => u.symbol.kind = .constructor
  | .operatorCall => u.symbol.isOperator = true
  | .call =>
    (u.symbol.kind = .function ∨ u.symbol.kind = .constructor) ∧ ¬ InvokesInDelegate n m
  | .propertyRead => u.symbol.kind.isVariable = true ∧ ¬ InvokesInDelegate n m
  | .extensionReceiver => u.symbol.isExtension = true
  | .delegatedProperty => UnderDelegate n m

/-- A usage that is recorded at a visit fits its site: the visited node, or the target of the
visited assignment. -/
def FitsVisit (f : SourceFile) (n : Node) (v : Visit) (u : Usage) : Prop :=
  ∃ m, (m = v.node ∨ assignmentTarget? v.node = some m) ∧ u.site = .ofNode f m ∧ Fits n m u

theorem mem_invokingKinds_iff {n : Node} :
    n.kind ∈ invokingKinds ↔
      Construct.ofNode n ∈ [Construct.call, .operator, .assignment] := by
  constructor
  · intro h
    rcases List.mem_append.1 h with h | h
    · rcases List.mem_append.1 h with h | h
      · simp [Construct.ofNode, Construct.ofKind_of_mem_kinds _ _ h]
      · simp [Construct.ofNode, Construct.ofKind_of_mem_kinds _ _ h]
    · simp [Construct.ofNode, Construct.ofKind_of_mem_kinds _ _ h]
  · intro h
    have hk := Construct.mem_kinds_ofNode (n := n) (by rintro hc; simp [hc] at h)
    simp only [List.mem_cons, List.not_mem_nil, or_false] at h
    rcases h with h | h | h <;> rw [h] at hk <;> simp [invokingKinds, hk]

theorem mem_referringKinds {n : Node} (h : Construct.ofNode n ∈
    [Construct.userType, .identifier, .navigation, .callableReference]) :
    n.kind ∈ referringKinds := by
  have hk := Construct.mem_kinds_ofNode (n := n) (by rintro hc; simp [hc] at h)
  simp only [List.mem_cons, List.not_mem_nil, or_false] at h
  rcases h with h | h | h | h <;> rw [h] at hk <;> simp [referringKinds, hk]

/-! ### How kinds are chosen -/

theorem isCallable_iff {k : Symbol.Kind} :
    k.isCallable = true ↔ k = .function ∨ k = .constructor := by
  cases k <;> decide

/-- Each kind of invocation is chosen for a reason of its own. -/
theorem cases_classifyCall (c : Resolve.Call) (inDelegate : Bool) :
    (classifyCall c inDelegate = .constructorCall ∧ c.symbol.kind = .constructor) ∨
      (classifyCall c inDelegate = .operatorCall ∧ c.symbol.isOperator = true) ∨
      (classifyCall c inDelegate = .delegatedProperty ∧ inDelegate = true) ∨
      (classifyCall c inDelegate = .propertyRead ∧ c.symbol.kind.isVariable = true ∧
        inDelegate = false) ∨
      (classifyCall c inDelegate = .call ∧ c.symbol.kind.isVariable = false ∧
        inDelegate = false) := by
  unfold classifyCall
  by_cases hk : c.symbol.kind = .constructor
  · simp [hk]
  · cases c.symbol.isOperator <;> cases inDelegate <;> cases c.symbol.kind.isVariable <;> simp [hk]

/-- So is each kind of reference. -/
theorem cases_of_referenceKind? {n : Node} {isTarget : Bool} {s : Symbol} {kind : Kind}
    (h : referenceKind? n isTarget s = some kind) :
    (kind = .typeReference ∧ s.kind.isClassifier = true) ∨
      (kind = .call ∧ s.kind.isCallable = true) ∨
      (kind = .propertyWrite ∧ isTarget = true ∧ s.isMutable = true) ∨
      (kind = .propertyRead ∧ s.kind.isVariable = true) := by
  unfold referenceKind? at h
  split at h
  · next hc =>
    split at h
    · cases h
    · exact .inl ⟨(Option.some.inj h).symm, hc⟩
  · next hc =>
    split at h
    · next hk => exact .inr (.inl ⟨(Option.some.inj h).symm, hk⟩)
    · next hk =>
      have hvariable := (Symbol.Kind.trichotomy s.kind).resolve_left hc |>.resolve_left hk
      unfold classifyAccess at h
      split at h
      · next hw =>
        exact .inr (.inr (.inl ⟨(Option.some.inj h).symm, Bool.and_eq_true_iff.1 hw⟩))
      · exact .inr (.inr (.inr ⟨(Option.some.inj h).symm, hvariable⟩))

/-! ### What is recorded -/

/-- The usages of one use fit when the use does and it is of an extension where one of a receiver is
recorded. -/
theorem fits_of_mem_paired {n m : Node} {s : Symbol} {kind : Kind} {site : Site}
    {extension : Bool} {u : Usage} (he : extension = s.isExtension)
    (hfits : Fits n m ⟨s, kind, site⟩) (h : u ∈ paired s kind site extension) :
    u.site = site ∧ Fits n m u := by
  rcases List.mem_cons.1 h with rfl | h
  · exact ⟨rfl, hfits⟩
  · split at h
    · next hext =>
      obtain rfl := List.mem_singleton.1 h
      have hs : s.isExtension = true := by rw [← he]; exact hext
      exact ⟨rfl, hs⟩
    · cases h

section Record

variable {σ : Type} {session : Session σ} {t : Tree} (hsorted : session.Sorted t)
  {n m : Node} {u : Usage}

theorem fits_recordReference {isTarget : Bool} {s : σ} (hk : m.kind ∈ referringKinds)
    (hnot : m.kind ∉ invokingKinds)
    (htarget : isTarget = true → m.kind = "directly_assignable_expression")
    (h : u ∈ (recordReference session m isTarget s).1) :
    u.site = .ofNode session.file m ∧ Fits n m u := by
  change u ∈ ofReference _ _ _ (session.reference m s).1 at h
  unfold ofReference at h
  split at h
  · next x rest hx =>
    split at h
    · next kind hkind =>
      refine fits_of_mem_paired rfl ?_ h
      rcases cases_of_referenceKind? hkind with ⟨rfl, hc⟩ | ⟨rfl, hc⟩ | ⟨rfl, ht, hw⟩ | ⟨rfl, hv⟩
      · exact ⟨hk, hc⟩
      · exact ⟨isCallable_iff.1 hc, fun hin => hnot hin.1⟩
      · exact ⟨htarget ht, hw⟩
      · exact ⟨hv, fun hin => hnot hin.1⟩
    · cases h
  · cases h

include hsorted

theorem fits_recordType {kind : Kind} {s : σ} (hm : Within t m)
    (hfits : ∀ x : Symbol, x.kind.isClassifier = true → Fits n m ⟨x, kind, .ofNode session.file m⟩)
    (h : u ∈ (recordType session m kind s).1) : u.site = .ofNode session.file m ∧ Fits n m u := by
  change u ∈ ofType _ _ (session.type m s).1 at h
  unfold ofType at h
  split at h
  · next x hx =>
    obtain rfl := List.mem_singleton.1 h
    exact ⟨rfl, hfits x (hsorted.type hm hx)⟩
  · cases h

/-- The flag of a call must tell whether it stands in a delegate, at least where it invokes
something. -/
theorem fits_recordCall {inDelegate : Bool} {s : σ} (hm : Within t m)
    (hunder : inDelegate = true → UnderDelegate n m)
    (hflag : InvokesInDelegate n m → inDelegate = true)
    (h : u ∈ (recordCall session m inDelegate s).1) :
    u.site = .ofNode session.file m ∧ Fits n m u := by
  change u ∈ ofCall _ _ (session.call m s).1 at h
  unfold ofCall at h
  split at h
  · next c hc =>
    have hwell := hsorted.call hm hc
    refine fits_of_mem_paired hwell.extensionReceiver_eq ?_ h
    rcases cases_classifyCall c inDelegate with ⟨hkind, hk⟩ | ⟨hkind, ho⟩ | ⟨hkind, hd⟩ |
      ⟨hkind, hv, hd⟩ | ⟨hkind, hv, hd⟩ <;> rw [hkind]
    · exact hk
    · exact ho
    · exact hunder hd
    · exact ⟨hv, fun hin => by rw [hflag hin] at hd; cases hd⟩
    · refine ⟨isCallable_iff.1 (hwell.invocable.resolve_right ?_), fun hin => ?_⟩
      · simp [hv]
      · rw [hflag hin] at hd
        cases hd
  · cases h

theorem fits_recordDelegate {s : σ} (hm : Within t m) (hunder : UnderDelegate n m)
    (h : u ∈ (recordDelegate session m s).1) : u.site = .ofNode session.file m ∧ Fits n m u := by
  change u ∈ ofDelegate _ (session.delegate m s).1 at h
  unfold ofDelegate at h
  split at h
  · next calls hcalls =>
    obtain ⟨c, hc, h⟩ := List.mem_flatMap.1 h
    refine fits_of_mem_paired (hsorted.delegate hm hcalls c hc).extensionReceiver_eq ?_ h
    exact hunder
  · cases h

/-- **Whatever is recorded at a visit fits the node that it is recorded at.** -/
theorem fits_record {v : Visit} (hv : v ∈ itinerary n) (hw : Within t v.node) {s : σ}
    (h : u ∈ (record session v s).1) : FitsVisit session.file n v u := by
  suffices hall : ∀ u ∈ (record session v s).1, FitsVisit session.file n v u from hall u h
  refine record_of_parts (P := fun us => ∀ u ∈ us, FitsVisit session.file n v u) (by simp)
    (fun us vs hus hvs u hu => (List.mem_append.1 hu).elim (hus u) (hvs u))
    (fun us hpart u hu => ?_) s
  have kind_eq : ∀ {c : Construct} {kind : String}, Construct.ofNode v.node = c → c ≠ .other →
      c.kinds = [kind] → v.node.kind = kind := by
    rintro c kind rfl hc hkinds
    exact List.mem_singleton.1 (hkinds ▸ Construct.mem_kinds_ofNode hc)
  cases hpart with
  | reference hc s =>
      refine ⟨v.node, .inl rfl, fits_recordReference (mem_referringKinds ?_) ?_ (by simp) hu⟩
      · simp only [List.mem_cons, List.not_mem_nil, or_false] at hc ⊢
        rcases hc with hc | hc | hc <;> simp [hc]
      · rw [mem_invokingKinds_iff]
        simp only [List.mem_cons, List.not_mem_nil, or_false] at hc ⊢
        rcases hc with hc | hc | hc <;> simp [hc]
  | target _ ht s =>
      have hk := (mem_of_childOfKind? ht).2
      exact ⟨_, .inr ht, fits_recordReference (by simp [referringKinds, hk]) (by rw [hk]; decide)
        (fun _ => hk) hu⟩
  | call hc s =>
      have hflag := inDelegate_iff hv (by
        rintro hk
        rw [Construct.ofNode, hk] at hc
        revert hc
        decide)
      exact ⟨v.node, .inl rfl, fits_recordCall hsorted hw hflag.1 (fun hin => hflag.2 hin.2) hu⟩
  | type hc s =>
      refine ⟨v.node, .inl rfl, fits_recordType hsorted hw ?_ hu⟩
      exact fun x hx => ⟨mem_referringKinds (by simp [hc]), hx⟩
  | supertype hc s =>
      refine ⟨v.node, .inl rfl, fits_recordType hsorted hw ?_ hu⟩
      exact fun x hx => ⟨kind_eq hc (by simp) rfl, hx⟩
  | annotationUse hc s =>
      refine ⟨v.node, .inl rfl, fits_recordType hsorted hw ?_ hu⟩
      exact fun x hx => ⟨kind_eq hc (by simp) rfl, hx⟩
  | construction hc s =>
      refine ⟨v.node, .inl rfl, fits_recordCall hsorted hw (by simp) (fun hin => ?_) hu⟩
      have hin := mem_invokingKinds_iff.1 hin.1
      simp only [List.mem_cons, List.not_mem_nil, or_false] at hc
      rcases hc with hc | hc <;> simp [hc] at hin
  | delegate hc s =>
      obtain ⟨top, htop, hbelow⟩ := exists_top_of_mem_itinerary hv
      refine ⟨v.node, .inl rfl, fits_recordDelegate hsorted hw ?_ hu⟩
      exact ⟨top, htop, v.node, hbelow, kind_eq hc (by simp) rfl, .refl⟩

end Record

/-! ### What is collected -/

/-- **The kind of a usage, its node and its symbol fit together.**  Over every index that is built,
whatever is collected is recorded at some visit, with any cap and filter; and whatever is recorded
at a visit fits the node that it is recorded at, its site. -/
theorem collect_fits {i : Index} (hi : i.Reachable) {f : SourceFile} {n : Node}
    (hn : Within f.tree n) (l : Limits) (interval : Nat) :
    (∃ usages, (collect (Session.ofIndex i f) l (.never interval) n ()).1 = .ok usages ∧
      ∀ u ∈ usages, ∃ v ∈ itinerary n, u ∈ (record (Session.ofIndex i f) v ()).1) ∧
    ∀ v ∈ itinerary n, ∀ u ∈ (record (Session.ofIndex i f) v ()).1, FitsVisit f n v u := by
  refine ⟨⟨_, collect_uncancelled _ l interval n (), fun u hu => ?_⟩, fun v hv u hu => ?_⟩
  · have hu := (List.mem_filter.1 (List.mem_of_mem_take hu)).1
    obtain ⟨v, hv, _, hrecorded⟩ := exists_visit_of_mem_recordedAlong hu
    exact ⟨v, hv, hrecorded⟩
  · exact fits_record (Session.sorted_ofIndex hi.consistent f) hv (within_of_mem_itinerary hn hv) hu

namespace Boxed

/-- ```
class Box {
    operator fun getValue(a: Any?, b: Any?) = 3
}
val x by Box()
``` -/
def text : String :=
  "class Box \x7b\n    operator fun getValue(a: Any?, b: Any?) = 3\n\x7d\nval x by Box()\n"

/-- A parameter of one letter and type `Any?`. -/
def parameter (start : Nat) : Tree :=
  .named "parameter" start (start + 7)
    [.named "simple_identifier" start (start + 1) [], .token ":" (start + 1) (start + 2),
     .named "nullable_type" (start + 3) (start + 7)
      [.named "user_type" (start + 3) (start + 6)
        [.named "type_identifier" (start + 3) (start + 6) []]]]

def tree : Tree :=
  .named "source_file" 0 77
    [.named "class_declaration" 0 61
      [.token "class" 0 5, .named "type_identifier" 6 9 [],
       .named "class_body" 10 61
        [.token "\x7b" 10 11,
         .named "function_declaration" 16 59
          [.named "modifiers" 16 24 [.named "function_modifier" 16 24 [.token "operator" 16 24]],
           .token "fun" 25 28, .named "simple_identifier" 29 37 [],
           .named "function_value_parameters" 37 55
            [.token "(" 37 38, parameter 38, .token "," 45 46, parameter 47, .token ")" 54 55],
           .named "function_body" 56 59 [.token "=" 56 57, .named "integer_literal" 58 59 []]],
         .token "\x7d" 60 61]],
     .named "property_declaration" 62 76
      [.named "binding_pattern_kind" 62 65 [.token "val" 62 65],
       .named "variable_declaration" 66 67 [.named "simple_identifier" 66 67 []],
       .named "property_delegate" 68 76
        [.token "by" 68 70,
         .named "call_expression" 71 76
          [.named "simple_identifier" 71 74 [],
           .named "call_suffix" 74 76
            [.named "value_arguments" 74 76 [.token "(" 74 75, .token ")" 75 76]]]]]]

def given : ParsedText := ⟨⟨"/p/a.kt"⟩, text, tree⟩

def file : SourceFile := Project.sourceFile ⟨"/p"⟩ {} 0 .kotlin given

/-- A project with the one file. -/
def index : Index := Project.indexOf ⟨"/p"⟩ {} [given]

/-- The property with the delegate. -/
def property : Node := (file.top.child? 1).getD file.top

theorem property_within : Within file.tree property :=
  .child .top (List.mem_of_getElem? (i := 1) rfl)

end Boxed

theorem collect_fits_boxed :
    Boxed.index.Reachable ∧ Within Boxed.file.tree Boxed.property ∧
      (∃ usages, (collect (Session.ofIndex Boxed.index Boxed.file) ⟨10, false⟩ (.never 64)
          Boxed.property ()).1 = .ok usages ∧
        ∀ u ∈ usages, ∃ v ∈ itinerary Boxed.property,
          u ∈ (record (Session.ofIndex Boxed.index Boxed.file) v ()).1) ∧
      ∀ v ∈ itinerary Boxed.property,
        ∀ u ∈ (record (Session.ofIndex Boxed.index Boxed.file) v ()).1,
          FitsVisit Boxed.file Boxed.property v u :=
  ⟨.built _ _ _, Boxed.property_within,
    collect_fits (.built _ _ _) Boxed.property_within ⟨10, false⟩ 64⟩

end Crossref.Usage
