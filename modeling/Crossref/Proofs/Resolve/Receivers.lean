import Crossref.Proofs.Resolve.Tiers
import Crossref.Proofs.Tree.Spans

/-!
# Proofs — resolution — implicit receivers

Above a node stand nodes that add implicit receivers: classes and objects, object literals and
extensions.  The nearest of them decides about a name as soon as it offers something with the name:
a call of the name alone is a call of one of these.

* `enclosingReceivers_eq_append`: the receivers at a node begin with those of the nearest node that
  adds some.
* `lookupName_eq_offered`: the name leads to what the nearest receivers offer.
* `Answers.call_of_nameCall`, `Answers.call_of_memberCall`: the callee of `name(..)`, and that of
  `this.name(..)` and `super.name(..)`.
-/

namespace Crossref

namespace Node

/-- The way up goes on from each ancestor as it does from the node. -/
theorem ancestors_eq_of_split {n a : Node} {way above : List Node}
    (h : n.ancestors = way ++ a :: above) : a.ancestors = above := by
  unfold ancestors at h
  generalize n.trail = trail at h
  induction trail generalizing way with
  | nil => simp [ofTrail] at h
  | cons f fs ih =>
      rw [ofTrail] at h
      cases way with
      | nil =>
          obtain ⟨rfl, rfl⟩ := List.cons.inj h
          rfl
      | cons b way => exact ih (List.cons.inj h).2

end Node

namespace Resolve
open Node

/-! ### The nearest receivers -/

/-- The node adds implicit receivers for what stands in it, if they can be resolved. -/
def addsReceiver (f : SourceFile) (n : Node) : Bool :=
  receiverClassKinds.contains n.kind || n.kind == "object_literal" ||
    (n.kind == "function_declaration" || n.kind == "property_declaration") &&
      (Kotlin.receiverType? n f.text).isSome

/-- The nearest node above that adds implicit receivers. -/
def nearestReceiver? (f : SourceFile) (n : Node) : Option Node := n.ancestors.find? (addsReceiver f)

theorem nearestReceiver?_of_mem_children {f : SourceFile} {n c : Node} (hc : c ∈ n.children)
    (hn : addsReceiver f n = false) : nearestReceiver? f c = nearestReceiver? f n := by
  rw [nearestReceiver?, ancestors_of_mem_children hc, List.find?_cons_of_neg (by simp [hn])]
  rfl

section Nearest

variable {i : Index} {ls : Levels} {f : SourceFile} {n r : Node}

theorem receiversAt_eq_nil (h : addsReceiver f n = false) : receiversAt i ls f n = [] := by
  simp only [addsReceiver, Bool.or_eq_false_iff, Bool.and_eq_false_iff, beq_eq_false_iff_ne] at h
  obtain ⟨⟨hclass, hliteral⟩, hextension⟩ := h
  unfold receiversAt
  rw [if_neg (by simp only [hclass, Bool.false_eq_true, not_false_eq_true]), if_neg hliteral]
  split
  · next hk =>
    have hnone := hextension.resolve_left fun hne => by
      rcases hk with hk | hk <;> simp [hk] at hne
    rw [Option.isSome_eq_false_iff, Option.isNone_iff_eq_none] at hnone
    rw [hnone]
    rfl
  · rfl

/-- What the way to the nearest receivers comes through adds nothing. -/
theorem exists_split_of_nearestReceiver? (h : nearestReceiver? f n = some r) :
    ∃ way, n.ancestors = way ++ r :: r.ancestors ∧ ∀ a ∈ way, addsReceiver f a = false := by
  obtain ⟨-, way, above, hsplit, hway⟩ := List.find?_eq_some_iff_append.1 h
  refine ⟨way, ?_, fun a ha => by simpa using hway a ha⟩
  rw [ancestors_eq_of_split hsplit]
  exact hsplit

/-- **The receivers at a node begin with the nearest ones.** -/
theorem enclosingReceivers_eq_append (h : nearestReceiver? f n = some r) :
    enclosingReceivers i ls f n = receiversAt i ls f r ++ enclosingReceivers i ls f r := by
  obtain ⟨way, hsplit, hway⟩ := exists_split_of_nearestReceiver? h
  have hnone : way.flatMap (receiversAt i ls f) = [] :=
    List.flatMap_eq_nil_iff.2 fun a ha => receiversAt_eq_nil (hway a ha)
  rw [enclosingReceivers, hsplit, List.flatMap_append, hnone, List.nil_append, List.flatMap_cons]
  rfl

theorem enclosingReceivers_eq_nil (h : nearestReceiver? f n = none) :
    enclosingReceivers i ls f n = [] :=
  List.flatMap_eq_nil_iff.2 fun a ha =>
    receiversAt_eq_nil (by simpa using List.find?_eq_none.1 h a ha)

/-- A class adds the classifier that it declares. -/
theorem receiversAt_of_class (h : r.kind ∈ receiverClassKinds) :
    receiversAt i ls f r = (i.classifierAt? (f.keyOf r)).toList := by
  rw [receiversAt, if_pos (List.contains_iff_mem.2 h)]

/-- An object literal adds the supertypes that are written. -/
theorem receiversAt_of_literal (h : r.kind = "object_literal") (height : Nat) :
    receiversAt i (levels i (height + 1)) f r =
      (((Kotlin.delegationSpecifiers r).filterMap Kotlin.specifierType?).map f.textOf).filterMap
        fun text => classifierOfText i (levels i height) f r text true := by
  rw [receiversAt, if_neg (by rw [h]; decide), if_pos h, List.filterMap_map]
  simp only [top_levels_succ, levelOver, Function.comp_def]

end Nearest

/-! ### What they offer -/

/-- What the receivers that a node adds offer under the name, those of the first that offers
some. -/
def offered (i : Index) (ls : Levels) (f : SourceFile) (r : Node) (name : String) : List Symbol :=
  firstFound ((receiversAt i ls f r).map fun c _ => membersNamed i ls c name .callable)

theorem firstFound_append_of_ne_nil {α : Type} {xs ys : List (Unit → List α)}
    (h : firstFound xs ≠ []) : firstFound (xs ++ ys) = firstFound xs := by
  induction xs with
  | nil => exact absurd rfl h
  | cons x xs ih =>
      by_cases hx : x () = []
      · rw [firstFound_cons_of_eq_nil hx] at h ⊢
        rw [List.cons_append, firstFound_cons_of_eq_nil hx, ih h]
      · rw [List.cons_append, firstFound_cons_of_ne_nil hx, firstFound_cons_of_ne_nil hx]

theorem offered_of_class {i : Index} {ls : Levels} {f : SourceFile} {r : Node} {c : Symbol}
    (hr : r.kind ∈ receiverClassKinds) (hc : i.classifierAt? (f.keyOf r) = some c)
    (name : String) : offered i ls f r name = membersNamed i ls c name .callable := by
  rw [offered, receiversAt_of_class hr, hc]
  change firstFound [fun _ => membersNamed i ls c name .callable] = _
  by_cases h : membersNamed i ls c name .callable = []
  · rw [firstFound_cons_of_eq_nil h, h]
    rfl
  · rw [firstFound_cons_of_ne_nil h]

/-- **A name leads to what the nearest receivers offer**, if they offer something and the name is
not bound locally. -/
theorem lookupName_eq_offered {i : Index} {ls : Levels} {f : SourceFile} {name : String}
    {n r : Node} (hne : name ≠ "") (hlocal : localBindings f name n = [])
    (hr : nearestReceiver? f n = some r) (hoffered : offered i ls f r name ≠ []) :
    lookupName i ls f name n .callable = offered i ls f r name := by
  have hmembers : receiverMembers i ls f name n .callable = offered i ls f r name := by
    rw [receiverMembers, enclosingReceivers_eq_append hr, List.map_append,
      firstFound_append_of_ne_nil hoffered]
    rfl
  rw [lookupName, if_neg hne, tiers, firstFound_cons_of_eq_nil (by simpa using hlocal),
    firstFound_cons_of_ne_nil (by rw [hmembers]; exact hoffered), hmembers]

/-- Where nothing adds receivers and nothing is bound locally, a name is looked for at the top of
the file first. -/
theorem lookupName_eq_inFile {i : Index} {ls : Levels} {f : SourceFile} {name : String} {n : Node}
    {want : Want} (hne : name ≠ "") (hlocal : want = .type ∨ localBindings f name n = [])
    (hnear : nearestReceiver? f n = none) (hfound : inFile i f name want ≠ []) :
    lookupName i ls f name n want = inFile i f name want := by
  have hbound : (if want = .type then [] else localBindings f name n) = [] := by
    rcases hlocal with h | h <;> simp [h]
  have hreceivers : receiverMembers i ls f name n want = [] := by
    rw [receiverMembers, enclosingReceivers_eq_nil hnear]
    rfl
  rw [lookupName, if_neg hne, tiers, firstFound_cons_of_eq_nil hbound,
    firstFound_cons_of_eq_nil hreceivers, firstFound_cons_of_ne_nil hfound]

/-- Where nothing adds receivers, a simple name is that of a type at the top of the file. -/
theorem classifierOfText_of_inFile {i : Index} {f : SourceFile} {n : Node} {name text : String}
    {c : Symbol} (hname : Text.withoutBlanks (Kotlin.simpleTypeName text) = name) (hne : name ≠ "")
    (hsimple : name.toList.contains '.' = false) (hnear : nearestReceiver? f n = none)
    (hc : (inFile i f name .type).head? = some c) (hk : c.kind ≠ .typeAlias) (height : Nat)
    (throughAlias : Bool) :
    classifierOfText i (levels i (height + 1)) f n text throughAlias = some c := by
  have hlookup : lookupName i (levels i height) f name n .type = inFile i f name .type := by
    refine lookupName_eq_inFile hne (.inl rfl) hnear fun e => ?_
    rw [e] at hc
    cases hc
  have hfound : classifierOfName i (levels i (height + 1)) f n name = some c := by
    rw [classifierOfName, hsimple, if_neg Bool.false_ne_true, ← hc, ← hlookup]
    rfl
  simp [classifierOfText, hname, hne, hfound, followAlias, hk]

/-- Where nothing adds receivers, simple names are those of the types at the top of the file. -/
theorem classifiersOfTexts_of_inFile {i : Index} {f : SourceFile} {n : Node} {texts : List String}
    {cs : List Symbol} (hnear : nearestReceiver? f n = none)
    (hnames : ∀ text ∈ texts, Text.withoutBlanks (Kotlin.simpleTypeName text) = text ∧ text ≠ "" ∧
      text.toList.contains '.' = false)
    (hcs : texts.map (fun text => (inFile i f text .type).head?) = cs.map some)
    (hk : ∀ c ∈ cs, c.kind ≠ .typeAlias) (height : Nat) :
    (texts.filterMap fun text => classifierOfText i (levels i (height + 1)) f n text true) =
      cs := by
  induction texts generalizing cs with
  | nil =>
      cases cs with
      | nil => rfl
      | cons c cs => cases hcs
  | cons text texts ih =>
      cases cs with
      | nil => cases hcs
      | cons c cs =>
          obtain ⟨hhead, htail⟩ := List.cons.inj hcs
          obtain ⟨hname, hne, hsimple⟩ := hnames text (by simp)
          have hclass := classifierOfText_of_inFile hname hne hsimple hnear hhead (hk c (by simp))
            height true
          have hclasses := ih (fun t ht => hnames t (by simp [ht])) htail
            fun d hd => hk d (by simp [hd])
          rw [List.filterMap_cons, hclass, hclasses]

/-! ### Calls -/

/-- The node is a call `name(..)` with as many arguments, of a name that is not bound locally. -/
structure NameCall (f : SourceFile) (name : String) (arguments : Nat) (n : Node) : Prop where
  kind : n.kind = "call_expression"
  inside : n.stop ≤ Text.size f.text
  counted : callArgumentCount n = arguments
  callee : ∃ callee, n.namedChild? 0 = some callee ∧ callee.kind = "simple_identifier" ∧
    f.textOf callee = name ∧ localBindings f name callee = []

instance (f : SourceFile) (name : String) (arguments : Nat) (n : Node) :
    Decidable (NameCall f name arguments n) :=
  decidable_of_iff (n.kind = "call_expression" ∧ n.stop ≤ Text.size f.text ∧
      callArgumentCount n = arguments ∧
      ∃ callee ∈ n.namedChild? 0, callee.kind = "simple_identifier" ∧
        f.textOf callee = name ∧ localBindings f name callee = [])
    ⟨fun ⟨hkind, hinside, hcounted, hcallee⟩ => ⟨hkind, hinside, hcounted, hcallee⟩,
      fun h => ⟨h.kind, h.inside, h.counted, h.callee⟩⟩

/-- The node is a call `this.name(..)` or `super.name(..)` with as many arguments, which calls the
given member access; `word` is the receiver. -/
structure MemberCall (f : SourceFile) (word name : String) (arguments : Nat) (n access : Node) :
    Prop where
  kind : n.kind = "call_expression"
  inside : n.stop ≤ Text.size f.text
  counted : callArgumentCount n = arguments
  callee : n.namedChild? 0 = some access
  navigation : access.kind = "navigation_expression"
  member : suffixName? f access = some name
  receiver : ∃ receiver, access.namedChild? 0 = some receiver ∧
    receiver.kind = word ++ "_expression" ∧ f.textOf receiver = word

/-- The node is a call `receiver.name(..)` with as many arguments, which calls the given member
access. -/
structure DottedCall (f : SourceFile) (name : String) (arguments : Nat) (n access receiver : Node) :
    Prop where
  kind : n.kind = "call_expression"
  inside : n.stop ≤ Text.size f.text
  counted : callArgumentCount n = arguments
  callee : n.namedChild? 0 = some access
  navigation : access.kind = "navigation_expression"
  member : suffixName? f access = some name
  receiver : access.namedChild? 0 = some receiver

/-- A call of a member of `this` or `super` is recognized by looking. -/
theorem exists_memberCall_iff {f : SourceFile} {word name : String} {arguments : Nat} {n : Node} :
    (∃ access, MemberCall f word name arguments n access) ↔
      n.kind = "call_expression" ∧ n.stop ≤ Text.size f.text ∧ callArgumentCount n = arguments ∧
      ∃ access ∈ n.namedChild? 0, access.kind = "navigation_expression" ∧
        suffixName? f access = some name ∧ ∃ receiver ∈ access.namedChild? 0,
          receiver.kind = word ++ "_expression" ∧ f.textOf receiver = word :=
  ⟨fun ⟨access, h⟩ => ⟨h.kind, h.inside, h.counted, access, h.callee, h.navigation, h.member,
      h.receiver⟩,
    fun ⟨hkind, hinside, hcounted, access, hcallee, hnavigation, hmember, hreceiver⟩ =>
      ⟨access, hkind, hinside, hcounted, hcallee, hnavigation, hmember, hreceiver⟩⟩

instance (f : SourceFile) (word name : String) (arguments : Nat) (n : Node) :
    Decidable (∃ access, MemberCall f word name arguments n access) :=
  decidable_of_iff _ exists_memberCall_iff.symm

/-- A function or constructor that is the only candidate is the callee. -/
theorem calleeOf_of_forall_eq {i : Index} {symbols : List Symbol} {s : Symbol}
    (hs : s.kind.isCallable = true) (hne : symbols ≠ []) (h : ∀ x ∈ symbols, x = s)
    {asExtension : Bool} {arguments : Nat} :
    calleeOf i ⟨symbols, asExtension⟩ arguments = some ⟨s, s.isExtension || asExtension⟩ := by
  have hall : symbols.filter (·.kind.isCallable) = symbols :=
    List.filter_eq_self.2 fun x hx => by rw [h x hx, hs]
  obtain ⟨x, hx⟩ := exists_narrow hne arguments
  obtain rfl := h x (mem_of_narrow hx)
  rw [calleeOf, chooseCallable_of_callables (by rwa [hall]), hall, hx]
  rfl

/-- A function or constructor that is alone is the callee. -/
theorem calleeOf_singleton {i : Index} {s : Symbol} (hs : s.kind.isCallable = true)
    {asExtension : Bool} {arguments : Nat} :
    calleeOf i ⟨[s], asExtension⟩ arguments = some ⟨s, s.isExtension || asExtension⟩ :=
  calleeOf_of_forall_eq hs (List.cons_ne_nil s []) fun _ => List.mem_singleton.1

/-- A callee that takes the arguments is found before what comes later. -/
theorem calleeOf_append {i : Index} {candidates others : List Symbol} {asExtension : Bool}
    {arguments : Nat}
    (h : ∃ s ∈ candidates, s.kind.isCallable = true ∧ s.parameterCount = some arguments) :
    calleeOf i ⟨candidates ++ others, asExtension⟩ arguments =
      calleeOf i ⟨candidates, asExtension⟩ arguments := by
  obtain ⟨s, hs, hcallable, hcount⟩ := h
  have hmem : s ∈ candidates.filter (·.kind.isCallable) := List.mem_filter.2 ⟨hs, hcallable⟩
  have hfits : ((candidates.filter (·.kind.isCallable)).find?
      (·.parameterCount = some arguments)).isSome = true :=
    List.find?_isSome.2 ⟨s, hmem, by simpa using hcount⟩
  obtain ⟨found, hfound⟩ := Option.isSome_iff_exists.1 hfits
  have hne : candidates.filter (·.kind.isCallable) ≠ [] := List.ne_nil_of_mem hmem
  rw [calleeOf, calleeOf, chooseCallable_of_callables hne, chooseCallable_of_callables
    (by simp [hne]), narrow_eq, narrow_eq, List.filter_append, List.find?_append, hfound]
  rfl

/-- What is reached behind a receiver of the type that is written as `word`. -/
def accessOfType (i : Index) (ls : Levels) (f : SourceFile) (word name : String) (access : Node)
    (type : Option ExprType) : Access :=
  let ofType : Option Access := do
    let t ← type
    let members :=
      match t.classifier with
      | some c => membersNamed i ls c name .callable
      | none => []
    match members with
    | [] =>
      match visibleExtensions i ls.below f access name .callable t with
      | [] => none
      | found => some ⟨found, true⟩
    | found => some ⟨found, false⟩
  ofType.getD ⟨qualified i (Text.withoutBlanks (word ++ "." ++ name)) .callable, false⟩

/-- The receiver has a part in the access by its text and its type. -/
theorem accessMember_eq_accessOfType (i : Index) (ls : Levels) (f : SourceFile) (receiver : Node)
    (name : String) (access : Node) :
    accessMember i ls f receiver name access .callable =
      accessOfType i ls f (f.textOf receiver) name access (ls.top.typeOfExpr f receiver) := rfl

/-- Where the type has no such members, extensions of it come next, and then the end of a qualified
name. -/
theorem accessOfType_of_no_members {i : Index} {ls : Levels} {f : SourceFile} {word name : String}
    {access : Node} {t : ExprType}
    (h : ∀ c ∈ t.classifier, membersNamed i ls c name .callable = []) :
    accessOfType i ls f word name access (some t) =
      if visibleExtensions i ls.below f access name .callable t = [] then
        ⟨qualified i (Text.withoutBlanks (word ++ "." ++ name)) .callable, false⟩
      else ⟨visibleExtensions i ls.below f access name .callable t, true⟩ := by
  have hnone : (match t.classifier with
      | some c => membersNamed i ls c name .callable
      | none => []) = [] := by
    cases hc : t.classifier with
    | none => rfl
    | some c => exact h c hc
  simp only [accessOfType, Option.bind_eq_bind, Option.bind_some, hnone]
  cases visibleExtensions i ls.below f access name .callable t <;> rfl

/-- Members of the type come first. -/
theorem accessOfType_of_members {i : Index} {ls : Levels} {f : SourceFile} {word name : String}
    {access : Node} {c : Symbol} (h : membersNamed i ls c name .callable ≠ []) :
    accessOfType i ls f word name access (some (.ofClassifier c)) =
      ⟨membersNamed i ls c name .callable, false⟩ := by
  obtain ⟨s, ss, hs⟩ := List.exists_cons_of_ne_nil h
  simp [accessOfType, ExprType.ofClassifier, hs]

end Resolve

namespace Answers

open Resolve Node

variable {i : Index} {f : SourceFile} {name : String} {arguments : Nat} {n r : Node}

/-- **The callee of a name** among what the nearest receivers offer. -/
theorem call_of_nameCall (hne : name ≠ "") (hn : NameCall f name arguments n)
    (hr : nearestReceiver? f n = some r)
    (hoffered : offered i (levels i (maxDepth - 1)) f r name ≠ []) :
    (ofIndex i f).call n =
      .ok (calleeOf i ⟨offered i (levels i (maxDepth - 1)) f r name, false⟩ arguments) := by
  obtain ⟨callee, hchild, hkind, hname, hlocal⟩ := hn.callee
  have hmem : callee ∈ n.children := (mem_namedChildren_iff.1 (List.mem_of_getElem? hchild)).1
  have hnear : nearestReceiver? f callee = some r := by
    rw [nearestReceiver?_of_mem_children hmem (by simp [addsReceiver, hn.kind, receiverClassKinds])]
    exact hr
  rw [call_of_access hn.kind hn.inside hchild (.inl ⟨hkind, rfl⟩), hn.counted, hname,
    lookupName_eq_offered hne hlocal hnear hoffered]

/-- **The callee behind a receiver** is that of an access of the receiver's type. -/
theorem call_of_dottedCall {access receiver : Node}
    (hn : DottedCall f name arguments n access receiver) :
    (ofIndex i f).call n = .ok (calleeOf i (accessOfType i (levels i (maxDepth - 1)) f
      (f.textOf receiver) name access (typeOfExpr i (levels i (maxDepth - 2)) f receiver))
        arguments) := by
  rw [call_of_access hn.kind hn.inside hn.callee (.inr ⟨hn.navigation, rfl⟩), hn.counted,
    accessNavigation, hn.receiver, hn.member]
  dsimp only
  rw [accessMember_eq_accessOfType]
  rfl

/-- **The callee of a member of `this` or `super`** is that of a member of its type, and the
receiver has the same implicit receivers around it as the call. -/
theorem call_of_memberCall {word : String} {access : Node}
    (hn : MemberCall f word name arguments n access) :
    ∃ receiver, receiver.kind = word ++ "_expression" ∧ f.textOf receiver = word ∧
      nearestReceiver? f receiver = nearestReceiver? f n ∧
      (ofIndex i f).call n = .ok (calleeOf i (accessOfType i (levels i (maxDepth - 1)) f word name
        access (typeOfExpr i (levels i (maxDepth - 2)) f receiver)) arguments) := by
  obtain ⟨receiver, hreceiver, hkind, rfl⟩ := hn.receiver
  have hdotted : DottedCall f name arguments n access receiver :=
    ⟨hn.kind, hn.inside, hn.counted, hn.callee, hn.navigation, hn.member, hreceiver⟩
  refine ⟨receiver, hkind, rfl, ?_, call_of_dottedCall hdotted⟩
  rw [nearestReceiver?_of_mem_children (mem_children_of_namedChild? hreceiver)
      (by simp [addsReceiver, hn.navigation, receiverClassKinds]),
    nearestReceiver?_of_mem_children (mem_children_of_namedChild? hn.callee)
      (by simp [addsReceiver, hn.kind, receiverClassKinds])]

end Answers

/-! ### Two calls in a block -/

namespace TwoCalls
open Node Resolve

/-- A function with a name of one letter and no parameters. -/
def functionTree (start stop : Nat) (inner : List Tree) : Tree :=
  .named "function_declaration" start stop
    [.token "fun" start (start + 3), .named "simple_identifier" (start + 4) (start + 5) [],
     .named "function_value_parameters" (start + 5) (start + 7)
      [.token "(" (start + 5) (start + 6), .token ")" (start + 6) (start + 7)],
     .named "function_body" (start + 8) stop
      (.token "\x7b" (start + 8) (start + 9) :: inner ++ [.token "\x7d" (stop - 1) stop])]

/-- `()` behind what is called. -/
def suffixTree (start : Nat) : Tree :=
  .named "call_suffix" start (start + 2)
    [.named "value_arguments" start (start + 2)
      [.token "(" start (start + 1), .token ")" (start + 1) (start + 2)]]

/-- `m(); word.m()` -/
def blockTree (word : String) (start : Nat) : Tree :=
  let second := start + 5
  let dot := second + word.length
  .named "statements" start (dot + 4)
    [.named "call_expression" start (start + 3)
      [.named "simple_identifier" start (start + 1) [], suffixTree (start + 1)],
     .named "call_expression" second (dot + 4)
      [.named "navigation_expression" second (dot + 2)
        [.named (word ++ "_expression") second dot [.token word second dot],
         .named "navigation_suffix" dot (dot + 2)
          [.token "." dot (dot + 1), .named "simple_identifier" (dot + 1) (dot + 2) []]],
       suffixTree (dot + 2)]]

/-- The block with the number. -/
def block (f : SourceFile) (k : Nat) : Node :=
  (f.top.preorder.filter (·.kind == "statements")).getD k f.top

/-- The call with the number in a block. -/
def callIn (b : Node) (k : Nat) : Node := b.children[k]?.getD b

/-- The nearest node around a block that adds receivers. -/
def around (f : SourceFile) (k : Nat) : Node := (nearestReceiver? f (block f k)).getD f.top

/-- The calls in a block have the same receivers around them. -/
theorem nearestReceiver?_callIn {f : SourceFile} {j k : Nat} (hb : (block f j).kind = "statements")
    (hk : k < (block f j).children.length) (hr : (nearestReceiver? f (block f j)).isSome = true) :
    nearestReceiver? f (callIn (block f j) k) = some (around f j) := by
  have hmem : callIn (block f j) k ∈ (block f j).children := by
    rw [callIn, List.getElem?_eq_getElem hk]
    exact List.getElem_mem hk
  rw [nearestReceiver?_of_mem_children hmem (by simp [addsReceiver, hb, receiverClassKinds]),
    around]
  exact (Option.getD_of_ne_none (Option.isSome_iff_ne_none.1 hr) f.top).symm

/-- The classifier that is declared at the key. -/
def classifierAt (i : Index) (k : DeclKey) : Symbol :=
  ((i.symbols.filter (·.declaration == k)).find? (·.kind.isClassifier)).getD default

theorem classifierAt?_eq {files : List SourceFile} {k : DeclKey}
    (h : (((Index.ofFiles files).symbols.filter (·.declaration == k)).find?
      (·.kind.isClassifier)).isSome = true) :
    (Index.ofFiles files).classifierAt? k = some (classifierAt (Index.ofFiles files) k) := by
  rw [Index.classifierAt?, Index.ofFiles, Index.symbolsAt_ofParts]
  exact (Option.getD_of_ne_none (Option.isSome_iff_ne_none.1 h) default).symm

end TwoCalls

end Crossref
