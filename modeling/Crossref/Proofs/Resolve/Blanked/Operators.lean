import Crossref.Proofs.Resolve.Blanked.Members

/-!
# Proofs — resolution — operators with comments left out

Operands are found by counting, and no comment is counted; the sign between them is a token, which
no comment is.

* `operatorTarget_blanked`: what an operator or an assignment calls is the same.
* `delegateCalls_blanked`: a delegate has the same conventions.
-/

namespace Crossref.Resolve
open Node Index

section Index

variable {bs : FileId → Blanking} {i j : Index} (h : Spared bs i j)
include h

/-- The second operand of a call between operands. -/
theorem namedChild?_one_blanked {f : SourceFile} {n : Node} (hn : Place bs i f n)
    (hkind : n.kind = "infix_expression") :
    (n.without (bs f.id).out).namedChild? 1 = (n.namedChild? 1).map (without (bs f.id).out) := by
  have hfirst := (h.expressions f hn.mem).first n hn.stays (by rw [hkind]; decide)
  have hsecond := (h.expressions f hn.mem).second n hn.stays hkind
  rw [namedChild?, namedChildren_without]
  refine getElem?_leftOf fun c hc => ?_
  rw [namedChild?] at hfirst hsecond
  rcases hnamed : n.namedChildren with _ | ⟨d, _ | ⟨e, l⟩⟩
  · rw [hnamed] at hc
    cases hc
  · rw [hnamed] at hc hfirst
    obtain rfl : c = d := by simpa using hc
    exact hfirst c rfl
  · rw [hnamed] at hc hfirst hsecond
    have hc : c = d ∨ c = e := by simpa using hc
    rcases hc with rfl | rfl
    · exact hfirst c rfl
    · exact (hsecond c rfl).1

/-- A token that is found among the children. -/
theorem find?_token_blanked {f : SourceFile} {n : Node} (hn : Place bs i f n)
    {q : String → Bool} :
    ((n.without (bs f.id).out).children.find? fun c =>
        !c.isNamed && q ((f.blanked (bs f.id)).textOf c)) =
      (n.children.find? fun c => !c.isNamed && q (f.textOf c)).map (without (bs f.id).out) ∧
    ∀ c ∈ n.children.find? fun c => !c.isNamed && q (f.textOf c),
      (f.blanked (bs f.id)).textOf (c.without (bs f.id).out) = f.textOf c := by
  have htoken : ∀ c ∈ n.children, c.isNamed = false →
      (f.blanked (bs f.id)).textOf (c.without (bs f.id).out) = f.textOf c := by
    intro c hc hnamed
    have hk : c.isKept (bs f.id).out = true := by
      by_contra hk
      rw [isNamed_of_not_isKept (by simpa using hk)] at hnamed
      cases hnamed
    exact (h.off f hn.mem).text_without (hn.stays.of_mem_children hc hk) (by
      rw [Kotlin.isWord, hnamed]
      rfl)
  refine ⟨?_, fun c hc => ?_⟩
  · rw [Node.children_without]
    refine find?_leftOf (fun c hc _ => ?_) fun c _ hk => ?_
    · rw [isNamed_without]
      cases hnamed : c.isNamed with
      | true => rfl
      | false => rw [htoken c hc hnamed]
    · rw [isNamed_of_not_isKept hk]
      rfl
  · have hfits := List.find?_some hc
    rw [Bool.and_eq_true, Bool.not_eq_true'] at hfits
    exact htoken c (List.mem_of_find?_eq_some hc) hfits.1

section Levels

variable {ls ls' : Levels} (hls : Levels.Same bs i ls ls')
include hls

/-- The function that an operator stands for is the same. -/
theorem functionOn?_blanked {f : SourceFile} {n : Node} (hn : Place bs i f n) {t : ExprType}
    (ht : t.Clear bs i) (name : String) (fits : Symbol → Bool) :
    functionOn? j ls' (f.blanked (bs f.id)) (n.without (bs f.id).out) t name fits =
        functionOn? i ls f n t name fits ∧
      ∀ s ∈ functionOn? i ls f n t name fits, Clear bs i s := by
  obtain ⟨hextensions, hclear⟩ := visibleExtensions_blanked h hls.below hn name .callable ht
  have hmembers : (t.classifier.bind fun c => (membersNamed j ls' c name .callable).find? fits) =
      t.classifier.bind fun c => (membersNamed i ls c name .callable).find? fits :=
    Option.bind_congr fun c hc => by rw [membersNamed_blanked h hls (ht c hc)]
  unfold functionOn?
  rw [hmembers, hextensions]
  refine ⟨rfl, fun s hs => ?_⟩
  cases hm : t.classifier.bind fun c => (membersNamed i ls c name .callable).find? fits with
  | some m =>
      rw [hm] at hs
      obtain rfl := Option.some.inj hs
      obtain ⟨c, -, hm⟩ := Option.bind_eq_some_iff.1 hm
      exact clear_of_mem_membersNamed h (List.mem_of_find?_eq_some hm)
  | none =>
      rw [hm] at hs
      exact hclear s (List.mem_of_find?_eq_some hs)

theorem operatorCall_blanked {f : SourceFile} {n : Node} (hn : Place bs i f n) {t : ExprType}
    (ht : t.Clear bs i) (name : String) :
    operatorCall j ls' (f.blanked (bs f.id)) (n.without (bs f.id).out) t name =
        operatorCall i ls f n t name ∧
      ∀ c ∈ operatorCall i ls f n t name, Clear bs i c.symbol := by
  obtain ⟨heq, hclear⟩ := functionOn?_blanked h hls hn ht name isOperatorFunction
  rw [operatorCall, operatorCall, heq]
  refine ⟨rfl, fun c hc => ?_⟩
  obtain ⟨s, hs, rfl⟩ := Option.map_eq_some_iff.1 hc
  exact hclear s hs

omit h in
/-- What is called on an operand is called on it in the same way. -/
theorem operandCall_blanked {f : SourceFile} {operand : Node} (hoperand : Place bs i f operand)
    {call call' : ExprType → Option Call}
    (hcall : ∀ t : ExprType, t.Clear bs i → call' t = call t ∧ ∀ c ∈ call t, Clear bs i c.symbol) :
    (ls'.top.typeOfExpr (f.blanked (bs f.id)) (operand.without (bs f.id).out)).bind call' =
        (ls.top.typeOfExpr f operand).bind call ∧
      ∀ c ∈ (ls.top.typeOfExpr f operand).bind call, Clear bs i c.symbol := by
  obtain ⟨htype, hclear⟩ := hls.top.typeOfExpr hoperand
  rw [htype]
  refine ⟨Option.bind_congr fun t ht => (hcall t (hclear t ht)).1, fun c hc => ?_⟩
  obtain ⟨t, ht, hc⟩ := Option.bind_eq_some_iff.1 hc
  exact (hcall t (hclear t ht)).2 c hc

/-! ### What a construct calls -/

/-- A function that is written between its operands is looked for on the first of them. -/
theorem namedInfixCall_blanked {f : SourceFile} {n : Node} (hn : Place bs i f n)
    (hkind : n.kind = "infix_expression") :
    namedInfixCall j ls' (f.blanked (bs f.id)) (n.without (bs f.id).out) = namedInfixCall i ls f n ∧
      ∀ c ∈ namedInfixCall i ls f n, Clear bs i c.symbol := by
  obtain ⟨hleft, hplace⟩ := namedChild?_zero_blanked h hn (by rw [hkind]; decide)
  refine bind_alike hleft fun left hl => ?_
  refine bind_alike (namedChild?_one_blanked h hn hkind) fun function hfunction => ?_
  have htext : (f.blanked (bs f.id)).textOf (function.without (bs f.id).out) =
      f.textOf function := by
    rw [SourceFile.textOf, Node.text_without]
    exact ((h.expressions f hn.mem).second n hn.stays hkind function hfunction).2
  rw [htext]
  refine operandCall_blanked hls (hplace left hl) fun t ht => ?_
  obtain ⟨heq, hclear⟩ := functionOn?_blanked h hls hn ht (f.textOf function) (·.kind = .function)
  rw [heq]
  refine ⟨rfl, fun c hc => ?_⟩
  obtain ⟨s, hs, rfl⟩ := Option.map_eq_some_iff.1 hc
  exact hclear s hs

omit hls in
/-- The last named child of a binary operator. -/
theorem lastOperand_blanked {f : SourceFile} {n : Node} (hn : Place bs i f n)
    (hkind : n.kind ∈ binaryKinds) :
    (n.without (bs f.id).out).namedChildren.getLast? =
        n.namedChildren.getLast?.map (without (bs f.id).out) ∧
      ∀ c ∈ n.namedChildren.getLast?, Place bs i f c := by
  have hlast := (h.expressions f hn.mem).last n hn.stays hkind
  rw [namedChildren_without]
  refine ⟨getLast?_leftOf hlast, fun c hc => ⟨hn.mem, hn.stays.of_mem_children ?_ (hlast c hc)⟩⟩
  exact (List.mem_filter.1 (List.mem_of_getLast? hc)).1

/-- The operator between two operands is a token, and no comment is one. -/
theorem binaryCall_blanked {f : SourceFile} {n : Node} (hn : Place bs i f n)
    (hkind : n.kind ∈ binaryKinds) :
    binaryCall j ls' (f.blanked (bs f.id)) (n.without (bs f.id).out) = binaryCall i ls f n ∧
      ∀ c ∈ binaryCall i ls f n, Clear bs i c.symbol := by
  obtain ⟨hleft, hleftPlace⟩ := namedChild?_zero_blanked h hn (List.mem_append_right _ hkind)
  obtain ⟨hright, hrightPlace⟩ := lastOperand_blanked h hn hkind
  obtain ⟨htoken, htext⟩ := find?_token_blanked h hn (q := fun _ => true)
  simp only [Bool.and_true] at htoken htext
  refine bind_alike htoken fun token ht => ?_
  rw [htext token ht]
  refine bind_alike_id rfl fun name _ => ?_
  refine bind_alike hleft fun left hl => bind_alike hright fun right hr => ?_
  by_cases hname : name = "contains"
  · rw [if_pos hname, if_pos hname]
    exact operandCall_blanked hls (hrightPlace right hr) fun t ht =>
      operatorCall_blanked h hls hn ht name
  · rw [if_neg hname, if_neg hname]
    exact operandCall_blanked hls (hleftPlace left hl) fun t ht =>
      operatorCall_blanked h hls hn ht name

/-- An operator function with a fixed name that is called at `m` on the first named child of `n`. -/
theorem leadCall_blanked {f : SourceFile} {n m : Node} (hn : Place bs i f n)
    (hkind : n.kind ∈ leadKinds) (hm : Place bs i f m) (name : String) :
    ((((n.without (bs f.id).out).namedChild? 0).bind fun operand =>
        (ls'.top.typeOfExpr (f.blanked (bs f.id)) operand).bind fun t =>
          operatorCall j ls' (f.blanked (bs f.id)) (m.without (bs f.id).out) t name) =
      (n.namedChild? 0).bind fun operand => (ls.top.typeOfExpr f operand).bind fun t =>
        operatorCall i ls f m t name) ∧
    ∀ c ∈ (n.namedChild? 0).bind fun operand => (ls.top.typeOfExpr f operand).bind fun t =>
      operatorCall i ls f m t name, Clear bs i c.symbol := by
  obtain ⟨hoperand, hplace⟩ := namedChild?_zero_blanked h hn hkind
  exact bind_alike hoperand fun operand ho =>
    operandCall_blanked hls (hplace operand ho) fun t ht => operatorCall_blanked h hls hm ht name

theorem unaryCall_blanked {f : SourceFile} {n : Node} (hn : Place bs i f n)
    (hkind : n.kind = "prefix_expression") :
    unaryCall j ls' (f.blanked (bs f.id)) (n.without (bs f.id).out) = unaryCall i ls f n ∧
      ∀ c ∈ unaryCall i ls f n, Clear bs i c.symbol := by
  have hoff := h.off f hn.mem
  have htoken : (n.without (bs f.id).out).child? 0 = (n.child? 0).map (without (bs f.id).out) := by
    rw [child?, child?, Node.children_without, ← List.head?_eq_getElem?, ← List.head?_eq_getElem?]
    exact head?_leftOf fun c hc => hoff.isKept_of_head? hn.stays.within hc
  refine bind_alike htoken fun token ht => ?_
  rw [child?, ← List.head?_eq_getElem?] at ht
  have hs := hn.stays.of_mem_children (List.mem_of_head? ht)
    (hoff.isKept_of_head? hn.stays.within ht)
  simp only [isNamed_without, Option.bind_eq_bind, Option.bind_none]
  cases hnamed : token.isNamed with
  | true => exact none_alike _
  | false =>
      have htext : (f.blanked (bs f.id)).textOf (token.without (bs f.id).out) = f.textOf token :=
        hoff.text_without hs (by rw [Kotlin.isWord, hnamed]; rfl)
      rw [if_neg (by decide), if_neg (by decide), htext]
      exact bind_alike_id rfl fun name _ =>
        leadCall_blanked h hls hn (by rw [hkind]; decide) hn name

theorem postfixCall_blanked {f : SourceFile} {n : Node} (hn : Place bs i f n)
    (hkind : n.kind = "postfix_expression") :
    postfixCall j ls' (f.blanked (bs f.id)) (n.without (bs f.id).out) = postfixCall i ls f n ∧
      ∀ c ∈ postfixCall i ls f n, Clear bs i c.symbol := by
  have hsign := (h.expressions f hn.mem).sign n hn.stays hkind
  have htoken : (n.without (bs f.id).out).children.getLast? =
      n.children.getLast?.map (without (bs f.id).out) := by
    rw [Node.children_without]
    exact getLast?_leftOf fun c hc => (hsign c hc).1
  refine bind_alike htoken fun token ht => ?_
  have htext : (f.blanked (bs f.id)).textOf (token.without (bs f.id).out) = f.textOf token := by
    rw [SourceFile.textOf, Node.text_without]
    exact (hsign token ht).2
  rw [htext]
  exact bind_alike_id rfl fun name _ => leadCall_blanked h hls hn (by rw [hkind]; decide) hn name

theorem indexingCall_blanked {f : SourceFile} {n : Node} (hn : Place bs i f n)
    (hkind : n.kind = "indexing_expression") :
    indexingCall j ls' (f.blanked (bs f.id)) (n.without (bs f.id).out) = indexingCall i ls f n ∧
      ∀ c ∈ indexingCall i ls f n, Clear bs i c.symbol :=
  leadCall_blanked h hls hn (by rw [hkind]; decide) hn "get"

/-! ### Assignments -/

omit hls in
/-- The token of an assignment is told by its kind, and no comment has one. -/
theorem assignmentToken?_blanked {f : SourceFile} {n : Node} (hn : Place bs i f n) :
    assignmentToken? (f.blanked (bs f.id)) (n.without (bs f.id).out) = assignmentToken? f n := by
  obtain ⟨htoken, htext⟩ := find?_token_blanked h hn (q := (Text.endsWithChar · '='))
  rw [assignmentToken?, assignmentToken?, htoken, Option.map_map]
  exact Option.map_congr htext

/-- What is assigned to has the same type. -/
theorem typeOfAssignable_blanked {f : SourceFile} {n : Node} (hn : Place bs i f n)
    (hkind : n.kind = "directly_assignable_expression") :
    typeOfAssignable j ls' (f.blanked (bs f.id)) (n.without (bs f.id).out) =
        typeOfAssignable i ls f n ∧
      ∀ t ∈ typeOfAssignable i ls f n, t.Clear bs i := by
  obtain ⟨heq, hclear⟩ := assignable_blanked h hls hn hkind
  exact bind_alike_id (congrArg List.head? heq) fun s hs =>
    hls.top.typeOfSymbol (hclear s (List.mem_of_head? hs))

/-- An assignment by an operator calls the same function. -/
theorem assignmentCall_blanked {f : SourceFile} {n : Node} (hn : Place bs i f n) :
    assignmentCall j ls' (f.blanked (bs f.id)) (n.without (bs f.id).out) = assignmentCall i ls f n ∧
      ∀ c ∈ assignmentCall i ls f n, Clear bs i c.symbol := by
  refine bind_alike (childOfKind?_without (by decide)) fun target htarget => ?_
  have hs : Place bs i f target := ⟨hn.mem, hn.stays.of_childOfKind? htarget (by decide)⟩
  have hkind := (mem_of_childOfKind? htarget).2
  refine bind_alike_id (assignmentToken?_blanked h hn) fun token _ => ?_
  split
  · refine bind_alike (childOfKind?_without (by decide)) fun suffix _ => ?_
    exact leadCall_blanked h hls hs (by rw [hkind]; decide) hn "set"
  · obtain ⟨htype, hclear⟩ := typeOfAssignable_blanked h hls.below hs hkind
    refine bind_alike_id htype fun t ht => bind_alike_id rfl fun name _ => ?_
    have hcall := fun name => operatorCall_blanked h hls hn (hclear t ht) name
    have heq : operatorCall j ls' (f.blanked (bs f.id)) (n.without (bs f.id).out) t =
        operatorCall i ls f n t := funext fun name => (hcall name).1
    rw [heq]
    refine ⟨rfl, fun c hc => ?_⟩
    cases hassigning : operatorCall i ls f n t name with
    | some d =>
        rw [hassigning] at hc
        obtain rfl := Option.some.inj hc
        exact (hcall name).2 d hassigning
    | none =>
        rw [hassigning] at hc
        obtain ⟨own, -, hc⟩ := Option.bind_eq_some_iff.1 hc
        exact (hcall own).2 c hc

/-- **What an operator or an assignment calls is the same.** -/
theorem operatorTarget_blanked {f : SourceFile} {n : Node} (hn : Place bs i f n) :
    operatorTarget j ls' (f.blanked (bs f.id)) (n.without (bs f.id).out) = operatorTarget i ls f n ∧
      ∀ c ∈ operatorTarget i ls f n, Clear bs i c.symbol := by
  unfold operatorTarget
  rw [kind_without]
  split
  · next hk => exact namedInfixCall_blanked h hls hn hk
  · next hk => exact unaryCall_blanked h hls hn hk
  · next hk => exact postfixCall_blanked h hls hn hk
  · next hk => exact indexingCall_blanked h hls hn hk
  · exact assignmentCall_blanked h hls hn
  · split
    · next hk => exact binaryCall_blanked h hls hn (List.contains_iff_mem.1 hk)
    · exact ⟨rfl, fun c hc => nomatch hc⟩

/-! ### Delegates -/

/-- **A delegate has the same conventions.** -/
theorem delegateCalls_blanked {f : SourceFile} {n : Node} (hn : Place bs i f n)
    (hkind : n.kind = "property_delegate") :
    delegateCalls j ls' (f.blanked (bs f.id)) (n.without (bs f.id).out) =
      delegateCalls i ls f n := by
  obtain ⟨hchild, hplace⟩ := namedChild?_zero_blanked h hn (by rw [hkind]; decide)
  obtain ⟨htype, hclear⟩ := bind_alike (P := ExprType.Clear bs i) hchild fun operand ho =>
    hls.top.typeOfExpr (hplace operand ho)
  unfold delegateCalls
  rw [htype]
  cases ht : (n.namedChild? 0).bind (ls.top.typeOfExpr f) with
  | none => rfl
  | some t =>
      have hcall : operatorCall j ls'.below (f.blanked (bs f.id)) (n.without (bs f.id).out) t =
          operatorCall i ls.below f n t :=
        funext fun name => (operatorCall_blanked h hls.below hn (hclear t ht) name).1
      simp only [hcall, parent?_without]
      cases hp : n.parent? with
      | none => simp only [Option.map_none]
      | some property =>
          have hs : Stays (bs f.id).out f.tree property :=
            Comments.Between.stays_of_mem_ancestors hn.stays.within (List.mem_of_head? hp)
          simp only [Option.map_some, SourceFile.text_blanked, (h.off f hn.mem).binding?_without hs]

end Levels

end Index

end Crossref.Resolve
