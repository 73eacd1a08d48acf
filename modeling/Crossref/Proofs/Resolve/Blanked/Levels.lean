import Crossref.Proofs.Resolve.Blanked.Operators

/-!
# Proofs — resolution — types and levels with comments left out

The type of an expression is that of what it denotes, calls or holds, so it is the same when
comments are left out; and a level over levels that answer alike answers alike.

* `typeOfSymbol_blanked`, `typeOfExpr_blanked`: types are the same.
* `same_levels`: **every level of the stack answers alike.**
-/

namespace Crossref.Resolve
open Node Index

section Index

variable {bs : FileId → Blanking} {i j : Index} (h : Spared bs i j)
include h

/-- The expression behind the equals sign of a property. -/
theorem initializer?_blanked {f : SourceFile} {n : Node} (hn : Place bs i f n)
    (hkind : n.kind = "property_declaration") :
    initializer? (n.without (bs f.id).out) = (initializer? n).map (without (bs f.id).out) ∧
      ∀ c ∈ initializer? n, Place bs i f c := by
  have hinitial := (h.expressions f hn.mem).initial n hn.stays hkind
  have hsign : ∀ c : Node, c.kind ∈ commentKinds → (c.kind != "=") = true :=
    fun c hc => bne_iff_ne.2 fun e => absurd (e ▸ hc) (by decide)
  refine ⟨?_, fun c hc => ⟨hn.mem, hn.stays.of_mem_children ?_ (hinitial c hc)⟩⟩
  · rw [initializer?, initializer?, Node.children_without, dropWhile_kind_leftOf (by simp) hsign]
    exact find?_leftOf_of_isKept (by simp) hinitial
  · exact (List.dropWhile_sublist _).subset (List.mem_of_find?_eq_some hc)

omit h in
theorem clear_ofClassifier {c : Symbol} (hc : Clear bs i c) :
    (ExprType.ofClassifier c).Clear bs i := by
  intro d hd
  obtain rfl := Option.some.inj hd
  exact hc

section Levels

variable {ls ls' : Levels} (hls : Levels.Same bs i ls ls')
include hls

/-! ### Types of symbols -/

theorem declaredTypeOf_blanked {s : Symbol} (hs : Clear bs i s) :
    declaredTypeOf j ls' s = declaredTypeOf i ls s ∧
      ∀ t ∈ declaredTypeOf i ls s, t.Clear bs i := by
  obtain ⟨hanchor, hplace⟩ := h.anchor?_eq hs
  refine bind_alike hanchor fun p hp => ?_
  obtain ⟨f, anchor⟩ := p
  have hn : Place bs i f anchor := ⟨(hplace _ hp).1, (hplace _ hp).2⟩
  simp only [leftAt]
  cases s.typeText with
  | some text =>
      obtain ⟨hnamed, hclear⟩ := hls.top.classifierNamed hn text true
      simp only [hnamed]
      exact ⟨trivial, fun t ht => by obtain rfl := Option.some.inj ht; exact hclear⟩
  | none =>
      simp only [kind_without, hasChildOfKind_without
        (show "property_delegate" ∉ commentKinds by decide)]
      split
      · next hkind =>
        obtain ⟨hinitial, hplaces⟩ := initializer?_blanked h hn hkind.1
        exact bind_alike hinitial fun c hc => hls.top.typeOfExpr (hplaces c hc)
      · exact none_alike _

theorem typeOfSymbol_blanked {s : Symbol} (hs : Clear bs i s) :
    typeOfSymbol j ls' s = typeOfSymbol i ls s ∧ ∀ t ∈ typeOfSymbol i ls s, t.Clear bs i := by
  have hself : (some (ExprType.ofClassifier s) = some (ExprType.ofClassifier s)) ∧
      ∀ t ∈ some (ExprType.ofClassifier s), t.Clear bs i :=
    ⟨rfl, fun t ht => by obtain rfl := Option.some.inj ht; exact clear_ofClassifier hs⟩
  have howner : typeOfSymbol.ownerType j ls' s = typeOfSymbol.ownerType i ls s ∧
      ∀ t ∈ typeOfSymbol.ownerType i ls s, t.Clear bs i := by
    unfold typeOfSymbol.ownerType
    rw [h.symbol?]
    cases ho : s.parent.bind i.symbol? with
    | some owner =>
        refine ⟨rfl, fun t ht => ?_⟩
        obtain rfl := Option.some.inj ht
        obtain ⟨handle, -, ho⟩ := Option.bind_eq_some_iff.1 ho
        rw [h.consistent.tables, symbol?_ofParts] at ho
        exact clear_ofClassifier
          (h.clear_of_mem (List.mem_filter.1 (List.mem_of_getLast? ho)).1)
    | none => exact declaredTypeOf_blanked h hls hs
  unfold typeOfSymbol
  split
  · exact hself
  · exact hself
  · exact hself
  · exact hself
  · obtain ⟨halias, hclear⟩ := followAlias_blanked h hls hs
    rw [halias]
    refine ⟨rfl, fun t ht => ?_⟩
    obtain ⟨c, hc, rfl⟩ := Option.map_eq_some_iff.1 ht
    exact clear_ofClassifier (hclear c hc)
  · exact howner
  · exact howner
  · exact declaredTypeOf_blanked h hls hs

/-! ### Types of expressions -/

omit h in
/-- A type with a name as written. -/
theorem namedType_blanked {f : SourceFile} {n : Node} (hn : Place bs i f n) (name : String) :
    namedType ls' (f.blanked (bs f.id)) (n.without (bs f.id).out) name = namedType ls f n name ∧
      (namedType ls f n name).Clear bs i := by
  obtain ⟨hnamed, hclear⟩ := hls.top.classifierNamed hn name true
  rw [namedType, namedType, hnamed]
  exact ⟨rfl, hclear⟩

theorem thisTypeAt_blanked {f : SourceFile} {n : Node} (hn : Place bs i f n)
    (label : Option String) :
    thisTypeAt j ls' (f.blanked (bs f.id)) label (n.without (bs f.id).out) =
        thisTypeAt i ls f label n ∧
      ∀ o ∈ thisTypeAt i ls f label n, ∀ t ∈ o, t.Clear bs i := by
  have hoff := h.off f hn.mem
  unfold thisTypeAt
  simp only [kind_without, SourceFile.text_blanked, hoff.declarationName?_without hn.stays,
    hoff.receiverType?_without hn.stays, SourceFile.keyOf_blanked hoff hn.stays, h.classifierAt?]
  split
  · refine bind_alike_id rfl fun receiver _ => ?_
    obtain ⟨hnamed, hclear⟩ := namedType_blanked hls hn (Kotlin.simpleTypeName receiver)
    rw [hnamed]
    split
    · refine ⟨rfl, fun o ho t ht => ?_⟩
      obtain rfl := Option.some.inj ho
      obtain rfl := Option.some.inj ht
      exact hclear
    · exact none_alike _
  · split
    · refine ⟨rfl, fun o ho t ht => ?_⟩
      obtain rfl := Option.some.inj ho
      obtain ⟨c, hc, rfl⟩ := Option.map_eq_some_iff.1 ht
      exact clear_ofClassifier (clear_of_classifierAt? h hc)
    · exact none_alike _

theorem thisType_blanked {f : SourceFile} {n : Node} (hn : Place bs i f n)
    (hkind : n.kind = "this_expression") :
    thisType j ls' (f.blanked (bs f.id)) (n.without (bs f.id).out) = thisType i ls f n ∧
      ∀ t ∈ thisType i ls f n, t.Clear bs i := by
  have htext : (f.blanked (bs f.id)).textOf (n.without (bs f.id).out) = f.textOf n :=
    (h.off f hn.mem).text_without hn.stays
      (Comments.OffDeclarations.isWord_of_kind hkind (by decide))
  have hat : ∀ a ∈ n.ancestors, Place bs i f a := fun a ha =>
    ⟨hn.mem, Comments.Between.stays_of_mem_ancestors hn.stays.within ha⟩
  have hfind : ∀ l : List Node, (∀ a ∈ l, Place bs i f a) →
      (l.map (without (bs f.id).out)).findSome?
          (thisTypeAt j ls' (f.blanked (bs f.id)) (thisLabel? (f.textOf n))) =
        l.findSome? (thisTypeAt i ls f (thisLabel? (f.textOf n))) := by
    intro l hl
    induction l with
    | nil => rfl
    | cons a l ih =>
        rw [List.map_cons, List.findSome?_cons, List.findSome?_cons,
          (thisTypeAt_blanked h hls (hl a List.mem_cons_self) _).1,
          ih fun d hd => hl d (List.mem_cons_of_mem _ hd)]
  rw [thisType, thisType, htext, ancestors_without, hfind _ hat]
  refine ⟨rfl, fun t ht => ?_⟩
  obtain ⟨a, ha, hfound⟩ := List.exists_of_findSome?_eq_some (Option.join_eq_some_iff.1 ht)
  exact (thisTypeAt_blanked h hls (hat a ha) _).2 (some t) hfound t rfl

/-- The type that a cast is to. -/
theorem castType_blanked {f : SourceFile} {n : Node} (hn : Place bs i f n) :
    (((n.without (bs f.id).out).children.filter Kotlin.isTypeNode).getLast?.map fun t =>
        namedType ls' (f.blanked (bs f.id)) (n.without (bs f.id).out)
          (Kotlin.simpleTypeName ((f.blanked (bs f.id)).textOf t))) =
      ((n.children.filter Kotlin.isTypeNode).getLast?.map fun t =>
        namedType ls f n (Kotlin.simpleTypeName (f.textOf t))) := by
  rw [Node.children_without, filter_kind_leftOf Kotlin.isTypeNode_without fun _ =>
    Kotlin.isTypeNode_of_comment, List.getLast?_map, Option.map_map]
  refine Option.map_congr fun t ht => ?_
  obtain ⟨hmem, htype⟩ := List.mem_filter.1 (List.mem_of_getLast? ht)
  have htext : (f.blanked (bs f.id)).textOf (t.without (bs f.id).out) = f.textOf t :=
    (h.off f hn.mem).text_without
      (hn.stays.of_mem_children hmem (Comments.OffDeclarations.not_comment_of_isTypeNode htype))
      (Comments.OffDeclarations.isWord_of_isTypeNode htype)
  rw [Function.comp_apply, htext, (namedType_blanked hls hn _).1]

omit h in
/-- The type that every expression of one kind has. -/
theorem some_namedType_blanked {f : SourceFile} {n : Node} (hn : Place bs i f n) (name : String) :
    some (namedType ls' (f.blanked (bs f.id)) (n.without (bs f.id).out) name) =
        some (namedType ls f n name) ∧
      ∀ t ∈ some (namedType ls f n name), t.Clear bs i := by
  obtain ⟨heq, hclear⟩ := namedType_blanked hls hn name
  exact ⟨congrArg some heq, fun t ht => by obtain rfl := Option.some.inj ht; exact hclear⟩

omit h in
/-- The type of the first of the symbols that are found. -/
theorem typeOfFirst_blanked {l l' : List Symbol} (heq : l' = l) (hclear : ∀ s ∈ l, Clear bs i s) :
    l'.head?.bind ls'.top.typeOfSymbol = l.head?.bind ls.top.typeOfSymbol ∧
      ∀ t ∈ l.head?.bind ls.top.typeOfSymbol, t.Clear bs i :=
  bind_alike_id (congrArg List.head? heq) fun s hs =>
    hls.top.typeOfSymbol (hclear s (List.mem_of_head? hs))

/-- The type of the expression that another one is written around. -/
theorem typeOfOperand_blanked {f : SourceFile} {n : Node} (hn : Place bs i f n)
    (hk : n.kind ∈ leadKinds) :
    ((n.without (bs f.id).out).namedChild? 0).bind (ls'.top.typeOfExpr (f.blanked (bs f.id))) =
        (n.namedChild? 0).bind (ls.top.typeOfExpr f) ∧
      ∀ t ∈ (n.namedChild? 0).bind (ls.top.typeOfExpr f), t.Clear bs i := by
  obtain ⟨hchild, hplace⟩ := namedChild?_zero_blanked h hn hk
  exact bind_alike hchild fun c hc => hls.top.typeOfExpr (hplace c hc)

/-- The type of `super`: the first supertype of the innermost receiver. -/
theorem superType_blanked {f : SourceFile} {n : Node} (hn : Place bs i f n) :
    (((enclosingReceivers j ls'.below (f.blanked (bs f.id)) (n.without (bs f.id).out)).head?.bind
        fun c => (supertypesOf j ls' c).head?).map ExprType.ofClassifier) =
      (((enclosingReceivers i ls.below f n).head?.bind
        fun c => (supertypesOf i ls c).head?).map ExprType.ofClassifier) ∧
      ∀ t ∈ ((enclosingReceivers i ls.below f n).head?.bind
        fun c => (supertypesOf i ls c).head?).map ExprType.ofClassifier, t.Clear bs i := by
  obtain ⟨hreceivers, hclear⟩ := enclosingReceivers_blanked h hls.below hn
  have hnext : ∀ c ∈ (enclosingReceivers i ls.below f n).head?,
      (supertypesOf j ls' c).head? = (supertypesOf i ls c).head? ∧
        ∀ d ∈ (supertypesOf i ls c).head?, Clear bs i d := fun c hc => by
    obtain ⟨hsupers, hclear⟩ := supertypesOf_blanked h hls (hclear c (List.mem_of_head? hc))
    exact ⟨congrArg List.head? hsupers, fun d hd => hclear d (List.mem_of_head? hd)⟩
  obtain ⟨hsuper, hclear⟩ := bind_alike_id (congrArg List.head? hreceivers) hnext
  rw [hsuper]
  refine ⟨rfl, fun t ht => ?_⟩
  obtain ⟨c, hc, rfl⟩ := Option.map_eq_some_iff.1 ht
  exact clear_ofClassifier (hclear c hc)

/-- **The type of an expression is the same**: one case for each kind of expression. -/
theorem typeOfExpr_blanked {f : SourceFile} {n : Node} (hn : Place bs i f n) :
    typeOfExpr j ls' (f.blanked (bs f.id)) (n.without (bs f.id).out) = typeOfExpr i ls f n ∧
      ∀ t ∈ typeOfExpr i ls f n, t.Clear bs i := by
  have hnamed := some_namedType_blanked hls hn
  have hword : Kotlin.wordKinds.contains n.kind = true →
      (f.blanked (bs f.id)).textOf (n.without (bs f.id).out) = f.textOf n := fun hk =>
    (h.off f hn.mem).text_without hn.stays (Comments.OffDeclarations.isWord_of_kind rfl hk)
  unfold typeOfExpr
  rw [kind_without]
  split
  · next hk =>
    obtain ⟨hlookup, hclear⟩ := hls.top.lookup hn (f.textOf n) .value
    rw [hword (by rw [hk]; decide)]
    exact typeOfFirst_blanked hls hlookup hclear
  iterate 3
    · next hk => exact typeOfOperand_blanked h hls hn (by rw [hk]; decide)
  · next hk =>
    obtain ⟨haccess, hclear⟩ := accessNavigation_blanked h hls.below hn hk .value
    exact typeOfFirst_blanked hls (congrArg Access.symbols haccess) hclear
  · next hk =>
    obtain ⟨hcall, hclear⟩ := callTarget_blanked h hls.below hn hk
    exact bind_alike_id hcall fun c hc => hls.top.typeOfSymbol (hclear c hc)
  · obtain ⟨hcall, hclear⟩ := operatorTarget_blanked h hls.below hn
    exact bind_alike_id hcall fun c hc => hls.top.typeOfSymbol (hclear c hc)
  · next hk => exact thisType_blanked h hls hn hk
  · exact superType_blanked h hls hn
  · refine ⟨castType_blanked h hls hn, fun t ht => ?_⟩
    obtain ⟨written, -, rfl⟩ := Option.map_eq_some_iff.1 ht
    exact (namedType_blanked hls hn _).2
  iterate 7
    · exact hnamed _
  · next hk =>
    rw [hword (by rw [hk]; decide)]
    exact hnamed _
  iterate 2
    · exact hnamed _
  · exact none_alike _

/-! ### Levels -/

/-- A level over levels that answer alike answers alike. -/
theorem same_levelOver : Level.Same bs i (levelOver i ls) (levelOver j ls') := by
  refine ⟨?_, ?_, ?_, ?_⟩
  · intro f n hn name want
    simp only [levelOver]
    exact lookupName_blanked h hls hn name want
  · intro f n hn text throughAlias
    simp only [levelOver]
    exact classifierOfText_blanked h hls hn text throughAlias
  · intro f n hn
    simp only [levelOver]
    exact typeOfExpr_blanked h hls hn
  · intro s hs
    simp only [levelOver]
    exact typeOfSymbol_blanked h hls hs

end Levels

/-- **Every level of the stack answers alike.** -/
theorem same_levels : ∀ height : Nat, Levels.Same bs i (levels i height) (levels j height)
  | 0 => .nil
  | height + 1 => .cons (same_levelOver h (same_levels height)) (same_levels height)

end Index

end Crossref.Resolve
