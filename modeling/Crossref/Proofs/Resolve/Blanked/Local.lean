import Crossref.Proofs.Index.Blanked
import Crossref.Resolve.Local

/-!
# Proofs — resolution — local bindings with comments left out

A scope binds names at statements, parameters and variables, which it finds by their kinds.  A
comment binds nothing, and it does not move the byte that ends the part of a block in which a name
is bound.

* `localSymbol_blanked`: the symbol of a binding is the same.
* `localBindings_blanked`: what is bound at a node is the same.
-/

namespace Crossref.Resolve
open Node SourceFile

/-! ### Variables -/

/-- A statement or pattern declares the same variables. -/
theorem variablesOf_without {out : Comments} (n : Node) :
    variablesOf (n.without out) = (variablesOf n).map (without out) := by
  unfold variablesOf
  rw [kind_without]
  split
  · rfl
  · exact childrenOfKind_without (by decide)
  · rfl

theorem variablesOf_of_comment {n : Node} (hn : n.kind ∈ commentKinds) : variablesOf n = [] := by
  rcases mem_commentKinds_iff.1 hn with hn | hn <;> simp [variablesOf, hn]

theorem variables_leftOf {out : Comments} (l : List Node) :
    (leftOf out l).flatMap variablesOf = (l.flatMap variablesOf).map (without out) := by
  rw [List.map_flatMap]
  exact flatMap_leftOf (fun c _ _ => variablesOf_without c) fun c _ hc => by
    rw [variablesOf_of_comment (kind_mem_of_not_isKept hc), List.map_nil]

section File

variable {b : Blanking} {f : SourceFile} (h : f.OffDeclarations b)
include h

/-! ### Names -/

omit h in
theorem stays_of_mem_variablesOf {n v : Node} (hn : Stays b.out f.tree n) (hv : v ∈ variablesOf n) :
    Stays b.out f.tree v := by
  unfold variablesOf at hv
  split at hv
  · obtain rfl := List.mem_singleton.1 hv
    exact hn
  · exact hn.of_mem_childrenOfKind hv (by decide)
  · cases hv

omit h in
/-- Variables stay, since comments hold none. -/
theorem stays_of_mem_variables {n v : Node} (hn : Stays b.out f.tree n)
    (hv : v ∈ n.children.flatMap variablesOf) : Stays b.out f.tree v := by
  obtain ⟨c, hc, hv⟩ := List.mem_flatMap.1 hv
  refine stays_of_mem_variablesOf (hn.of_mem_children hc (isKept_of_kind fun hk => ?_)) hv
  rw [variablesOf_of_comment hk] at hv
  cases hv

/-- A node that stays has the same identifier. -/
theorem identifierOf?_blanked {n : Node} (hn : Stays b.out f.tree n) :
    identifierOf? (f.blanked b) (n.without b.out) = identifierOf? f n := by
  rw [identifierOf?, identifierOf?, childOfKind?_without (by decide)]
  exact h.map_text (Comments.OffDeclarations.word_of_childOfKind? hn (by decide))

/-- So it is named as before. -/
theorem isNamedAs_blanked {n : Node} (hn : Stays b.out f.tree n) (name : String) :
    isNamedAs (f.blanked b) name (n.without b.out) = isNamedAs f name n := by
  rw [isNamedAs, isNamedAs, identifierOf?_blanked h hn]

/-- Of nodes that stay, those with the name. -/
theorem filter_isNamedAs_blanked {l : List Node} (hl : ∀ n ∈ l, Stays b.out f.tree n)
    (name : String) :
    (l.map (without b.out)).filter (isNamedAs (f.blanked b) name) =
      (l.filter (isNamedAs f name)).map (without b.out) := by
  rw [List.filter_map]
  congr 1
  exact List.filter_congr fun n hn => isNamedAs_blanked h (hl n hn) name

/-! ### Symbols -/

/-- **The symbol of a binding is the same.** -/
theorem localSymbol_blanked {n : Node} (hn : Stays b.out f.tree n) (kind : Symbol.Kind)
    (name : String) :
    localSymbol (f.blanked b) (n.without b.out) kind name = localSymbol f n kind name := by
  have hdeclared : ((n.without b.out).childOfKind? "variable_declaration").bind
        (Kotlin.typeText? · b.text) =
      (n.childOfKind? "variable_declaration").bind (Kotlin.typeText? · f.text) := by
    rw [childOfKind?_without (by decide), Option.bind_map]
    exact Option.bind_congr fun c hc => h.typeText?_without (hn.of_childOfKind? hc (by decide))
  unfold localSymbol
  simp only [keyOf_blanked h hn, kind_without, text_blanked, id_blanked, origin_blanked,
    language_blanked, path_blanked, hdeclared, h.returnType?_without hn, h.typeText?_without hn,
    h.binding?_without hn, h.receiverType?_without hn, Kotlin.parameterCount?_without,
    h.modifiers_without hn]

/-- The symbols of nodes that stay. -/
theorem map_localSymbol_blanked {l : List Node} (hl : ∀ n ∈ l, Stays b.out f.tree n)
    (kind : Symbol.Kind) (name : String) :
    (l.map (without b.out)).map (localSymbol (f.blanked b) · kind name) =
      l.map (localSymbol f · kind name) := by
  rw [List.map_map]
  exact List.map_congr_left fun n hn => localSymbol_blanked h (hl n hn) kind name

/-- The symbols of those of nodes that stay that have the name. -/
theorem named_blanked {l : List Node} (hl : ∀ n ∈ l, Stays b.out f.tree n) (kind : Symbol.Kind)
    (name : String) :
    ((l.map (without b.out)).filter (isNamedAs (f.blanked b) name)).map
        (localSymbol (f.blanked b) · kind name) =
      (l.filter (isNamedAs f name)).map (localSymbol f · kind name) := by
  rw [filter_isNamedAs_blanked h hl,
    map_localSymbol_blanked h fun n hn => hl n (List.mem_filter.1 hn).1]

/-! ### Blocks -/

omit h in
/-- The variables that a statement declares in parentheses stay. -/
theorem stays_of_mem_components {n v : Node} (hn : Stays b.out f.tree n)
    (hv : v ∈ (n.childOfKind? "multi_variable_declaration").toList.flatMap variablesOf) :
    Stays b.out f.tree v := by
  obtain ⟨multi, hmulti, hv⟩ := List.mem_flatMap.1 hv
  exact stays_of_mem_variablesOf
    (hn.of_childOfKind? (Option.mem_toList.1 hmulti) (by decide)) hv

/-- The one variable of a statement, if it has the name. -/
theorem variable_blanked {n : Node} (hn : Stays b.out f.tree n) (name : String) :
    ((n.without b.out).childOfKind? "variable_declaration").toList.filter
        (isNamedAs (f.blanked b) name) =
      ((n.childOfKind? "variable_declaration").toList.filter (isNamedAs f name)).map
        (without b.out) := by
  rw [childOfKind?_without (by decide), Option.toList_map]
  exact filter_isNamedAs_blanked h
    (fun c hc => hn.of_childOfKind? (Option.mem_toList.1 hc) (by decide)) name

/-- Those of its variables in parentheses that have the name. -/
theorem components_blanked {n : Node} (hn : Stays b.out f.tree n) (name : String) :
    (((n.without b.out).childOfKind? "multi_variable_declaration").toList.flatMap
        variablesOf).filter (isNamedAs (f.blanked b) name) =
      (((n.childOfKind? "multi_variable_declaration").toList.flatMap variablesOf).filter
        (isNamedAs f name)).map (without b.out) := by
  rw [childOfKind?_without (by decide), Option.toList_map, List.flatMap_map]
  simp only [variablesOf_without, ← List.map_flatMap]
  exact filter_isNamedAs_blanked h (fun _ => stays_of_mem_components hn) name

/-- A statement of a block binds a name in the same way. -/
theorem bindStatement_blanked {n : Node} (hn : Stays b.out f.tree n) (name : String)
    (found : List Symbol) :
    bindStatement (f.blanked b) name found (n.without b.out) = bindStatement f name found n := by
  unfold bindStatement
  rw [kind_without]
  split
  · dsimp only
    rw [variable_blanked h hn, components_blanked h hn, List.getLast?_map]
    generalize hfound : ((n.childOfKind? "multi_variable_declaration").toList.flatMap
      variablesOf).filter (isNamedAs f name) = components
    cases hlast : components.getLast? with
    | some component =>
        have hmem : component ∈ components := List.mem_of_getLast? hlast
        rw [← hfound] at hmem
        simp only [Option.map_some,
          localSymbol_blanked h (stays_of_mem_components hn (List.mem_filter.1 hmem).1)]
    | none =>
        cases (n.childOfKind? "variable_declaration").toList.filter (isNamedAs f name) with
        | nil => rfl
        | cons v vs => simp only [Option.map_none, List.map_cons, localSymbol_blanked h hn]
  · rw [text_blanked, h.declarationName?_without hn, localSymbol_blanked h hn]
  · rfl

omit h in
theorem bindStatement_of_comment {n : Node} (hn : n.kind ∈ commentKinds) (name : String)
    (found : List Symbol) : bindStatement f name found n = found := by
  rcases mem_commentKinds_iff.1 hn with hn | hn <;> simp [bindStatement, hn]

/-- Comments join nothing to the bindings of a block. -/
theorem foldl_bindStatement_blanked (name : String) :
    ∀ {l : List Node} {found : List Symbol},
      (∀ c ∈ l, c.isKept b.out = true → Stays b.out f.tree c) →
      (leftOf b.out l).foldl (bindStatement (f.blanked b) name) found =
        l.foldl (bindStatement f name) found
  | [], _, _ => rfl
  | c :: l, found, hl => by
      have htail : ∀ d ∈ l, d.isKept b.out = true → Stays b.out f.tree d :=
        fun d hd => hl d (List.mem_cons_of_mem _ hd)
      cases hk : c.isKept b.out with
      | true =>
          rw [leftOf_cons_of_kept hk, List.foldl_cons, List.foldl_cons,
            bindStatement_blanked h (hl c List.mem_cons_self hk),
            foldl_bindStatement_blanked name htail]
      | false =>
          rw [leftOf_cons_of_not_kept hk, List.foldl_cons,
            bindStatement_of_comment (kind_mem_of_not_isKept hk),
            foldl_bindStatement_blanked name htail]

omit h in
/-- Of nodes in order, those that start before a byte, comments among them or not. -/
theorem takeWhile_start_leftOf {out : Comments} {l : List Node} {e : Nat}
    (hl : l.Pairwise fun c d => c.start ≤ d.start) :
    (leftOf out l).takeWhile (·.start < e) = leftOf out (l.takeWhile (·.start < e)) := by
  induction l with
  | nil => rfl
  | cons c l ih =>
      obtain ⟨hc, hl⟩ := List.pairwise_cons.1 hl
      by_cases hlt : c.start < e
      · rw [List.takeWhile_cons_of_pos (by simpa using hlt)]
        cases hk : c.isKept out with
        | true =>
            rw [leftOf_cons_of_kept hk, leftOf_cons_of_kept hk,
              List.takeWhile_cons_of_pos (by simpa using hlt), ih hl]
        | false => rw [leftOf_cons_of_not_kept hk, leftOf_cons_of_not_kept hk, ih hl]
      · -- nothing that stands behind starts before the byte either
        rw [List.takeWhile_cons_of_neg (by simpa using hlt)]
        cases hleft : leftOf out (c :: l) with
        | nil => rfl
        | cons m ms =>
            rw [List.takeWhile_cons_of_neg]
            · rfl
            have hm : m ∈ leftOf out (c :: l) := by simp [hleft]
            obtain ⟨d, hd, -, rfl⟩ := mem_leftOf_iff.1 hm
            have hge : c.start ≤ d.start := by
              rcases List.mem_cons.1 hd with rfl | hd
              · exact Nat.le_refl _
              · exact hc d hd
            simpa using Nat.le_trans (Nat.le_of_not_lt hlt) hge

/-- **A block binds a name before a place in the same way.**  The comments among its statements bind
nothing. -/
theorem blockBindings_blanked {n : Node} (hn : Stays b.out f.tree n) (name : String) (e : Nat) :
    blockBindings (f.blanked b) name (n.without b.out) e = blockBindings f name n e := by
  have hordered : n.children.Pairwise fun c d => c.start ≤ d.start :=
    (h.wellFormed n hn.within).inOrder.imp_of_mem fun {c d} hc hd hcd =>
      Nat.le_trans (h.wellFormed.start_le_stop (.child hn.within hc)) hcd
  rw [blockBindings, blockBindings, Node.children_without, takeWhile_start_leftOf hordered]
  exact foldl_bindStatement_blanked h name fun c hc hk =>
    hn.of_mem_children ((List.takeWhile_sublist _).subset hc) hk

/-! ### Scopes -/

omit h in
theorem stays_of_mem_valueParameters {n p : Node} (hn : Stays b.out f.tree n)
    (hp : p ∈ Kotlin.valueParameters n) : Stays b.out f.tree p := by
  unfold Kotlin.valueParameters at hp
  split at hp
  · next list hlist =>
    exact (hn.of_childOfKind? hlist (by decide)).of_mem_childrenOfKind hp (by decide)
  · cases hp

/-- A lambda binds its parameters, or the one that it does not write. -/
theorem lambdaBindings_blanked {n : Node} (hn : Stays b.out f.tree n) (name : String) :
    lambdaBindings (f.blanked b) name (n.without b.out) = lambdaBindings f name n := by
  rw [lambdaBindings, lambdaBindings, childOfKind?_without (by decide)]
  cases hlist : n.childOfKind? "lambda_parameters" with
  | some list =>
      have hs := hn.of_childOfKind? hlist (by decide)
      simp only [Option.map_some, Node.children_without, variables_leftOf]
      exact named_blanked h (fun v hv => stays_of_mem_variables hs hv) _ name
  | none => simp only [Option.map_none, localSymbol_blanked h hn]

theorem functionBindings_blanked {n : Node} (hn : Stays b.out f.tree n) (name : String) :
    functionBindings (f.blanked b) name (n.without b.out) = functionBindings f name n := by
  rw [functionBindings, functionBindings, Kotlin.valueParameters_without]
  exact named_blanked h (fun p hp => stays_of_mem_valueParameters hn hp) _ name

theorem loopBindings_blanked {n : Node} (hn : Stays b.out f.tree n) (name : String) :
    loopBindings (f.blanked b) name (n.without b.out) = loopBindings f name n := by
  rw [loopBindings, loopBindings, Node.children_without, variables_leftOf]
  exact named_blanked h (fun v hv => stays_of_mem_variables hn hv) _ name

theorem catchBindings_blanked {n : Node} (hn : Stays b.out f.tree n) (name : String) :
    catchBindings (f.blanked b) name (n.without b.out) = catchBindings f name n := by
  have hword := Comments.OffDeclarations.word_of_childOfKind? hn (k := "simple_identifier")
    (by decide)
  rw [catchBindings, catchBindings, childOfKind?_without (by decide)]
  cases hidentifier : n.childOfKind? "simple_identifier" with
  | none => rfl
  | some identifier =>
      obtain ⟨hs, hw⟩ := hword identifier hidentifier
      have htext : (f.blanked b).textOf (identifier.without b.out) = f.textOf identifier :=
        h.text_without hs hw
      simp only [Option.map_some, Option.toList_some, List.filter_cons, htext, List.filter_nil]
      split
      · simp only [List.map_cons, List.map_nil, localSymbol_blanked h hs]
      · rfl

theorem setterBindings_blanked {n : Node} (hn : Stays b.out f.tree n) (name : String) :
    setterBindings (f.blanked b) name (n.without b.out) = setterBindings f name n := by
  rw [setterBindings, setterBindings, childOfKind?_without (by decide), Option.toList_map]
  exact named_blanked h
    (fun c hc => hn.of_childOfKind? (Option.mem_toList.1 hc) (by decide)) _ name

theorem classBindings_blanked {n : Node} (hn : Stays b.out f.tree n) (name : String) :
    classBindings (f.blanked b) name (n.without b.out) = classBindings f name n := by
  rw [classBindings, classBindings, Kotlin.classParameters_without, List.filter_map]
  have hplain : (Kotlin.classParameters n).filter ((fun p =>
        Kotlin.binding? p (f.blanked b).text = none && isNamedAs (f.blanked b) name p) ∘
          without b.out) =
      (Kotlin.classParameters n).filter fun p =>
        Kotlin.binding? p f.text = none && isNamedAs f name p := by
    refine List.filter_congr fun p hp => ?_
    have hs := Kotlin.stays_of_mem_classParameters hn hp
    rw [Function.comp_apply, text_blanked, h.binding?_without hs, isNamedAs_blanked h hs]
  rw [hplain]
  exact map_localSymbol_blanked h (fun p hp =>
    Kotlin.stays_of_mem_classParameters hn (List.mem_filter.1 hp).1) _ name

/-- **Each scope binds a name in the same way**, from wherever in it. -/
theorem scopeBindings_blanked {scope current : Node} (hscope : Stays b.out f.tree scope)
    (name : String) :
    scopeBindings (f.blanked b) name (scope.without b.out) (current.without b.out) =
      scopeBindings f name scope current := by
  unfold scopeBindings
  rw [kind_without, start_without]
  split
  · exact blockBindings_blanked h hscope name _
  · exact lambdaBindings_blanked h hscope name
  · exact functionBindings_blanked h hscope name
  · exact functionBindings_blanked h hscope name
  · exact functionBindings_blanked h hscope name
  · exact loopBindings_blanked h hscope name
  · exact catchBindings_blanked h hscope name
  · exact setterBindings_blanked h hscope name
  · exact classBindings_blanked h hscope name
  · rfl

/-- So do the scopes around a place, from the innermost on. -/
theorem bindingsAbove_blanked (name : String) :
    ∀ {above : List Node} {current : Node}, (∀ a ∈ above, Stays b.out f.tree a) →
      bindingsAbove (f.blanked b) name (current.without b.out) (above.map (without b.out)) =
        bindingsAbove f name current above
  | [], _, _ => rfl
  | scope :: above, current, habove => by
      rw [List.map_cons, bindingsAbove, bindingsAbove,
        scopeBindings_blanked h (habove scope List.mem_cons_self),
        bindingsAbove_blanked name fun a ha => habove a (List.mem_cons_of_mem _ ha)]

/-- **What is bound at a node is the same.** -/
theorem localBindings_blanked {n : Node} (hn : Stays b.out f.tree n) (name : String) :
    localBindings (f.blanked b) name (n.without b.out) = localBindings f name n := by
  rw [localBindings, localBindings, ancestors_without]
  exact bindingsAbove_blanked h name fun a ha =>
    Comments.Between.stays_of_mem_ancestors hn.within ha

end File

end Crossref.Resolve
