import Crossref.Proofs.Kotlin.Comments
import Crossref.Index

/-!
# Proofs — Kotlin — symbols with comments left out

A file without some of its comments, blanks in their places, so that no other span moves.  It
declares the symbols that it declared, in the same order: a walk over declarations goes by kinds,
and ends at a comment, which has no children.

* `symbols_blanked`: a file declares the same symbols when comments are left out.
-/

namespace Crossref

/-- The comments to leave out of a file, and the text with something else in their places. -/
structure Blanking where
  out : Comments
  text : String

namespace SourceFile

/-- The file without the comments. -/
def blanked (b : Blanking) (f : SourceFile) : SourceFile :=
  { f with tree := f.tree.without b.out, text := b.text }

section Fields

variable (b : Blanking) (f : SourceFile)

@[simp] theorem text_blanked : (f.blanked b).text = b.text := rfl

@[simp] theorem path_blanked : (f.blanked b).path = f.path := rfl

@[simp] theorem origin_blanked : (f.blanked b).origin = f.origin := rfl

@[simp] theorem language_blanked : (f.blanked b).language = f.language := rfl

@[simp] theorem package_blanked : (f.blanked b).package = f.package := rfl

@[simp] theorem imports_blanked : (f.blanked b).imports = f.imports := rfl

@[simp] theorem id_blanked : (f.blanked b).id = f.id := rfl

end Fields

/-- The comments stand where no declaration of the file is read. -/
abbrev OffDeclarations (b : Blanking) (f : SourceFile) : Prop :=
  b.out.OffDeclarations f.text b.text f.tree

end SourceFile

namespace Kotlin
open Node SourceFile

/-! ### One declaration -/

section Declaration

variable {b : Blanking} {f : SourceFile} (h : f.OffDeclarations b) {n : Node}
  (hn : Stays b.out f.tree n)
include h hn

/-- The span of a node that stays is the same, and so is a handle made for it. -/
theorem handleOf_blanked (kind : Symbol.Kind) :
    handleOf (f.blanked b) (n.without b.out) kind = handleOf f n kind := by
  rw [handleOf, handleOf, start_without, h.spanStop_without hn]
  rfl

/-- What a node that stays tells of its symbol is the same: package, names, modifiers and types are
read from texts without comments. -/
theorem symbolOf_blanked (kind : Symbol.Kind) (name : String) :
    symbolOf (f.blanked b) (n.without b.out) kind name = symbolOf f n kind name := by
  rw [symbolOf, symbolOf, handleOf_blanked h hn]
  rw [text_blanked, path_blanked, origin_blanked, package_blanked, h.modifiers_without hn,
    h.qualifiedName?_without hn]

theorem functionSymbol?_blanked (parent : Option Handle) :
    functionSymbol? (f.blanked b) parent (n.without b.out) = functionSymbol? f parent n := by
  simp only [functionSymbol?, symbolOf_blanked h hn]
  simp only [text_blanked, h.declarationName?_without hn, parameterCount?_without,
    h.receiverType?_without hn, h.returnType?_without hn]

/-- A property is named by its binding, wherever comments stand beside it. -/
theorem propertySymbol?_blanked (parent : Option Handle) :
    propertySymbol? (f.blanked b) parent (n.without b.out) = propertySymbol? f parent n := by
  have hdelegate : (n.without b.out).hasChildOfKind "property_delegate" =
      n.hasChildOfKind "property_delegate" := hasChildOfKind_without (by decide)
  simp only [propertySymbol?, symbolOf_blanked h hn, childOfKind?_without
    (show "variable_declaration" ∉ commentKinds by decide), hdelegate]
  simp only [text_blanked, h.declarationName?_without hn, h.binding?_without hn,
    h.receiverType?_without hn]
  cases hdeclared : n.childOfKind? "variable_declaration" with
  | none => rfl
  | some declared =>
      have hs := hn.of_childOfKind? hdeclared (by decide)
      simp only [Option.map_some, Option.bind_eq_bind, Option.bind_some, h.typeText?_without hs]

theorem aliasSymbol?_blanked :
    aliasSymbol? (f.blanked b) (n.without b.out) = aliasSymbol? f n := by
  have htarget : ((n.without b.out).children.filter isTypeNode).getLast?.map
        (·.text (f.blanked b).text) =
      (n.children.filter isTypeNode).getLast?.map (·.text f.text) := by
    rw [Node.children_without, filter_kind_leftOf isTypeNode_without fun _ => isTypeNode_of_comment,
      List.getLast?_map]
    refine h.map_text fun c hc => ?_
    obtain ⟨hmem, htype⟩ := List.mem_filter.1 (List.mem_of_getLast? hc)
    exact ⟨hn.of_mem_children hmem (Comments.OffDeclarations.not_comment_of_isTypeNode htype),
      Comments.OffDeclarations.isWord_of_isTypeNode htype⟩
  rw [aliasSymbol?, aliasSymbol?, htarget]
  simp only [symbolOf_blanked h hn]
  rw [text_blanked, h.declarationName?_without hn]

theorem secondaryConstructorSymbol_blanked (cls : Handle) (className : String) :
    secondaryConstructorSymbol (f.blanked b) cls className (n.without b.out) =
      secondaryConstructorSymbol f cls className n := by
  simp only [secondaryConstructorSymbol, symbolOf_blanked h hn, parameterCount?_without]

/-- An entry of an enum is named after its class. -/
theorem enumEntrySymbol?_blanked (cls : Handle) (className : String) :
    enumEntrySymbol? (f.blanked b) cls className (n.without b.out) =
      enumEntrySymbol? f cls className n := by
  simp only [enumEntrySymbol?, symbolOf_blanked h hn]
  rw [text_blanked, h.declarationName?_without hn]

/-! ### The head of a class -/

/-- The symbol of a class has the same kind, modifiers and supertypes. -/
theorem classSymbol_blanked (parent : Option Handle) (name : String) :
    classSymbol (f.blanked b) parent name (n.without b.out) = classSymbol f parent name n := by
  have hkind : classKind (n.without b.out) b.text = classKind n f.text := by
    have hinterface : (n.without b.out).hasChildOfKind "interface" = n.hasChildOfKind "interface" :=
      hasChildOfKind_without (by decide)
    rw [classKind, classKind, kind_without, hinterface, h.modifiers_without hn]
  simp only [classSymbol]
  rw [text_blanked, hkind, symbolOf_blanked h hn, kind_without,
    h.superTypes_without hn]

theorem boundParameterSymbol?_blanked (cls : Handle) :
    boundParameterSymbol? (f.blanked b) cls (n.without b.out) = boundParameterSymbol? f cls n := by
  simp only [boundParameterSymbol?, symbolOf_blanked h hn]
  rw [text_blanked, h.binding?_without hn, h.declarationName?_without hn,
    h.typeText?_without hn]

omit h in
/-- No comment is a parameter in the head of a class. -/
theorem stays_of_mem_classParameters {c : Node} (hc : c ∈ classParameters n) :
    Stays b.out f.tree c := by
  unfold classParameters at hc
  split at hc
  · next primary hprimary =>
    have hs := hn.of_childOfKind? hprimary (by decide)
    rcases List.mem_append.1 hc with hc | hc
    · exact hs.of_mem_childrenOfKind hc (by decide)
    · obtain ⟨list, hlist, hc⟩ := List.mem_flatMap.1 hc
      exact (hs.of_mem_childrenOfKind hlist (by decide)).of_mem_childrenOfKind hc (by decide)
  · split at hc
    · next list hlist =>
      exact (hn.of_childOfKind? hlist (by decide)).of_mem_childrenOfKind hc (by decide)
    · cases hc

/-- A constructor in the head stands below the class, one that is added stands for the class. -/
theorem headConstructor?_blanked (cls : Symbol) :
    headConstructor? (f.blanked b) cls (n.without b.out) = headConstructor? f cls n := by
  have hsecondary : ∀ body : Node, (body.without b.out).hasChildOfKind "secondary_constructor" =
      body.hasChildOfKind "secondary_constructor" := fun body => hasChildOfKind_without (by decide)
  unfold headConstructor?
  rw [childOfKind?_without (by decide), classBody?_without, classParameters_without,
    List.length_map]
  cases hprimary : n.childOfKind? "primary_constructor" with
  | none =>
      cases classBody? n with
      | none =>
          simp only [Option.map_none, Option.getD_none, handleOf_blanked h hn, path_blanked,
            origin_blanked]
      | some body =>
          simp only [Option.map_none, Option.map_some, Option.getD_none, handleOf_blanked h hn,
            hsecondary, path_blanked, origin_blanked]
  | some primary =>
      have hs := hn.of_childOfKind? hprimary (by decide)
      simp only [Option.map_some, Option.getD_some, Option.isSome_some, handleOf_blanked h hs,
        text_blanked, path_blanked, origin_blanked, h.modifiers_without hs, Bool.true_or]

/-- What a class introduces besides its members is the same. -/
theorem headSymbols_blanked (cls : Symbol) :
    headSymbols (f.blanked b) cls (n.without b.out) = headSymbols f cls n := by
  have hproperties : (classParameters (n.without b.out)).filterMap
        (boundParameterSymbol? (f.blanked b) cls.handle) =
      (classParameters n).filterMap (boundParameterSymbol? f cls.handle) := by
    rw [classParameters_without, List.filterMap_map]
    exact List.filterMap_congr fun p hp =>
      boundParameterSymbol?_blanked h (stays_of_mem_classParameters hn hp) cls.handle
  simp only [headSymbols, hproperties, headConstructor?_blanked h hn]
  rfl

end Declaration

/-! ### Classes and files -/

section Walk

variable {b : Blanking} {f : SourceFile} (h : f.OffDeclarations b)
include h

/-- The walks over a class, its body and a misplaced body find the same symbols. -/
structure SameMembers (b : Blanking) (f : SourceFile) (fuel : Nat) : Prop where
  cls : ∀ {n : Node}, Stays b.out f.tree n → ∀ parent,
    classSymbols (f.blanked b) fuel parent (n.without b.out) = classSymbols f fuel parent n
  members : ∀ {n : Node}, Stays b.out f.tree n → ∀ cls className,
    memberSymbols (f.blanked b) fuel cls className (n.without b.out) =
      memberSymbols f fuel cls className n
  misplaced : ∀ {n : Node}, Stays b.out f.tree n → ∀ cls className,
    misplacedSymbols (f.blanked b) fuel cls className (n.without b.out) =
      misplacedSymbols f fuel cls className n

section Step

variable {fuel : Nat} {n : Node} (ih : SameMembers b f fuel) (hn : Stays b.out f.tree n)
include ih hn

/-- The walk over a class, from the walks over its body and over what its bases hold. -/
theorem classSymbols_blanked (parent : Option Handle) :
    classSymbols (f.blanked b) (fuel + 1) parent (n.without b.out) =
      classSymbols f (fuel + 1) parent n := by
  rw [classSymbols, classSymbols, text_blanked, h.declarationName?_without hn]
  cases declarationName? n f.text with
  | none => rfl
  | some name =>
      simp only [classSymbol_blanked h hn, headSymbols_blanked h hn, classBody?_without,
        delegationSpecifiers_without]
      congr 1
      cases hbody : classBody? n with
      | some body =>
          refine ih.members ?_ _ _
          rcases Option.or_eq_some_iff.1 hbody with hc | ⟨-, hc⟩
          · exact hn.of_childOfKind? hc (by decide)
          · exact hn.of_childOfKind? hc (by decide)
      | none =>
          simp only [Option.map_none, List.flatMap_map]
          exact List.flatMap_congr fun c hc => ih.misplaced
            (Comments.OffDeclarations.stays_of_mem_delegationSpecifiers hn hc) _ _

/-- The walk over a body, one case for each kind of declaration. -/
theorem memberSymbols_blanked (cls : Handle) (className : String) :
    memberSymbols (f.blanked b) (fuel + 1) cls className (n.without b.out) =
      memberSymbols f (fuel + 1) cls className n := by
  rw [memberSymbols, memberSymbols, Node.children_without]
  refine flatMap_leftOf (fun c hc hk => ?_) fun c _ hk => ?_
  · have hs := hn.of_mem_children hc hk
    rw [kind_without]
    split
    · exact ih.cls hs _
    · exact ih.cls hs _
    · exact ih.cls hs _
    · rw [functionSymbol?_blanked h hs]
    · rw [propertySymbol?_blanked h hs]
    · rw [secondaryConstructorSymbol_blanked h hs]
    · rw [enumEntrySymbol?_blanked h hs]
    · rfl
  · rcases mem_commentKinds_iff.1 (kind_mem_of_not_isKept hk) with hc | hc <;> simp [hc]

omit h in
/-- The walk over what the bases hold: a block that stands for a body, and what is below it. -/
theorem misplacedSymbols_blanked (cls : Handle) (className : String) :
    misplacedSymbols (f.blanked b) (fuel + 1) cls className (n.without b.out) =
      misplacedSymbols f (fuel + 1) cls className n := by
  rw [misplacedSymbols, misplacedSymbols, Node.children_without]
  refine flatMap_leftOf (fun c hc hk => ?_) fun c _ hk => ?_
  · have hs := hn.of_mem_children hc hk
    simp only [kind_without,
      childOfKind?_without (show "statements" ∉ commentKinds by decide), ih.misplaced hs]
    cases hbody : c.childOfKind? "statements" with
    | none => rfl
    | some body =>
        simp only [Option.map_some, ih.members (hs.of_childOfKind? hbody (by decide))]
  · rcases mem_commentKinds_iff.1 (kind_mem_of_not_isKept hk) with hc | hc <;>
      simp [hc, misplacedBodyKinds]

end Step

/-- Induction over the fuel of the walks, which call each other. -/
theorem sameMembers : ∀ fuel : Nat, SameMembers b f fuel
  | 0 => ⟨fun _ _ => rfl, fun _ _ _ => rfl, fun _ _ _ => rfl⟩
  | fuel + 1 => by
      have ih := sameMembers fuel
      exact ⟨classSymbols_blanked h ih, memberSymbols_blanked h ih, misplacedSymbols_blanked ih⟩

/-- The walk over what is no declaration. -/
theorem topLevelSymbols_blanked :
    ∀ (fuel : Nat) {n : Node}, Stays b.out f.tree n →
      topLevelSymbols (f.blanked b) fuel (n.without b.out) = topLevelSymbols f fuel n
  | 0, _, _ => rfl
  | fuel + 1, n, hn => by
      rw [topLevelSymbols, topLevelSymbols, Node.children_without]
      refine flatMap_leftOf (fun c hc hk => ?_) fun c _ hk => ?_
      · have hs := hn.of_mem_children hc hk
        rw [kind_without]
        split
        · exact (sameMembers h _).cls hs none
        · exact (sameMembers h _).cls hs none
        · rw [functionSymbol?_blanked h hs]
        · rw [propertySymbol?_blanked h hs]
        · rw [aliasSymbol?_blanked h hs]
        · rfl
        · rfl
        · rfl
        · exact topLevelSymbols_blanked fuel hs
      · -- a comment has no children to look into
        have hnone : ∀ m, topLevelSymbols f m c = [] := by
          intro m
          cases m with
          | zero => rfl
          | succ m => rw [topLevelSymbols, children_of_not_isKept hk, List.flatMap_nil]
        rcases mem_commentKinds_iff.1 (kind_mem_of_not_isKept hk) with hc | hc <;> simp [hc, hnone]

/-- **A Kotlin file declares the same symbols when comments are left out.** -/
theorem symbols_blanked : symbols (f.blanked b) = symbols f := by
  have hheight : (f.blanked b).tree.height = f.tree.height :=
    h.height_without (n := ofTree f.tree) .top
  rw [symbols, symbols, hheight]
  exact topLevelSymbols_blanked h _ h.top

end Walk

end Kotlin

end Crossref
