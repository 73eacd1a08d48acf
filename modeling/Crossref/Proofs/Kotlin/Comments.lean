import Crossref.Proofs.Tree.Between
import Crossref.Kotlin.Symbols

/-!
# Proofs — Kotlin — declarations with comments left out

The parts of a declaration are looked for by their kinds, so comments between them are passed over.
What is read as text are words, in which no comment stands.  Two places are counted: a word in a
list of modifiers is any child of the list, and the accessors of a property are the siblings that
stand directly behind it.

* `declarationName?_without`, `qualifiedName?_without`, `spanStop_without`: name and span.
* `package?_without`, `imports_without`: the head of the file.
-/

namespace Crossref

namespace Kotlin

/-- The kinds whose text is read wherever they stand. -/
def wordKinds : List String :=
  typeKinds ++ ["simple_identifier", "type_identifier", "interpolated_identifier",
    "binding_pattern_kind", "this_expression", "real_literal"]

/-- The kinds whose text is read in the head of a file. -/
def headerKinds : List String := ["identifier", "import_header"]

/-- The text of the node is read. -/
def isWord (n : Node) : Bool := !n.isNamed || wordKinds.contains n.kind

end Kotlin

/-- The comments of a tree stand where no declaration is read: in no word, not among modifiers, not
between a property and its accessors; `source` is the text with the comments, `blank` one with
something else in their places. -/
structure Comments.OffDeclarations (out : Comments) (source blank : String) (t : Tree) : Prop
    extends out.Between t where
  size : Text.size blank = Text.size source
  word : ∀ n, Node.Stays out t n → Kotlin.isWord n = true → n.text blank = n.text source
  modifier : ∀ n, Node.Stays out t n → n.kind = "modifiers" → ∀ c ∈ n.children,
    c.isKept out = true ∧ c.text blank = c.text source
  accessor : ∀ n, Node.Stays out t n → n.kind = "property_declaration" → ∀ x ∈ n.following,
    x.isKept out = false → ∀ a ∈ x.nextSibling?, Kotlin.isAccessor a = false

namespace Node
variable {out : Comments} {n : Node}

/-- A search among children finds the same when comments answer nothing. -/
theorem findSome?_leftOf {β : Type} {g g' : Node → Option β} {l : List Node}
    (hg : ∀ c ∈ l, c.isKept out = true → g' (c.without out) = g c)
    (hout : ∀ c ∈ l, c.isKept out = false → g c = none) :
    (leftOf out l).findSome? g' = l.findSome? g := by
  induction l with
  | nil => rfl
  | cons c l ih =>
      have ih := ih (fun d hd => hg d (List.mem_cons_of_mem _ hd))
        fun d hd => hout d (List.mem_cons_of_mem _ hd)
      cases hk : c.isKept out with
      | true =>
          rw [leftOf_cons_of_kept hk, List.findSome?_cons, List.findSome?_cons,
            hg c List.mem_cons_self hk, ih]
      | false =>
          rw [leftOf_cons_of_not_kept hk, ih, List.findSome?_cons, hout c List.mem_cons_self hk]

end Node

namespace Kotlin
open Node

/-! ### Parts by kind -/

section Parts

variable {out : Comments} (n : Node)

theorem isTypeNode_without : isTypeNode (n.without out) = isTypeNode n := by
  simp [isTypeNode]

theorem isAccessor_without : isAccessor (n.without out) = isAccessor n := by
  simp [isAccessor]

theorem isTypeNode_of_comment {c : Node} (hc : c.kind ∈ commentKinds) : isTypeNode c = false := by
  rcases mem_commentKinds_iff.1 hc with hc | hc <;> simp [isTypeNode, typeKinds, hc]

/-- No comment is a type. -/
theorem typeChild?_without : typeChild? (n.without out) = (typeChild? n).map (without out) := by
  rw [typeChild?, Node.children_without]
  exact find?_kind_leftOf isTypeNode_without fun _ => isTypeNode_of_comment

theorem classBody?_without : classBody? (n.without out) = (classBody? n).map (without out) := by
  rw [classBody?, childOfKind?_without (by decide), childOfKind?_without (by decide),
    ← Option.map_or]
  rfl

/-- The supertypes that a class names are found by their kind, listed or not. -/
theorem delegationSpecifiers_without :
    delegationSpecifiers (n.without out) = (delegationSpecifiers n).map (without out) := by
  simp (disch := decide) only [delegationSpecifiers, childrenOfKind_without, List.map_append,
    List.flatMap_map, List.map_flatMap]

theorem constructorParameters_without :
    constructorParameters (n.without out) = (constructorParameters n).map (without out) := by
  simp (disch := decide) only [constructorParameters, childrenOfKind_without, List.map_append,
    List.flatMap_map, List.map_flatMap]

/-- So are the parameters in its head. -/
theorem classParameters_without :
    classParameters (n.without out) = (classParameters n).map (without out) := by
  simp (disch := decide) only [classParameters, childOfKind?_without]
  cases n.childOfKind? "primary_constructor" with
  | some primary => exact constructorParameters_without primary
  | none =>
      cases n.childOfKind? "class_parameters" with
      | some list => exact childrenOfKind_without (by decide)
      | none => rfl

theorem valueParameters_without :
    valueParameters (n.without out) = (valueParameters n).map (without out) := by
  simp (disch := decide) only [valueParameters, childOfKind?_without]
  cases n.childOfKind? "function_value_parameters" with
  | some list => exact childrenOfKind_without (by decide)
  | none => rfl

/-- The type in a specifier is the same, with or without arguments of a constructor. -/
theorem specifierType?_without :
    specifierType? (n.without out) = (specifierType? n).map (without out) := by
  simp (disch := decide) only [specifierType?, childOfKind?_without, Option.bind_map,
    Function.comp_def, Option.map_bind, Option.map_or]

/-- No comment counts as a parameter. -/
theorem parameterCount?_without : parameterCount? (n.without out) = parameterCount? n := by
  simp (disch := decide) only [parameterCount?, childOfKind?_without, Option.map_map,
    Function.comp_def, childrenOfKind_without, List.length_map]

end Parts

theorem isAccessor_of_comment {c : Node} (hc : c.kind ∈ commentKinds) : isAccessor c = false := by
  rcases mem_commentKinds_iff.1 hc with hc | hc <;> simp [isAccessor, accessorKinds, hc]

/-- A list that no accessor leads, and that has none directly behind a comment, has none in front
when comments are left out. -/
theorem takeWhile_leftOf_eq_nil {out : Comments} :
    ∀ {l : List Node}, (∀ a ∈ l.head?, isAccessor a = false) →
      (∀ before x y after, l = before ++ x :: y :: after → x.isKept out = false →
        isAccessor y = false) →
      (leftOf out l).takeWhile isAccessor = []
  | [], _, _ => rfl
  | c :: l, hhead, hpairs => by
      have hc : isAccessor c = false := hhead c rfl
      cases hk : c.isKept out with
      | true =>
          rw [leftOf_cons_of_kept hk, List.takeWhile_cons_of_neg]
          rw [isAccessor_without, hc]
          decide
      | false =>
          rw [leftOf_cons_of_not_kept hk]
          refine takeWhile_leftOf_eq_nil (fun a ha => ?_) fun before x y after hs hx =>
            hpairs (c :: before) x y after (by rw [hs]; rfl) hx
          obtain ⟨after, rfl⟩ := List.head?_eq_some_iff.1 ha
          exact hpairs [] c a after rfl hk

/-- A run of accessors stays as it is if none of them stands directly behind a comment. -/
theorem takeWhile_isAccessor_leftOf {out : Comments} :
    ∀ {l : List Node}, (∀ before x y after, l = before ++ x :: y :: after → x.isKept out = false →
        isAccessor y = false) →
      (leftOf out l).takeWhile isAccessor = (l.takeWhile isAccessor).map (without out)
  | [], _ => rfl
  | c :: l, hpairs => by
      have htail : ∀ before x y after, l = before ++ x :: y :: after → x.isKept out = false →
          isAccessor y = false := fun before x y after hs hx =>
        hpairs (c :: before) x y after (by rw [hs]; rfl) hx
      cases hk : c.isKept out with
      | true =>
          rw [leftOf_cons_of_kept hk, List.takeWhile_cons, List.takeWhile_cons, isAccessor_without]
          cases isAccessor c with
          | true => simp only [if_true, List.map_cons, takeWhile_isAccessor_leftOf htail]
          | false => rfl
      | false =>
          rw [leftOf_cons_of_not_kept hk, List.takeWhile_cons_of_neg
            (by simp [isAccessor_of_comment (kind_mem_of_not_isKept hk)])]
          refine takeWhile_leftOf_eq_nil (fun a ha => ?_) htail
          obtain ⟨after, rfl⟩ := List.head?_eq_some_iff.1 ha
          exact hpairs [] c a after rfl hk

end Kotlin

/-! ### Words -/

namespace Comments.OffDeclarations
open Node Kotlin

variable {out : Comments} {source blank : String} {t : Tree}
  (h : out.OffDeclarations source blank t)
include h

/-- A word has the same text, since no comment stands in it. -/
theorem text_without {n : Node} (hn : Stays out t n) (hw : isWord n = true) :
    (n.without out).text blank = n.text source := by
  rw [Node.text_without, h.word n hn hw]

/-- The texts of words that are found. -/
theorem map_text {o : Option Node} (ho : ∀ c ∈ o, Stays out t c ∧ isWord c = true) :
    (o.map (without out)).map (·.text blank) = o.map (·.text source) := by
  rw [Option.map_map]
  exact Option.map_congr fun c hc => h.text_without (ho c hc).1 (ho c hc).2

omit h in
theorem isWord_of_kind {c : Node} {k : String} (hc : c.kind = k)
    (hk : wordKinds.contains k = true) : isWord c = true := by
  rw [isWord, hc, hk, Bool.or_true]

omit h in
/-- Types are words. -/
theorem isWord_of_isTypeNode {c : Node} (hc : isTypeNode c = true) : isWord c = true := by
  have hmem : c.kind ∈ wordKinds := List.mem_append_left _ (List.contains_iff_mem.1 hc)
  rw [isWord, List.contains_iff_mem.2 hmem, Bool.or_true]

omit h in
theorem not_comment_of_isTypeNode {c : Node} (hc : isTypeNode c = true) : c.isKept out = true := by
  refine isKept_of_kind fun hk => ?_
  rw [isTypeNode_of_comment hk] at hc
  cases hc

section Places

variable {n : Node} (hn : Stays out t n)
include hn

omit h in
/-- A type that is found among children. -/
theorem word_of_type {l : List Node} (hl : ∀ c ∈ l, c ∈ n.children) :
    ∀ c ∈ l.find? isTypeNode, Stays out t c ∧ isWord c = true := by
  intro c hc
  have htype := List.find?_some hc
  exact ⟨hn.of_mem_children (hl c (List.mem_of_find?_eq_some hc)) (not_comment_of_isTypeNode htype),
    isWord_of_isTypeNode htype⟩

omit h in
/-- A child that is found by its kind, one of words. -/
theorem word_of_childOfKind? {k : String} (hk : wordKinds.contains k = true) :
    ∀ c ∈ n.childOfKind? k, Stays out t c ∧ isWord c = true := by
  intro c hc
  have hkind := (mem_of_childOfKind? hc).2
  refine ⟨hn.of_childOfKind? hc fun hcomment => ?_, isWord_of_kind hkind hk⟩
  rcases mem_commentKinds_iff.1 hcomment with rfl | rfl <;> revert hk <;> decide

/-- The text of a declared type is read without comments. -/
theorem typeText?_without : typeText? (n.without out) blank = typeText? n source := by
  rw [typeText?, typeChild?_without]
  exact h.map_text (word_of_type hn fun c hc => hc)

theorem binding?_without : binding? (n.without out) blank = binding? n source := by
  rw [binding?, Node.children_without]
  refine findSome?_leftOf (fun c hc hk => ?_) fun c _ hk => ?_
  · rw [kind_without]
    split
    · next hkind =>
      rw [h.text_without (hn.of_mem_children hc hk) (isWord_of_kind hkind (by decide))]
    all_goals rfl
  · rcases mem_commentKinds_iff.1 (kind_mem_of_not_isKept hk) with hc | hc <;> simp [hc]

/-- A declaration has the same modifiers. -/
theorem modifiers_without : modifiers (n.without out) blank = modifiers n source := by
  rw [modifiers, modifiers, childOfKind?_without (by decide)]
  cases hlist : n.childOfKind? "modifiers" with
  | none => rfl
  | some list =>
      have hs := hn.of_childOfKind? hlist (by decide)
      have hall := h.modifier list hs (mem_of_childOfKind? hlist).2
      have htexts : ((list.without out).children.filter (·.kind != "annotation")).map
            (fun m => Text.trim (m.text blank)) =
          (list.children.filter (·.kind != "annotation")).map
            fun m => Text.trim (m.text source) := by
        rw [Node.children_without, filter_leftOf (by simp),
          leftOf_eq_map fun c hc => (hall c (List.mem_filter.1 hc).1).1, List.map_map]
        refine List.map_congr_left fun c hc => ?_
        rw [Function.comp_apply, Node.text_without, (hall c (List.mem_filter.1 hc).1).2]
      exact congrArg _ htexts

omit h hn in
theorem specifierType_word {specifier type : Node} (hs : Stays out t specifier)
    (ht : specifierType? specifier = some type) : Stays out t type ∧ isWord type = true := by
  have huser : ∀ {a : Node}, Stays out t a → ∀ c ∈ a.childOfKind? "user_type",
      Stays out t c ∧ isWord c = true := fun ha => word_of_childOfKind? ha (by decide)
  rcases Option.or_eq_some_iff.1 ht with ht | ⟨-, ht⟩
  · rcases Option.or_eq_some_iff.1 ht with ht | ⟨-, ht⟩
    · exact huser hs _ ht
    · obtain ⟨inner, hinner, ht⟩ := Option.bind_eq_some_iff.1 ht
      exact huser (hs.of_childOfKind? hinner (by decide)) _ ht
  · obtain ⟨inner, hinner, ht⟩ := Option.bind_eq_some_iff.1 ht
    exact huser (hs.of_childOfKind? hinner (by decide)) _ ht

omit h in
theorem stays_of_mem_delegationSpecifiers {c : Node} (hc : c ∈ delegationSpecifiers n) :
    Stays out t c := by
  rcases List.mem_append.1 hc with hc | hc
  · exact hn.of_mem_childrenOfKind hc (by decide)
  · obtain ⟨list, hlist, hc⟩ := List.mem_flatMap.1 hc
    exact (hn.of_mem_childrenOfKind hlist (by decide)).of_mem_childrenOfKind hc (by decide)

/-- A class names the same supertypes. -/
theorem superTypes_without : superTypes (n.without out) blank = superTypes n source := by
  rw [superTypes, superTypes, delegationSpecifiers_without, List.filterMap_map]
  simp only [Function.comp_def, specifierType?_without]
  rw [← List.map_filterMap, List.map_map]
  refine List.map_congr_left fun type htype => ?_
  obtain ⟨specifier, hspecifier, htype⟩ := List.mem_filterMap.1 htype
  obtain ⟨hs, hw⟩ := specifierType_word (stays_of_mem_delegationSpecifiers hn hspecifier) htype
  exact h.text_without hs hw

/-- An extension names the same receiver. -/
theorem receiverType?_without : receiverType? (n.without out) blank = receiverType? n source := by
  have htake : (n.without out).children.takeWhile (fun c => !receiverEndKinds.contains c.kind) =
      leftOf out (n.children.takeWhile fun c => !receiverEndKinds.contains c.kind) := by
    rw [Node.children_without]
    refine takeWhile_kind_leftOf (by simp) fun c hc => ?_
    rcases mem_commentKinds_iff.1 hc with hc | hc <;> simp [hc, receiverEndKinds]
  rw [receiverType?, htake, find?_kind_leftOf isTypeNode_without fun _ => isTypeNode_of_comment]
  exact h.map_text (word_of_type hn fun c hc => (List.takeWhile_sublist _).subset hc)

/-- A function names the same result. -/
theorem returnType?_without : returnType? (n.without out) blank = returnType? n source := by
  have hstop : ∀ k, k ∉ commentKinds → ∀ c : Node, c.kind ∈ commentKinds → (c.kind != k) = true :=
    fun k hk c hc => bne_iff_ne.2 fun e => hk (e ▸ hc)
  rw [returnType?, Node.children_without,
    takeWhile_kind_leftOf (by simp) (hstop "function_body" (by decide)),
    dropWhile_kind_leftOf (by simp) (hstop "function_value_parameters" (by decide)),
    find?_kind_leftOf isTypeNode_without fun _ => isTypeNode_of_comment]
  exact h.map_text (word_of_type hn fun c hc =>
    (List.takeWhile_sublist _).subset ((List.dropWhile_sublist _).subset hc))

/-! ### Names -/

/-- A name is the first word of its kind among the children. -/
theorem firstOfKinds?_without {kinds : List String} (hkinds : ∀ k ∈ kinds, k ∈ wordKinds) :
    firstOfKinds? (n.without out) blank kinds = firstOfKinds? n source kinds := by
  have hcomment : ∀ k ∈ commentKinds, k ∉ wordKinds := by decide
  have hnot : ∀ c : Node, c.kind ∈ commentKinds → kinds.contains c.kind = false := by
    intro c hc
    rw [Bool.eq_false_iff, Ne, List.contains_iff_mem]
    exact fun hmem => hcomment _ hc (hkinds _ hmem)
  rw [firstOfKinds?, Node.children_without, find?_kind_leftOf (by simp) hnot]
  refine h.map_text fun c hc => ?_
  have hmem : c.kind ∈ kinds := List.contains_iff_mem.1 (by simpa using List.find?_some hc)
  exact ⟨hn.of_mem_children (List.mem_of_find?_eq_some hc)
      (isKept_of_kind fun hk => hcomment _ hk (hkinds _ hmem)),
    isWord_of_kind rfl (List.contains_iff_mem.2 (hkinds _ hmem))⟩

theorem classifierName?_without :
    classifierName? (n.without out) blank = classifierName? n source :=
  h.firstOfKinds?_without hn (by decide)

theorem functionName?_without : functionName? (n.without out) blank = functionName? n source := by
  have hfun : ∀ c : Node, c.kind ∈ commentKinds → (c.kind != "fun") = true :=
    fun c hc => bne_iff_ne.2 fun e => absurd (e ▸ hc) (by decide)
  rw [functionName?, childOfKind?_without (by decide), Node.children_without,
    dropWhile_kind_leftOf (by simp) hfun,
    find?_kind_leftOf (by simp) (kind_ne_of_mem_commentKinds (by decide)), ← Option.map_or]
  refine h.map_text fun c hc => ?_
  rcases Option.or_eq_some_iff.1 hc with hc | ⟨-, hc⟩
  · have hkind : c.kind = "simple_identifier" := by simpa using List.find?_some hc
    exact ⟨hn.of_mem_children ((List.dropWhile_sublist _).subset (List.mem_of_find?_eq_some hc))
      (isKept_of_kind_eq hkind (by decide)), isWord_of_kind hkind (by decide)⟩
  · exact word_of_childOfKind? hn (by decide) c hc

theorem propertyName?_without :
    (((n.without out).childOfKind? "variable_declaration").bind
        (·.childOfKind? "simple_identifier")).map (·.text blank) =
      ((n.childOfKind? "variable_declaration").bind
        (·.childOfKind? "simple_identifier")).map (·.text source) := by
  have hinner : ((n.without out).childOfKind? "variable_declaration").bind
        (·.childOfKind? "simple_identifier") =
      ((n.childOfKind? "variable_declaration").bind (·.childOfKind? "simple_identifier")).map
        (without out) := by
    simp (disch := decide) only [childOfKind?_without, Option.bind_map, Function.comp_def,
      Option.map_bind]
  rw [hinner]
  refine h.map_text fun c hc => ?_
  obtain ⟨declared, hdeclared, hc⟩ := Option.bind_eq_some_iff.1 hc
  exact word_of_childOfKind? (hn.of_childOfKind? hdeclared (by decide)) (by decide) c hc

/-- The class around a node has the same name. -/
theorem className?_without {kinds : List String} :
    ((n.without out).ancestorOfKind? kinds).bind (classifierName? · blank) =
      (n.ancestorOfKind? kinds).bind (classifierName? · source) := by
  rw [ancestorOfKind?_without, Option.bind_map]
  refine Option.bind_congr fun a ha => ?_
  exact h.classifierName?_without
    (Between.stays_of_mem_ancestors hn.within (List.mem_of_find?_eq_some ha))

/-- **A declaration has the same name.** -/
theorem declarationName?_without :
    declarationName? (n.without out) blank = declarationName? n source := by
  have hidentifier : firstOfKinds? (n.without out) blank ["simple_identifier"] =
      firstOfKinds? n source ["simple_identifier"] := h.firstOfKinds?_without hn (by decide)
  unfold declarationName?
  rw [kind_without]
  split
  all_goals first
    | exact h.classifierName?_without hn
    | exact hidentifier
    | exact h.className?_without hn
    | rfl
    | skip
  · rw [h.classifierName?_without hn]
  · exact h.functionName?_without hn
  · exact h.propertyName?_without hn

/-- The names of the classes around. -/
theorem containerNames?_without :
    containerNames? (n.without out) blank = containerNames? n source := by
  have hmapM : ∀ l : List Node, (∀ a ∈ l, Stays out t a) →
      (l.map (without out)).mapM (declarationName? · blank) =
        l.mapM (declarationName? · source) := by
    intro l hl
    induction l with
    | nil => rfl
    | cons a l ih =>
        rw [List.map_cons, List.mapM_cons, List.mapM_cons,
          h.declarationName?_without (hl a List.mem_cons_self),
          ih fun b hb => hl b (List.mem_cons_of_mem _ hb)]
  have habove : (n.without out).ancestors.reverse.filter (fun a => classKinds.contains a.kind) =
      (n.ancestors.reverse.filter fun a => classKinds.contains a.kind).map (without out) := by
    rw [ancestors_without, ← List.map_reverse, List.filter_map]
    simp only [Function.comp_def, kind_without]
  have hlocal : (n.without out).ancestors.any (fun a => localScopeKinds.contains a.kind) =
      n.ancestors.any fun a => localScopeKinds.contains a.kind := by
    rw [ancestors_without, List.any_map]
    simp only [Function.comp_def, kind_without]
  rw [containerNames?, containerNames?, hlocal, habove, hmapM _ fun a ha =>
    Between.stays_of_mem_ancestors hn.within (List.mem_reverse.1 (List.mem_filter.1 ha).1)]

/-- **A declaration has the same qualified name.** -/
theorem qualifiedName?_without (package : Option String) :
    qualifiedName? package (n.without out) blank = qualifiedName? package n source := by
  have hctor : isConstructorNode (n.without out) = isConstructorNode n := by
    simp [isConstructorNode]
  rw [qualifiedName?, qualifiedName?, kind_without, h.binding?_without hn,
    h.containerNames?_without hn, hctor, h.declarationName?_without hn]

/-! ### Spans -/

/-- The run of accessors behind a property ends where it ended. -/
theorem siblingAccessors_without (hkind : n.kind = "property_declaration") :
    siblingAccessors (n.without out) = (siblingAccessors n).map (without out) := by
  rw [siblingAccessors, following_without hn.within hn.kept]
  cases hn.within with
  | top => rfl
  | @child p _ hp hc =>
      obtain ⟨before, hs⟩ := exists_children_of_mem hc
      refine takeWhile_isAccessor_leftOf fun l x y l' hl hx => ?_
      have hfollowing : x.following = y :: l' := by
        refine @following_of_children p x (before ++ n :: l) (y :: l') ?_
        rw [hs, hl, List.append_assoc]
        rfl
      refine h.accessor n hn hkind x (by simp [hl]) hx y ?_
      rw [nextSibling?, hfollowing]
      rfl

/-- **A declaration has the same span.** -/
theorem spanStop_without : spanStop (n.without out) = spanStop n := by
  rw [spanStop, spanStop, kind_without, stop_without]
  split
  · next hkind =>
    rw [h.siblingAccessors_without hn hkind, List.getLast?_map]
    cases (siblingAccessors n).getLast? with
    | none => rfl
    | some last => exact stop_without last
  · rfl

end Places

/-! ### The head of a file -/

section Head

variable (hhead : ∀ n, Stays out t n → n.kind ∈ headerKinds → n.text blank = n.text source)
include hhead

omit h in
/-- The paths that are found in a header. -/
theorem map_text_identifier {n : Node} (hn : Stays out t n) :
    ((n.without out).childOfKind? "identifier").map (·.text blank) =
      (n.childOfKind? "identifier").map (·.text source) := by
  rw [childOfKind?_without (by decide), Option.map_map]
  refine Option.map_congr fun c hc => ?_
  rw [Function.comp_apply, Node.text_without]
  exact hhead c (hn.of_childOfKind? hc (by decide)) (by rw [(mem_of_childOfKind? hc).2]; decide)

/-- **The file has the same package.** -/
theorem package?_without :
    package? (ofTree (t.without out)) blank = package? (ofTree t) source := by
  rw [package?, package?, ← without_ofTree, childOfKind?_without (by decide)]
  cases hheader : (ofTree t).childOfKind? "package_header" with
  | none => rfl
  | some header => exact map_text_identifier hhead (h.top.of_childOfKind? hheader (by decide))

/-- An import names the same path, renamed or not, starred or not. -/
theorem importOf?_without {n : Node} (hn : Stays out t n) (hkind : n.kind = "import_header") :
    importOf? (n.without out) blank = importOf? n source := by
  have hrename : ∀ a ∈ n.childOfKind? "import_alias",
      ((a.without out).children.find? fun c =>
          ["type_identifier", "simple_identifier"].contains c.kind).map (·.text blank) =
        (a.children.find? fun c =>
          ["type_identifier", "simple_identifier"].contains c.kind).map (·.text source) :=
    fun a ha => h.firstOfKinds?_without (hn.of_childOfKind? ha (by decide)) (by decide)
  have hstar : (n.without out).hasChildOfKind "wildcard_import" =
      n.hasChildOfKind "wildcard_import" := hasChildOfKind_without (by decide)
  have htext : (n.without out).text blank = n.text source := by
    rw [Node.text_without, hhead n hn (by rw [hkind]; decide)]
  have hpath := map_text_identifier hhead hn
  have halias : (((n.without out).childOfKind? "import_alias").bind fun a =>
        (a.children.find? fun c => ["type_identifier", "simple_identifier"].contains c.kind).map
          (·.text blank)) =
      (n.childOfKind? "import_alias").bind fun a =>
        (a.children.find? fun c => ["type_identifier", "simple_identifier"].contains c.kind).map
          (·.text source) := by
    rw [childOfKind?_without (by decide), Option.bind_map]
    exact Option.bind_congr hrename
  unfold importOf?
  rw [halias, hstar, htext]
  cases hfound : n.childOfKind? "identifier" with
  | none => rw [childOfKind?_without (by decide), hfound]; rfl
  | some path =>
      rw [childOfKind?_without (by decide), hfound] at hpath ⊢
      simp only [Option.map_some, Option.some.injEq] at hpath ⊢
      rw [hpath]

/-- **The file has the same imports.** -/
theorem imports_without :
    imports (ofTree (t.without out)) blank = imports (ofTree t) source := by
  have hlists : (ofTree (t.without out)).childrenOfKind "import_list" =
      ((ofTree t).childrenOfKind "import_list").map (without out) :=
    childrenOfKind_without (n := ofTree t) (by decide)
  have hheaders : (ofTree (t.without out)).childrenOfKind "import_header" =
      ((ofTree t).childrenOfKind "import_header").map (without out) :=
    childrenOfKind_without (n := ofTree t) (by decide)
  have hall : ((ofTree (t.without out)).childrenOfKind "import_list").flatMap
        (·.childrenOfKind "import_header") ++
      (ofTree (t.without out)).childrenOfKind "import_header" =
      (((ofTree t).childrenOfKind "import_list").flatMap (·.childrenOfKind "import_header") ++
        (ofTree t).childrenOfKind "import_header").map (without out) := by
    rw [hlists, hheaders, List.map_append, List.flatMap_map, List.map_flatMap]
    simp (disch := decide) only [childrenOfKind_without]
  rw [imports, imports, hall, List.filterMap_map]
  refine List.filterMap_congr fun header hheader => ?_
  have hs : ∀ n, Stays out t n → header ∈ n.childrenOfKind "import_header" →
      importOf? (header.without out) blank = importOf? header source := fun n hn hmem =>
    h.importOf?_without hhead (hn.of_mem_childrenOfKind hmem (by decide))
      (mem_childrenOfKind_iff.1 hmem).2
  rcases List.mem_append.1 hheader with hmem | hmem
  · obtain ⟨list, hlist, hmem⟩ := List.mem_flatMap.1 hmem
    exact hs list (h.top.of_mem_childrenOfKind hlist (by decide)) hmem
  · exact hs _ h.top hmem

end Head

end Comments.OffDeclarations

end Crossref
