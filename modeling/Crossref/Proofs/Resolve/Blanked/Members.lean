import Crossref.Proofs.Resolve.Answers
import Crossref.Proofs.Resolve.Blanked.Names

/-!
# Proofs — resolution — members and calls with comments left out

The receiver of a member access, the callee of a call and the target of an assignment are found by
counting, and no comment is counted.  The text of a receiver is read only as the beginning of a
qualified name: a comment in it matters only where the project has such names.

* `accessMember_blanked`: what `receiver.name` denotes is the same.
* `callTarget_blanked`, `constructorTarget_blanked`: what is called is the same.
-/

namespace Crossref

/-- Without blanks a member access is written as its parts without blanks. -/
theorem Text.withoutBlanks_access (text name : String) :
    Text.withoutBlanks (text ++ "." ++ name) =
      Text.withoutBlanks text ++ "." ++ Text.withoutBlanks name := by
  have hdot : ".".toList.filter (fun c => !isBlank c) = ".".toList := by decide
  simp only [withoutBlanks, String.toList_append, List.filter_append, hdot, String.ofList_append,
    String.ofList_toList]

namespace Resolve
open Node Index

/-- Behind a text that begins no qualified name stands none. -/
theorem BeginsNoName.qualified_eq_nil {i : Index} (hi : i.Consistent) {text : String}
    (h : BeginsNoName i text) (name : String) (want : Want) :
    qualified i (Text.withoutBlanks (text ++ "." ++ name)) want = [] := by
  refine List.eq_nil_iff_forall_not_mem.2 fun s hs => ?_
  have hmem := (List.mem_filter.1 hs).1
  have hname := hmem
  rw [hi.tables, findByQualifiedName_ofParts] at hname
  have hname := beq_iff_eq.1 (List.mem_filter.1 hname).2
  have hnot := h s (hi.mem_of_findByQualifiedName hmem) _ hname
  rw [Text.withoutBlanks_access, Text.startsWith, Bool.eq_false_iff] at hnot
  refine hnot (List.isPrefixOf_iff_prefix.2 ⟨(Text.withoutBlanks name).toList, ?_⟩)
  rw [String.toList_append, String.toList_append, String.toList_append]

section Index

variable {bs : FileId → Blanking} {i j : Index} (h : Spared bs i j)
include h

/-- The end of a qualified name that a receiver begins. -/
theorem qualified_receiver_blanked {f : SourceFile} {n receiver : Node} (hn : Place bs i f n)
    (hkind : n.kind ∈ receiverKinds) (hr : n.namedChild? 0 = some receiver) (name : String)
    (want : Want) :
    qualified j (Text.withoutBlanks
        ((f.blanked (bs f.id)).textOf (receiver.without (bs f.id).out) ++ "." ++ name)) want =
      qualified i (Text.withoutBlanks (f.textOf receiver ++ "." ++ name)) want := by
  rw [qualified_blanked h, SourceFile.textOf, SourceFile.textOf, Node.text_without,
    SourceFile.text_blanked]
  rcases (h.expressions f hn.mem).receiver n hn.stays hkind receiver hr with htext | ⟨hleft, hright⟩
  · rw [htext]
  · rw [hleft.qualified_eq_nil h.consistent, hright.qualified_eq_nil h.consistent]

/-- The first named child of a construct that is found by counting. -/
theorem namedChild?_zero_blanked {f : SourceFile} {n : Node} (hn : Place bs i f n)
    (hkind : n.kind ∈ leadKinds) :
    (n.without (bs f.id).out).namedChild? 0 = (n.namedChild? 0).map (without (bs f.id).out) ∧
      ∀ c ∈ n.namedChild? 0, Place bs i f c := by
  have hfirst := (h.expressions f hn.mem).first n hn.stays hkind
  refine ⟨?_, fun c hc => ⟨hn.mem, hn.stays.of_mem_children (mem_children_of_namedChild? hc)
    (hfirst c hc)⟩⟩
  rw [namedChild?, namedChildren_without]
  refine getElem?_leftOf fun c hc => hfirst c ?_
  cases hnamed : n.namedChildren with
  | nil => rw [hnamed] at hc; cases hc
  | cons d ds =>
      rw [hnamed] at hc
      obtain rfl : c = d := by simpa using hc
      rw [namedChild?, hnamed]
      rfl

section Levels

variable {ls ls' : Levels} (hls : Levels.Same bs i ls ls')
include hls

/-! ### Extensions -/

theorem receiverNames_blanked {t : ExprType} (ht : t.Clear bs i) :
    receiverNames j ls' t = receiverNames i ls t := by
  unfold receiverNames
  cases hc : t.classifier with
  | none => rfl
  | some c => simp only [(supertypesOf_blanked h hls (ht c hc)).1]

theorem visibleExtensions_blanked {f : SourceFile} {n : Node} (hn : Place bs i f n) (name : String)
    (want : Want) {t : ExprType} (ht : t.Clear bs i) :
    visibleExtensions j ls' (f.blanked (bs f.id)) (n.without (bs f.id).out) name want t =
        visibleExtensions i ls f n name want t ∧
      ∀ s ∈ visibleExtensions i ls f n name want t, Clear bs i s := by
  obtain ⟨hlookup, hclear⟩ := hls.top.lookup hn name want
  refine ⟨?_, fun s hs => ?_⟩
  · simp only [visibleExtensions, hlookup, receiverNames_blanked h hls ht, h.findByName]
  · obtain ⟨answer, hanswer, hs⟩ := mem_of_mem_firstFound hs
    simp only [List.mem_cons, List.not_mem_nil, or_false] at hanswer
    rcases hanswer with rfl | rfl
    · exact hclear s (List.mem_filter.1 hs).1
    · exact h.clear_of_mem
        (h.consistent.mem_of_findByName (List.mem_filter.1 (mem_of_mem_unambiguous hs)).1)

/-! ### Member access -/

theorem accessMember_blanked {f : SourceFile} {n m receiver : Node} (hn : Place bs i f n)
    (hkind : n.kind ∈ receiverKinds) (hr : n.namedChild? 0 = some receiver) (hm : Place bs i f m)
    (hreceiver : Place bs i f receiver) (name : String) (want : Want) :
    accessMember j ls' (f.blanked (bs f.id)) (receiver.without (bs f.id).out) name
        (m.without (bs f.id).out) want =
      accessMember i ls f receiver name m want ∧
      ∀ s ∈ (accessMember i ls f receiver name m want).symbols, Clear bs i s := by
  obtain ⟨htype, hclear⟩ := hls.top.typeOfExpr hreceiver
  have hqualified := qualified_receiver_blanked h hn hkind hr name want
  have hends : ∀ s ∈ qualified i (Text.withoutBlanks (f.textOf receiver ++ "." ++ name)) want,
      Clear bs i s := fun s hs => h.clear_of_mem (offered_of_mem_qualified h.consistent hs).1
  simp only [accessMember, htype, hqualified, Option.bind_eq_bind]
  cases ht : ls.top.typeOfExpr f receiver with
  | none =>
      simp only [Option.bind_none, Option.getD_none]
      exact ⟨trivial, hends⟩
  | some t =>
      have htc := hclear t ht
      obtain ⟨hextensions, hextensionsClear⟩ :=
        visibleExtensions_blanked h hls.below hm name want htc
      refine ⟨?_, fun s hs => ?_⟩
      · cases hc : t.classifier with
        | none => simp only [Option.bind_some, hc, hextensions]
        | some c =>
            simp only [Option.bind_some, hc, membersNamed_blanked h hls (htc c hc), hextensions]
      · simp only [Option.bind_some] at hs
        split at hs
        · split at hs
          · exact hends s hs
          · exact hextensionsClear s hs
        · exact h.clear_of_mem (mem_of_typeMembers h.consistent hs)

omit hls in
theorem suffixName?_blanked {f : SourceFile} {n : Node} (hn : Place bs i f n) :
    suffixName? (f.blanked (bs f.id)) (n.without (bs f.id).out) = suffixName? f n := by
  rw [suffixName?, suffixName?, childOfKind?_without (by decide), Option.bind_map]
  exact Option.bind_congr fun c hc =>
    identifierOf?_blanked (h.off f hn.mem) (hn.stays.of_childOfKind? hc (by decide))

/-- **What a navigation denotes is the same.** -/
theorem accessNavigation_blanked {f : SourceFile} {n : Node} (hn : Place bs i f n)
    (hkind : n.kind = "navigation_expression") (want : Want) :
    accessNavigation j ls' (f.blanked (bs f.id)) (n.without (bs f.id).out) want =
        accessNavigation i ls f n want ∧
      ∀ s ∈ (accessNavigation i ls f n want).symbols, Clear bs i s := by
  obtain ⟨hchild, hplace⟩ := namedChild?_zero_blanked h hn (by rw [hkind]; decide)
  unfold accessNavigation
  rw [hchild, suffixName?_blanked h hn]
  cases hr : n.namedChild? 0 with
  | none => exact ⟨rfl, fun s hs => nomatch hs⟩
  | some receiver =>
      cases suffixName? f n with
      | none => exact ⟨rfl, fun s hs => nomatch hs⟩
      | some name =>
          exact accessMember_blanked h hls hn (by rw [hkind]; decide) hr hn (hplace _ hr) name want

/-- **What the target of an assignment denotes is the same.** -/
theorem assignable_blanked {f : SourceFile} {n : Node} (hn : Place bs i f n)
    (hkind : n.kind = "directly_assignable_expression") :
    assignable j ls' (f.blanked (bs f.id)) (n.without (bs f.id).out) = assignable i ls f n ∧
      ∀ s ∈ assignable i ls f n, Clear bs i s := by
  obtain ⟨hchild, hplace⟩ := namedChild?_zero_blanked h hn (by rw [hkind]; decide)
  have hoff := h.off f hn.mem
  unfold assignable
  rw [childOfKind?_without (by decide), childOfKind?_without (by decide), hchild,
    hasChildOfKind_without (by decide)]
  cases hsuffix : n.childOfKind? "navigation_suffix" with
  | some suffix =>
      have hs := hn.stays.of_childOfKind? hsuffix (by decide)
      simp only [Option.map_some, identifierOf?_blanked hoff hs]
      cases hr : n.namedChild? 0 with
      | none => exact ⟨rfl, fun s hs => absurd hs List.not_mem_nil⟩
      | some receiver =>
          cases identifierOf? f suffix with
          | none => exact ⟨rfl, fun s hs => absurd hs List.not_mem_nil⟩
          | some name =>
              obtain ⟨heq, hclear⟩ := accessMember_blanked h hls.below hn (by rw [hkind]; decide) hr
                hn (hplace _ hr) name .value
              exact ⟨congrArg Access.symbols heq, hclear⟩
  | none =>
      simp only [Option.map_none]
      split
      · exact ⟨rfl, fun s hs => absurd hs List.not_mem_nil⟩
      · cases hidentifier : n.childOfKind? "simple_identifier" with
        | none => exact ⟨rfl, fun s hs => absurd hs List.not_mem_nil⟩
        | some identifier =>
            obtain ⟨hs, hw⟩ := Comments.OffDeclarations.word_of_childOfKind? hn.stays
              (k := "simple_identifier") (by decide) identifier hidentifier
            have htext : (f.blanked (bs f.id)).textOf (identifier.without (bs f.id).out) =
                f.textOf identifier := hoff.text_without hs hw
            simp only [Option.map_some, htext]
            exact hls.top.lookup ⟨hn.mem, hs⟩ _ .value

/-! ### Callees -/

theorem chooseCallable_blanked {candidates : List Symbol} (hc : ∀ s ∈ candidates, Clear bs i s)
    (arguments : Nat) :
    chooseCallable j ls' candidates arguments = chooseCallable i ls candidates arguments ∧
      ∀ s ∈ chooseCallable i ls candidates arguments, Clear bs i s := by
  refine ⟨?_, fun s hs => (mem_of_chooseCallable h.consistent hs).elim (hc s) h.clear_of_mem⟩
  unfold chooseCallable
  cases hfind : candidates.find? (·.kind.isClassifier) with
  | none => simp only
  | some c =>
      simp only [constructorsOf_blanked h hls.below (hc c (List.mem_of_find?_eq_some hfind))]

omit h hls in
theorem argumentCount_without {out : Comments} (n : Node) :
    argumentCount (n.without out) = argumentCount n := by
  rw [argumentCount, argumentCount, childOfKind?_without (by decide)]
  cases n.childOfKind? "value_arguments" with
  | none => rfl
  | some list => simp only [Option.map_some, childrenOfKind_without
      (show "value_argument" ∉ commentKinds by decide), List.length_map]

omit h hls in
theorem callArgumentCount_without {out : Comments} (n : Node) :
    callArgumentCount (n.without out) = callArgumentCount n := by
  rw [callArgumentCount, callArgumentCount, childOfKind?_without (by decide)]
  cases n.childOfKind? "call_suffix" with
  | none => rfl
  | some suffix => simp only [Option.map_some, argumentCount_without, hasChildOfKind_without
      (show "annotated_lambda" ∉ commentKinds by decide)]

/-- **What a call expression calls is the same.** -/
theorem callTarget_blanked {f : SourceFile} {n : Node} (hn : Place bs i f n)
    (hkind : n.kind = "call_expression") :
    callTarget j ls' (f.blanked (bs f.id)) (n.without (bs f.id).out) = callTarget i ls f n ∧
      ∀ c ∈ callTarget i ls f n, Clear bs i c.symbol := by
  obtain ⟨hchild, hplace⟩ := namedChild?_zero_blanked h hn (by rw [hkind]; decide)
  -- once the candidates are the same, so is the one that is chosen
  have chosen : ∀ access : Access, (∀ s ∈ access.symbols, Clear bs i s) →
      ((chooseCallable j ls' access.symbols (callArgumentCount (n.without (bs f.id).out))).bind
          fun s => some (⟨s, s.isExtension || access.asExtension⟩ : Call)) =
        ((chooseCallable i ls access.symbols (callArgumentCount n)).bind
          fun s => some (⟨s, s.isExtension || access.asExtension⟩ : Call)) ∧
      ∀ c ∈ (chooseCallable i ls access.symbols (callArgumentCount n)).bind
          fun s => some (⟨s, s.isExtension || access.asExtension⟩ : Call), Clear bs i c.symbol := by
    intro access haccess
    obtain ⟨heq, hclear⟩ := chooseCallable_blanked h hls haccess (callArgumentCount n)
    rw [callArgumentCount_without]
    refine bind_alike_id heq fun s hs => ⟨rfl, fun c hc => ?_⟩
    obtain rfl := Option.some.inj hc
    exact hclear s hs
  refine bind_alike hchild fun callee hcallee => ?_
  have hs := hplace callee hcallee
  simp only [kind_without, Option.bind_eq_bind]
  split
  · next hk =>
    have htext : (f.blanked (bs f.id)).textOf (callee.without (bs f.id).out) = f.textOf callee :=
      (h.off f hn.mem).text_without hs.stays
        (Comments.OffDeclarations.isWord_of_kind hk (by decide))
    obtain ⟨hlookup, hclear⟩ := hls.top.lookup hs (f.textOf callee) .callable
    rw [htext, hlookup]
    exact chosen ⟨_, false⟩ hclear
  · next hk =>
    obtain ⟨haccess, hclear⟩ := accessNavigation_blanked h hls.below hs hk .callable
    rw [haccess]
    exact chosen _ hclear
  · simp only [Option.bind_none]
    exact ⟨trivial, fun c hc => nomatch hc⟩

/-- **What an invocation of a constructor calls is the same.** -/
theorem constructorTarget_blanked {f : SourceFile} {n : Node} (hn : Place bs i f n) :
    constructorTarget j ls' (f.blanked (bs f.id)) (n.without (bs f.id).out) =
      constructorTarget i ls f n := by
  refine (bind_alike (P := fun _ => True) (childOfKind?_without (by decide))
    fun written hwritten => ?_).1
  obtain ⟨hs, hw⟩ := Comments.OffDeclarations.word_of_childOfKind? hn.stays
    (k := "user_type") (by decide) written hwritten
  have htext : (f.blanked (bs f.id)).textOf (written.without (bs f.id).out) = f.textOf written :=
    (h.off f hn.mem).text_without hs hw
  obtain ⟨hnamed, hclear⟩ := hls.top.classifierNamed hn (f.textOf written) true
  rw [htext, argumentCount_without]
  refine bind_alike_id hnamed fun c hc => ?_
  have hcandidates : ∀ s ∈ constructorsOf i ls.below c, Clear bs i s :=
    fun s hs => h.clear_of_mem (mem_of_mem_constructorsOf h.consistent hs)
  have hchosen := chooseCallable_blanked h hls hcandidates (argumentCount n)
  rw [constructorsOf_blanked h hls.below (hclear c hc)]
  exact bind_alike_id hchosen.1 fun s _ => ⟨rfl, fun _ _ => trivial⟩

end Levels

end Index

end Resolve

end Crossref
