import Crossref.Proofs.Usage.Blanked.Walk

/-!
# Proofs — usages — what is recorded with comments left out

Two more places are found by counting where usages are recorded: an identifier is the name of a
named argument if the sign of equality is its next sibling, and it is a label if the sibling before
it ends in an `@`.  Where no comment stands in these places either, a node is asked the same
questions, and what the answers lead to is recorded at the same site.

* `isReferencePosition_blanked`: the same identifiers refer to something by themselves.
* `record_blanked`: at every visit the same is recorded.
-/

namespace Crossref

open Usage in
/-- The comments stand where neither a declaration nor an expression nor a use is read: none stands
between the name of a named argument and the sign of equality, nor between the sign of a jump and
its label. -/
structure SourceFile.OffUsages (b : Blanking) (i : Index) (f : SourceFile) : Prop
    extends f.OffExpressions b i where
  label : ∀ n, Node.Stays b.out f.tree n → Construct.ofNode n = .identifier →
    ∀ p ∈ n.parent?, p.kind = "value_argument" → ∀ x ∈ n.nextSibling?, x.isKept b.out = false →
      ∀ s ∈ n.following, s.kind ≠ "="
  target : ∀ n, Node.Stays b.out f.tree n → Construct.ofNode n = .identifier →
    ∀ p ∈ n.parent?, p.kind = "jump_expression" → ∀ x ∈ n.prevSibling?, x.isKept b.out = false →
      ∀ s ∈ n.preceding, s.isNamed = false → Text.endsWithChar (s.text f.text) '@' = false

/-- The comments stand where nothing of the file is read. -/
structure SourceFile.Unread (b : Blanking) (i : Index) (f : SourceFile) : Prop
    extends f.OffHead b, f.OffUsages b i

namespace Usage
open Node Resolve

section Index

variable {bs : FileId → Blanking} {i j : Index} (h : Spared bs i j) {f : SourceFile} {n : Node}
  (hn : Place bs i f n)

/-! ### Positions of identifiers -/

/-- A child that is found by counting is the same child. -/
theorem isNamedChild_without {out : Comments} {p : Node} {k : Nat}
    (hchild : (p.without out).namedChild? k = (p.namedChild? k).map (without out))
    (hkept : ∀ c ∈ p.namedChild? k, c.isKept out = true) (hmem : n ∈ p.children)
    (hk : n.isKept out = true) :
    isNamedChild (p.without out) k (n.without out) = isNamedChild p k n := by
  unfold isNamedChild
  rw [hchild]
  cases hc : p.namedChild? k with
  | none => rfl
  | some c =>
      exact isSame_without (mem_children_of_namedChild? hc) hmem (hkept c hc) hk

/-- Below an argument, an identifier is a name of its own if the sign of equality is next to it. -/
theorem isOwnName_of_argument {source : String} {p : Node} (hk : p.kind = "value_argument") :
    isOwnName source p n = n.nextSibling?.any (·.kind == "=") := by
  unfold isOwnName
  rw [hk]
  cases n.nextSibling? <;> rfl

/-- Below a jump, an identifier is a name of its own if a sign that ends in an `@` is before it. -/
theorem isOwnName_of_jump {source : String} {p : Node} (hk : p.kind = "jump_expression") :
    isOwnName source p n =
      n.prevSibling?.any fun s => !s.isNamed && Text.endsWithChar (s.text source) '@' := by
  unfold isOwnName
  rw [hk]
  cases n.prevSibling? <;> rfl

/-- A use stands at the same place of its file. -/
theorem site_blanked (b : Blanking) :
    Site.ofNode (f.blanked b) (n.without b.out) = Site.ofNode f n := by
  simp [Site.ofNode]

include h hn

/-- Of a construct whose first part is its operand, the first part stays the first. -/
theorem isFirstChild_blanked {p : Node} (hp : Place bs i f p) (hkind : p.kind ∈ leadKinds)
    (hmem : n ∈ p.children) :
    isNamedChild (p.without (bs f.id).out) 0 (n.without (bs f.id).out) = isNamedChild p 0 n := by
  obtain ⟨hchild, hplace⟩ := namedChild?_zero_blanked h hp hkind
  exact isNamedChild_without hchild (fun c hc => (hplace c hc).stays.kept) hmem hn.stays.kept

theorem isQualifier_blanked : isQualifier (n.without (bs f.id).out) = isQualifier n := by
  unfold isQualifier
  rw [parent?_without]
  cases hparent : n.parent? with
  | none => rfl
  | some p =>
      obtain ⟨hmem, hs⟩ := hn.stays.of_parent? hparent
      simp only [Option.map_some, kind_without]
      by_cases hkind : p.kind ∈ receiverKinds
      · have hlead : p.kind ∈ leadKinds := by
          have hsub : ∀ k ∈ receiverKinds, k ∈ leadKinds := by decide
          exact hsub _ hkind
        rw [isFirstChild_blanked h hn ⟨hn.mem, hs⟩ hlead hmem]
      · have hnot : ["navigation_expression", "directly_assignable_expression"].contains p.kind =
            false := by
          rw [Bool.eq_false_iff, Ne, List.contains_iff_mem]
          exact hkind
        rw [hnot, Bool.false_and, Bool.false_and, Bool.false_and, Bool.false_and]

section Positions

variable (hu : f.OffUsages (bs f.id) i) (hidentifier : Construct.ofNode n = .identifier)
include hu hidentifier

omit h in
/-- No comment stands between the name of an argument and the sign of equality. -/
theorem isOwnName_blanked_of_argument {p : Node} (hparent : n.parent? = some p)
    (hkind : p.kind = "value_argument") :
    isOwnName (f.blanked (bs f.id)).text (p.without (bs f.id).out) (n.without (bs f.id).out) =
      isOwnName f.text p n := by
  rw [isOwnName_of_argument (by rw [kind_without, hkind]), isOwnName_of_argument hkind,
    nextSibling?, following_without hn.stays.within hn.stays.kept]
  refine any_head?_leftOf (by simp) fun x hx hout s hs => beq_eq_false_iff_ne.2 ?_
  exact hu.label n hn.stays hidentifier p hparent hkind x hx hout s hs

omit h in
/-- No comment stands between the sign of a jump and its label, nor in the sign. -/
theorem isOwnName_blanked_of_jump {p : Node} (hparent : n.parent? = some p)
    (hkind : p.kind = "jump_expression") :
    isOwnName (f.blanked (bs f.id)).text (p.without (bs f.id).out) (n.without (bs f.id).out) =
      isOwnName f.text p n := by
  rw [isOwnName_of_jump (by rw [kind_without, hkind]), isOwnName_of_jump hkind,
    prevSibling?, preceding_without hn.stays.within hn.stays.kept]
  refine any_getLast?_leftOf (fun s hs hk => ?_) fun x hx hout s hs => ?_
  · -- a sign is a word, in which no comment stands
    rw [isNamed_without, SourceFile.text_blanked]
    cases hnamed : s.isNamed with
    | true => rfl
    | false =>
        have hword : Kotlin.isWord s = true := by
          rw [Kotlin.isWord, hnamed]
          rfl
        rw [hu.text_without (hn.stays.of_mem_preceding hs hk) hword]
  · cases hnamed : s.isNamed with
    | true => rfl
    | false => exact hu.target n hn.stays hidentifier p hparent hkind x hx hout s hs hnamed

/-- A name is the name of the same construct, whichever comments are left out. -/
theorem isOwnName_blanked {p : Node} (hparent : n.parent? = some p) :
    isOwnName (f.blanked (bs f.id)).text (p.without (bs f.id).out) (n.without (bs f.id).out) =
      isOwnName f.text p n := by
  obtain ⟨hmem, hs⟩ := hn.stays.of_parent? hparent
  have hp : Place bs i f p := ⟨hn.mem, hs⟩
  by_cases hlabel : p.kind = "value_argument"
  · exact isOwnName_blanked_of_argument hn hu hidentifier hparent hlabel
  by_cases htarget : p.kind = "jump_expression"
  · exact isOwnName_blanked_of_jump hn hu hidentifier hparent htarget
  unfold isOwnName
  rw [kind_without]
  split
  · rfl
  · rfl
  · next hk => exact isFirstChild_blanked h hn hp (by rw [hk]; decide) hmem
  · next hk =>
    have hsecond := hu.second p hs hk
    exact isNamedChild_without (namedChild?_one_blanked h hp hk) (fun c hc => (hsecond c hc).1) hmem
      hn.stays.kept
  · next hk => exact absurd hk hlabel
  · next hk => exact absurd hk htarget
  · rw [childOfKind?_without (by decide)]
    cases hc : p.childOfKind? "simple_identifier" with
    | none => rfl
    | some c =>
        have hkept : c.isKept (bs f.id).out = true := isKept_of_childOfKind? (by decide) c hc
        have hsame := isSame_without (mem_of_childOfKind? hc).1 hmem hkept hn.stays.kept
        simp only [Option.map_some, hsame]

/-- **An identifier refers to something by itself** in what is left if it does in the whole. -/
theorem isReferencePosition_blanked :
    isReferencePosition (f.blanked (bs f.id)).text (n.without (bs f.id).out) =
      isReferencePosition f.text n := by
  unfold isReferencePosition
  rw [parent?_without]
  cases hparent : n.parent? with
  | none => rfl
  | some p =>
      simp only [Option.map_some]
      rw [isOwnName_blanked h hn hu hidentifier hparent, ancestorOfKind?_without,
        Option.isNone_map]

end Positions

/-! ### What is recorded -/

/-- So does an identifier. -/
theorem recordReference_blanked (isTarget : Bool) :
    recordReference (Session.ofIndex j (f.blanked (bs f.id))) (n.without (bs f.id).out) isTarget =
      recordReference (Session.ofIndex i f) n isTarget := by
  have hreference : ofReference (f.blanked (bs f.id)) (n.without (bs f.id).out) isTarget
        ((Answers.ofIndex j (f.blanked (bs f.id))).reference (n.without (bs f.id).out)) =
      ofReference f n isTarget ((Answers.ofIndex i f).reference n) := by
    rw [Answers.reference_blanked h hn]
    simp only [ofReference, referenceKind?, isQualifier_blanked h hn, site_blanked]
  exact funext fun _ => congrArg (Prod.mk · ()) hreference

/-- A call leads to the same symbol and is recorded at the same place. -/
theorem recordCall_blanked (inDelegate : Bool) :
    recordCall (Session.ofIndex j (f.blanked (bs f.id))) (n.without (bs f.id).out) inDelegate =
      recordCall (Session.ofIndex i f) n inDelegate := by
  have hcall : ofCall (.ofNode (f.blanked (bs f.id)) (n.without (bs f.id).out)) inDelegate
        ((Answers.ofIndex j (f.blanked (bs f.id))).call (n.without (bs f.id).out)) =
      ofCall (.ofNode f n) inDelegate ((Answers.ofIndex i f).call n) := by
    rw [Answers.call_blanked h hn, site_blanked]
  exact funext fun _ => congrArg (Prod.mk · ()) hcall

/-- So does the name of a type. -/
theorem recordType_blanked (kind : Kind) :
    recordType (Session.ofIndex j (f.blanked (bs f.id))) (n.without (bs f.id).out) kind =
      recordType (Session.ofIndex i f) n kind := by
  have htype : ofType (.ofNode (f.blanked (bs f.id)) (n.without (bs f.id).out)) kind
        ((Answers.ofIndex j (f.blanked (bs f.id))).type (n.without (bs f.id).out)) =
      ofType (.ofNode f n) kind ((Answers.ofIndex i f).type n) := by
    rw [Answers.type_blanked h hn, site_blanked]
  exact funext fun _ => congrArg (Prod.mk · ()) htype

theorem recordDelegate_blanked (hkind : n.kind = "property_delegate") :
    recordDelegate (Session.ofIndex j (f.blanked (bs f.id))) (n.without (bs f.id).out) =
      recordDelegate (Session.ofIndex i f) n := by
  have hdelegate : ofDelegate (.ofNode (f.blanked (bs f.id)) (n.without (bs f.id).out))
        ((Answers.ofIndex j (f.blanked (bs f.id))).delegate (n.without (bs f.id).out)) =
      ofDelegate (.ofNode f n) ((Answers.ofIndex i f).delegate n) := by
    rw [Answers.delegate_blanked h hn hkind, site_blanked]
  exact funext fun _ => congrArg (Prod.mk · ()) hdelegate

/-- An assignment asks at its target and at itself, and both stay. -/
theorem recordAssignment_blanked (inDelegate : Bool) :
    recordAssignment (Session.ofIndex j (f.blanked (bs f.id))) (n.without (bs f.id).out)
        inDelegate =
      recordAssignment (Session.ofIndex i f) n inDelegate := by
  have hplain : isPlainAssignment (Session.ofIndex j (f.blanked (bs f.id))).file
      (n.without (bs f.id).out) = isPlainAssignment (Session.ofIndex i f).file n := by
    change isPlainAssignment (f.blanked (bs f.id)) _ = isPlainAssignment f n
    rw [isPlainAssignment, isPlainAssignment, assignmentToken?_blanked h hn]
  have hcall := recordCall_blanked h hn inDelegate
  unfold recordAssignment
  rw [assignmentTarget?_without]
  cases htarget : assignmentTarget? n with
  | none => rfl
  | some target =>
      have hreference := recordReference_blanked h
        ⟨hn.mem, hn.stays.of_childOfKind? htarget (by decide)⟩ true
      simp only [Option.map_some, isIndexed_without, hplain, hreference, hcall]

theorem recordSpecifier_blanked :
    recordSpecifier (Session.ofIndex j (f.blanked (bs f.id))) (n.without (bs f.id).out) =
      recordSpecifier (Session.ofIndex i f) n := by
  have hinvoked : (n.without (bs f.id).out).hasChildOfKind "constructor_invocation" =
      n.hasChildOfKind "constructor_invocation" := hasChildOfKind_without (by decide)
  unfold recordSpecifier
  rw [hinvoked, recordType_blanked h hn, recordCall_blanked h hn]

theorem recordAnnotationEntry_blanked :
    recordAnnotationEntry (Session.ofIndex j (f.blanked (bs f.id))) (n.without (bs f.id).out) =
      recordAnnotationEntry (Session.ofIndex i f) n := by
  unfold recordAnnotationEntry
  rw [annotationArguments?_without, Option.isSome_map, recordType_blanked h hn,
    recordCall_blanked h hn]

/-- **At every visit the same is recorded.** -/
theorem record_blanked (hu : f.OffUsages (bs f.id) i) (inDelegate : Bool) :
    record (Session.ofIndex j (f.blanked (bs f.id))) ⟨n.without (bs f.id).out, inDelegate⟩ =
      record (Session.ofIndex i f) ⟨n, inDelegate⟩ := by
  have hreference := recordReference_blanked h hn false
  have hcall := recordCall_blanked h hn inDelegate
  unfold record
  dsimp only
  rw [ofNode_without]
  split
  · exact hcall
  · exact hreference
  · next hc =>
    have hposition : isReferencePosition (Session.ofIndex j (f.blanked (bs f.id))).file.text
          (n.without (bs f.id).out) =
        isReferencePosition (Session.ofIndex i f).file.text n :=
      isReferencePosition_blanked h hn hu hc
    rw [hposition, hreference]
  · exact recordAssignment_blanked h hn inDelegate
  · exact hcall
  · exact recordType_blanked h hn _
  · exact recordSpecifier_blanked h hn
  · exact recordAnnotationEntry_blanked h hn
  · next hc =>
    have hkind := Construct.mem_kinds_ofNode (n := n) (by rw [hc]; decide)
    rw [hc] at hkind
    exact recordDelegate_blanked h hn (List.mem_singleton.1 hkind)
  · exact hreference
  · rfl

end Index

end Usage

end Crossref
