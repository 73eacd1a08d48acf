import Crossref.Proofs.Resolve.Blanked.Levels

/-!
# Proofs — resolution — answers with comments left out

A session over a project answers about every node as a session over the project without the comments
does about the node of what is left.

* `reference_blanked`, `call_blanked`, `type_blanked`, `delegate_blanked`: the answers are the same.
-/

namespace Crossref.Answers
open Node Resolve

variable {bs : FileId → Blanking} {i j : Index} (h : Spared bs i j) {f : SourceFile} {n : Node}
  (hn : Place bs i f n)
include h hn

section Levels

variable {ls ls' : Levels} (hls : Levels.Same bs i ls ls')
include hls

theorem callableReference_blanked (hkind : n.kind = "callable_reference") :
    callableReference j ls' (f.blanked (bs f.id)) (n.without (bs f.id).out) =
      callableReference i ls f n := by
  have hoff := h.off f hn.mem
  have hreferenced := (h.expressions f hn.mem).referenced n hn.stays hkind
  have hreceiver : ((n.without (bs f.id).out).children.takeWhile (·.kind != "::")).find? isNamed =
      ((n.children.takeWhile (·.kind != "::")).find? isNamed).map (without (bs f.id).out) := by
    have hsign : ∀ c : Node, c.kind ∈ commentKinds → (c.kind != "::") = true :=
      fun c hc => bne_iff_ne.2 fun e => absurd (e ▸ hc) (by decide)
    rw [Node.children_without, takeWhile_kind_leftOf (by simp) hsign]
    exact find?_leftOf_of_isKept (by simp) fun c hc => (hreferenced c hc).1
  unfold callableReference
  rw [childrenOfKind_without (by decide), List.getLast?_map, hreceiver]
  cases hidentifier : (n.childrenOfKind "simple_identifier").getLast? with
  | none => rfl
  | some identifier =>
      have hmem := List.mem_of_getLast? hidentifier
      have hs := hn.stays.of_mem_childrenOfKind hmem (by decide)
      have hname : (f.blanked (bs f.id)).textOf (identifier.without (bs f.id).out) =
          f.textOf identifier := hoff.text_without hs
        (Comments.OffDeclarations.isWord_of_kind (mem_childrenOfKind_iff.1 hmem).2 (by decide))
      simp only [Option.map_some, hname]
      cases hr : (n.children.takeWhile (·.kind != "::")).find? isNamed with
      | none =>
          simp only [Option.map_none]
          exact (hls.top.lookup hn _ .callable).1
      | some receiver =>
          have htext : (f.blanked (bs f.id)).textOf (receiver.without (bs f.id).out) =
              f.textOf receiver := by
            rw [SourceFile.textOf, Node.text_without]
            exact (hreferenced receiver hr).2
          obtain ⟨hnamed, hclear⟩ := hls.top.classifierNamed hn (f.textOf receiver) true
          simp only [Option.map_some, htext, hnamed]
          cases hc : ls.top.classifierNamed f n (f.textOf receiver) true with
          | none => simp only
          | some c =>
              simp only [membersNamed_blanked h hls (hclear c hc),
                (visibleExtensions_blanked h hls.below hn _ .callable
                  (clear_ofClassifier (hclear c hc))).1]

/-- What a node refers to. -/
theorem referenced_blanked :
    referenced j ls' (f.blanked (bs f.id)) (n.without (bs f.id).out) = referenced i ls f n := by
  have hlookup : Kotlin.wordKinds.contains n.kind = true →
      ls'.top.lookup (f.blanked (bs f.id))
          ((f.blanked (bs f.id)).textOf (n.without (bs f.id).out)) (n.without (bs f.id).out)
          .value =
        ls.top.lookup f (f.textOf n) n .value := by
    intro hk
    have htext : (f.blanked (bs f.id)).textOf (n.without (bs f.id).out) = f.textOf n :=
      (h.off f hn.mem).text_without hn.stays (Comments.OffDeclarations.isWord_of_kind rfl hk)
    rw [htext, (hls.top.lookup hn _ .value).1]
  unfold referenced
  rw [kind_without]
  split
  · next hk => exact hlookup (by rw [hk]; decide)
  · next hk => exact hlookup (by rw [hk]; decide)
  · next hk => rw [(accessNavigation_blanked h hls.below hn hk .value).1]
  · next hk => exact (assignable_blanked h hls.below hn hk).1
  · next hk => exact callableReference_blanked h hn hls.below hk
  · rfl

/-- What a node calls. -/
theorem called_blanked :
    called j ls' (f.blanked (bs f.id)) (n.without (bs f.id).out) = called i ls f n := by
  have hinvocation : ((n.without (bs f.id).out).childOfKind? "constructor_invocation").bind
        (constructorTarget j ls' (f.blanked (bs f.id))) =
      (n.childOfKind? "constructor_invocation").bind (constructorTarget i ls f) := by
    rw [childOfKind?_without (by decide), Option.bind_map]
    exact Option.bind_congr fun c hc => constructorTarget_blanked h hls
      ⟨hn.mem, hn.stays.of_childOfKind? hc (by decide)⟩
  unfold called
  rw [kind_without]
  split
  · next hk => exact (callTarget_blanked h hls hn hk).1
  · exact constructorTarget_blanked h hls hn
  · exact hinvocation
  · exact hinvocation
  · next hk => rw [delegateCalls_blanked h hls hn hk]
  · exact (operatorTarget_blanked h hls hn).1

end Levels

omit h hn in
theorem typeNode?_without {out : Comments} (n : Node) :
    typeNode? (n.without out) = (typeNode? n).map (without out) := by
  unfold typeNode?
  rw [kind_without]
  split
  · rfl
  · rfl
  · exact childOfKind?_without (by decide)
  · exact childOfKind?_without (by decide)
  · exact Kotlin.specifierType?_without n
  · exact Kotlin.specifierType?_without n
  · rfl

omit h in
/-- What writes a type is a word that stays. -/
theorem word_of_typeNode? {t : Node} (ht : typeNode? n = some t) :
    Place bs i f t ∧ Kotlin.isWord t = true := by
  have huser : ∀ c ∈ n.childOfKind? "user_type", Place bs i f c ∧ Kotlin.isWord c = true :=
    fun c hc =>
      have hword := Comments.OffDeclarations.word_of_childOfKind? hn.stays (by decide) c hc
      ⟨⟨hn.mem, hword.1⟩, hword.2⟩
  have hspecifier : Kotlin.specifierType? n = some t → Place bs i f t ∧ Kotlin.isWord t = true :=
    fun ht =>
      have hword := Comments.OffDeclarations.specifierType_word hn.stays ht
      ⟨⟨hn.mem, hword.1⟩, hword.2⟩
  unfold typeNode? at ht
  split at ht
  · next hk =>
    obtain rfl := Option.some.inj ht
    exact ⟨hn, Comments.OffDeclarations.isWord_of_kind hk (by decide)⟩
  · next hk =>
    obtain rfl := Option.some.inj ht
    exact ⟨hn, Comments.OffDeclarations.isWord_of_kind hk (by decide)⟩
  · exact huser t ht
  · exact huser t ht
  · exact hspecifier ht
  · exact hspecifier ht
  · cases ht

/-! ### Answers -/

omit hn in
theorem isStale_blanked : isStale j = isStale i := by
  funext s
  rw [isStale, isStale, h.symbol?]

/-- A node ends behind the end of the text in both files or in neither. -/
theorem guard_blanked {α : Type} {answer answer' : α} (hanswer : answer' = answer) :
    guard (f.blanked (bs f.id)) (n.without (bs f.id).out) (fun _ => answer') =
      guard f n fun _ => answer := by
  rw [guard, guard, SourceFile.text_blanked, (h.off f hn.mem).size, start_without, stop_without,
    hanswer]

/-- **What a node refers to is the same.** -/
theorem reference_blanked :
    (ofIndex j (f.blanked (bs f.id))).reference (n.without (bs f.id).out) =
      (ofIndex i f).reference n := by
  have hguard := guard_blanked h hn (referenced_blanked h hn (same_levels h (maxDepth + 1)))
  simp only [ofIndex, isStale_blanked h]
  rw [hguard]

/-- **What a node calls is the same.** -/
theorem call_blanked :
    (ofIndex j (f.blanked (bs f.id))).call (n.without (bs f.id).out) = (ofIndex i f).call n := by
  simp only [ofIndex]
  exact guard_blanked h hn (called_blanked h hn (same_levels h (maxDepth + 1)).below)

/-- **The type at a node is the same.** -/
theorem type_blanked :
    (ofIndex j (f.blanked (bs f.id))).type (n.without (bs f.id).out) = (ofIndex i f).type n := by
  simp only [ofIndex]
  refine guard_blanked h hn ?_
  rw [typeNode?_without, Option.bind_map]
  refine Option.bind_congr fun t ht => ?_
  obtain ⟨hplace, hword⟩ := word_of_typeNode? hn ht
  have htext : (f.blanked (bs f.id)).textOf (t.without (bs f.id).out) = f.textOf t :=
    (h.off f hn.mem).text_without hplace.stays hword
  rw [Function.comp_apply, htext,
    ((same_levels h (maxDepth + 1)).top.classifierNamed hplace _ false).1]

/-- **The conventions of a delegate are the same.** -/
theorem delegate_blanked (hkind : n.kind = "property_delegate") :
    (ofIndex j (f.blanked (bs f.id))).delegate (n.without (bs f.id).out) =
      (ofIndex i f).delegate n := by
  simp only [ofIndex]
  exact guard_blanked h hn
    (delegateCalls_blanked h (same_levels h (maxDepth + 1)).below hn hkind)

end Crossref.Answers
