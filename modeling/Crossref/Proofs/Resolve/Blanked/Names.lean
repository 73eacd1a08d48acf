import Crossref.Proofs.Resolve.Blanked.Local
import Crossref.Proofs.Resolve.Sources

/-!
# Proofs — resolution — names with comments left out

Resolution finds most parts of an expression by their kinds.  Some it finds by counting: the first
named child of a call, the second of an infix call, the last child of a postfix expression.  Where
no comment stands in such a place, and where no comment changes the text that a name is read from,
every question has the same answer in a project with the comments as in one without them.  Questions
nest, so this is said of levels and kept when a level is put over others.

Here are the conditions and what follows for names.

* `lookupName_blanked`: a name denotes the same symbols.
* `classifierOfText_blanked`: a type as written names the same classifier.
-/

namespace Crossref

namespace Resolve
open Node

/-- The constructs that have their operand, receiver or callee as the first named child. -/
def leadKinds : List String :=
  ["call_expression", "navigation_expression", "directly_assignable_expression",
   "parenthesized_expression", "elvis_expression", "prefix_expression", "postfix_expression",
   "indexing_expression", "property_delegate"] ++ binaryKinds

/-- The constructs whose first named child begins a qualified name. -/
def receiverKinds : List String := ["navigation_expression", "directly_assignable_expression"]

/-- No qualified name of the project begins with the text and a dot. -/
def BeginsNoName (i : Index) (text : String) : Prop :=
  ∀ s ∈ i.symbols, ∀ name ∈ s.qualifiedName,
    Text.startsWith name (Text.withoutBlanks text ++ ".") = false

end Resolve

open Resolve in
/-- The comments stand where neither a declaration nor an expression of the file is read: no part
that is found by counting is a comment, nor the word that stands in such a part. -/
structure SourceFile.OffExpressions (b : Blanking) (i : Index) (f : SourceFile) : Prop
    extends b.out.OffDeclarations f.text b.text f.tree where
  first : ∀ n, Node.Stays b.out f.tree n → n.kind ∈ leadKinds → ∀ c ∈ n.namedChild? 0,
    c.isKept b.out = true
  second : ∀ n, Node.Stays b.out f.tree n → n.kind = "infix_expression" →
    ∀ c ∈ n.namedChild? 1, c.isKept b.out = true ∧ c.text b.text = c.text f.text
  last : ∀ n, Node.Stays b.out f.tree n → n.kind ∈ binaryKinds →
    ∀ c ∈ n.namedChildren.getLast?, c.isKept b.out = true
  sign : ∀ n, Node.Stays b.out f.tree n → n.kind = "postfix_expression" →
    ∀ c ∈ n.children.getLast?, c.isKept b.out = true ∧ c.text b.text = c.text f.text
  initial : ∀ n, Node.Stays b.out f.tree n → n.kind = "property_declaration" →
    ∀ c ∈ initializer? n, c.isKept b.out = true
  referenced : ∀ n, Node.Stays b.out f.tree n → n.kind = "callable_reference" →
    ∀ c ∈ (n.children.takeWhile (·.kind != "::")).find? Node.isNamed,
      c.isKept b.out = true ∧ c.text b.text = c.text f.text
  receiver : ∀ n, Node.Stays b.out f.tree n → n.kind ∈ receiverKinds → ∀ c ∈ n.namedChild? 0,
    c.text b.text = c.text f.text ∨
      (BeginsNoName i (c.text b.text) ∧ BeginsNoName i (c.text f.text))

namespace Resolve
open Node Index

/-- The second index holds the files of the first without comments that stand where nothing is
read. -/
structure Spared (bs : FileId → Blanking) (i j : Index) : Prop extends Index.Blanks bs i j where
  expressions : ∀ f ∈ i.files, f.OffExpressions (bs f.id) i

/-- The node is one of an indexed file, and stays. -/
structure Place (bs : FileId → Blanking) (i : Index) (f : SourceFile) (n : Node) : Prop where
  mem : f ∈ i.files
  stays : Stays (bs f.id).out f.tree n

/-- No comment stands at the declaration of the type's classifier. -/
def ExprType.Clear (bs : FileId → Blanking) (i : Index) (t : ExprType) : Prop :=
  ∀ c ∈ t.classifier, Index.Clear bs i c

/-- The second level answers about what is left as the first does about the whole, and no comment
stands at the declarations that it answers with. -/
structure Level.Same (bs : FileId → Blanking) (i : Index) (l l' : Level) : Prop where
  lookup : ∀ {f : SourceFile} {n : Node}, Place bs i f n → ∀ name want,
    l'.lookup (f.blanked (bs f.id)) name (n.without (bs f.id).out) want = l.lookup f name n want ∧
      ∀ s ∈ l.lookup f name n want, Clear bs i s
  classifierNamed : ∀ {f : SourceFile} {n : Node}, Place bs i f n → ∀ text throughAlias,
    l'.classifierNamed (f.blanked (bs f.id)) (n.without (bs f.id).out) text throughAlias =
        l.classifierNamed f n text throughAlias ∧
      ∀ c ∈ l.classifierNamed f n text throughAlias, Clear bs i c
  typeOfExpr : ∀ {f : SourceFile} {n : Node}, Place bs i f n →
    l'.typeOfExpr (f.blanked (bs f.id)) (n.without (bs f.id).out) = l.typeOfExpr f n ∧
      ∀ t ∈ l.typeOfExpr f n, t.Clear bs i
  typeOfSymbol : ∀ {s : Symbol}, Clear bs i s →
    l'.typeOfSymbol s = l.typeOfSymbol s ∧ ∀ t ∈ l.typeOfSymbol s, t.Clear bs i

/-- Level by level the stacks answer alike. -/
def Levels.Same (bs : FileId → Blanking) (i : Index) : Levels → Levels → Prop :=
  List.Forall₂ (Level.Same bs i)

/-- Levels that are used up answer nothing, with comments or without. -/
theorem Level.same_exhausted (bs : FileId → Blanking) (i : Index) :
    Level.Same bs i .exhausted .exhausted where
  lookup _ _ _ := ⟨rfl, fun _ hs => nomatch hs⟩
  classifierNamed _ _ _ := ⟨rfl, fun _ hc => nomatch hc⟩
  typeOfExpr _ := ⟨rfl, fun _ ht => nomatch ht⟩
  typeOfSymbol _ := ⟨rfl, fun _ ht => nomatch ht⟩

theorem Levels.Same.top {bs : FileId → Blanking} {i : Index} {ls ls' : Levels}
    (h : Levels.Same bs i ls ls') : Level.Same bs i ls.top ls'.top := by
  cases h with
  | nil => exact Level.same_exhausted bs i
  | cons h _ => exact h

theorem Levels.Same.below {bs : FileId → Blanking} {i : Index} {ls ls' : Levels}
    (h : Levels.Same bs i ls ls') : Levels.Same bs i ls.below ls'.below := by
  cases h with
  | nil => exact .nil
  | cons _ h => exact h

/-- Answers that go on from the same start in the same way are the same; where every way keeps to a
property, so does the answer. -/
theorem bind_alike {α α' β : Type} {P : β → Prop} {start : Option α} {start' : Option α'}
    {φ : α → α'} {next : α → Option β} {next' : α' → Option β} (hstart : start' = start.map φ)
    (hnext : ∀ a ∈ start, next' (φ a) = next a ∧ ∀ c ∈ next a, P c) :
    start'.bind next' = start.bind next ∧ ∀ c ∈ start.bind next, P c := by
  cases start with
  | none =>
      rw [hstart, Option.map_none, Option.bind_none, Option.bind_none]
      exact ⟨rfl, fun c hc => nomatch hc⟩
  | some a =>
      rw [hstart, Option.map_some, Option.bind_some, Option.bind_some]
      exact hnext a rfl

/-- The same of answers that start from one and the same. -/
theorem bind_alike_id {α β : Type} {P : β → Prop} {start start' : Option α}
    {next next' : α → Option β} (hstart : start' = start)
    (hnext : ∀ a ∈ start, next' a = next a ∧ ∀ c ∈ next a, P c) :
    start'.bind next' = start.bind next ∧ ∀ c ∈ start.bind next, P c :=
  bind_alike (φ := id) (hstart.trans (Option.map_id_apply).symm) hnext

theorem none_alike {β : Type} (P : β → Prop) :
    (none : Option β) = none ∧ ∀ c ∈ (none : Option β), P c :=
  ⟨rfl, fun _ hc => nomatch hc⟩

section Index

variable {bs : FileId → Blanking} {i j : Index} (h : Spared bs i j)
include h

/-- A qualified name stands for the same declarations. -/
theorem qualified_blanked : qualified j = qualified i := by
  funext name want
  rw [qualified, qualified, h.findByQualifiedName]

/-! ### Classifiers -/

section Levels

variable {ls ls' : Levels} (hls : Levels.Same bs i ls ls')
include hls

/-- An alias stands for the same classifier, and no comment stands at its declaration. -/
theorem followAlias_blanked {c : Symbol} (hc : Clear bs i c) :
    followAlias j ls' c = followAlias i ls c ∧
      ∀ d ∈ followAlias i ls c, Clear bs i d := by
  obtain ⟨hanchor, hplace⟩ := h.anchor?_eq hc
  unfold followAlias
  split
  · refine bind_alike_id rfl fun target _ => bind_alike hanchor fun p hp => ?_
    obtain ⟨hf, hn⟩ := hplace p hp
    exact hls.top.classifierNamed ⟨hf, hn⟩ target true
  · exact ⟨rfl, fun d hd => by obtain rfl := Option.some.inj hd; exact hc⟩

/-- A classifier has the same supertypes, and no comment stands at their declarations. -/
theorem supertypesOf_blanked {c : Symbol} (hc : Clear bs i c) :
    supertypesOf j ls' c = supertypesOf i ls c ∧
      ∀ d ∈ supertypesOf i ls c, Clear bs i d := by
  obtain ⟨hanchor, hplace⟩ := h.anchor?_eq hc
  unfold supertypesOf
  rw [hanchor]
  cases hp : i.anchor? c with
  | none => exact ⟨rfl, fun d hd => nomatch hd⟩
  | some p =>
      obtain ⟨hf, hn⟩ := hplace p hp
      have hsame := fun t => hls.top.classifierNamed ⟨hf, hn⟩ t true
      refine ⟨List.filterMap_congr fun t _ => (hsame t).1, fun d hd => ?_⟩
      obtain ⟨t, -, hd⟩ := List.mem_filterMap.1 hd
      exact (hsame t).2 d hd

/-! ### Implicit receivers -/

omit hls in
/-- No comment stands at the declaration of a classifier that is found by its key. -/
theorem clear_of_classifierAt? {k : DeclKey} {c : Symbol} (hc : i.classifierAt? k = some c) :
    Clear bs i c := by
  have hmem := List.mem_of_find?_eq_some hc
  rw [h.consistent.tables, symbolsAt_ofParts] at hmem
  exact h.clear_of_mem (List.mem_filter.1 hmem).1

/-- A node brings in the same receivers.  The types that it writes are read without their comments.
-/
theorem receiversAt_blanked {f : SourceFile} {n : Node} (hn : Place bs i f n) :
    receiversAt j ls' (f.blanked (bs f.id)) (n.without (bs f.id).out) = receiversAt i ls f n ∧
      ∀ c ∈ receiversAt i ls f n, Clear bs i c := by
  have hoff := h.off f hn.mem
  have hnamed := fun text => hls.top.classifierNamed hn text true
  unfold receiversAt
  rw [kind_without]
  split
  · rw [SourceFile.keyOf_blanked hoff hn.stays, h.classifierAt?]
    exact ⟨rfl, fun c hc => clear_of_classifierAt? h (Option.mem_toList.1 hc)⟩
  · split
    · rw [Kotlin.delegationSpecifiers_without, List.filterMap_map]
      simp only [Function.comp_def, Kotlin.specifierType?_without]
      rw [← List.map_filterMap, List.filterMap_map]
      refine ⟨List.filterMap_congr fun t ht => ?_, fun c hc => ?_⟩
      · obtain ⟨specifier, hspecifier, ht⟩ := List.mem_filterMap.1 ht
        obtain ⟨hs, hw⟩ := Comments.OffDeclarations.specifierType_word
          (Comments.OffDeclarations.stays_of_mem_delegationSpecifiers hn.stays hspecifier) ht
        have htext : (f.blanked (bs f.id)).textOf (t.without (bs f.id).out) = f.textOf t :=
          hoff.text_without hs hw
        rw [Function.comp_apply, htext, (hnamed _).1]
      · obtain ⟨t, -, hc⟩ := List.mem_filterMap.1 hc
        exact (hnamed _).2 c hc
    · split
      · rw [SourceFile.text_blanked, hoff.receiverType?_without hn.stays]
        refine ⟨by simp only [(hnamed _).1], fun c hc => ?_⟩
        obtain ⟨text, -, hc⟩ := Option.bind_eq_some_iff.1 (Option.mem_toList.1 hc)
        exact (hnamed _).2 c hc
      · exact ⟨rfl, fun c hc => nomatch hc⟩

/-- So do all the nodes around a place. -/
theorem enclosingReceivers_blanked {f : SourceFile} {n : Node} (hn : Place bs i f n) :
    enclosingReceivers j ls' (f.blanked (bs f.id)) (n.without (bs f.id).out) =
        enclosingReceivers i ls f n ∧
      ∀ c ∈ enclosingReceivers i ls f n, Clear bs i c := by
  have hat : ∀ a ∈ n.ancestors, Place bs i f a := fun a ha =>
    ⟨hn.mem, Comments.Between.stays_of_mem_ancestors hn.stays.within ha⟩
  rw [enclosingReceivers, enclosingReceivers, ancestors_without, List.flatMap_map]
  refine ⟨List.flatMap_congr fun a ha => (receiversAt_blanked h hls (hat a ha)).1, fun c hc => ?_⟩
  obtain ⟨a, ha, hc⟩ := List.mem_flatMap.1 hc
  exact (receiversAt_blanked h hls (hat a ha)).2 c hc

/-! ### Members -/

omit hls in
theorem directMembersNamed_blanked : directMembersNamed j = directMembersNamed i := by
  funext c name want
  simp only [directMembersNamed, h.membersOf]

/-- The classifiers of the next round are looked at in the same way. -/
def Round.Clear (bs : FileId → Blanking) (i : Index) (r : Round) : Prop :=
  ∀ c ∈ r.next, Index.Clear bs i c

/-- The search for members visits a classifier in the same way, and what it is to visit next is as
clear of comments. -/
theorem visit_blanked (name : String) (want : Want) {r : Round} (hr : r.Clear bs i) {c : Symbol}
    (hc : Clear bs i c) :
    r.visit j ls' name want c = r.visit i ls name want c ∧
      (r.visit i ls name want c).Clear bs i := by
  obtain ⟨halias, hclear⟩ := followAlias_blanked h hls hc
  unfold Round.visit
  rw [halias]
  cases hd : followAlias i ls c with
  | none => exact ⟨rfl, hr⟩
  | some d =>
      obtain ⟨hsupers, hnext⟩ := supertypesOf_blanked h hls (hclear d hd)
      dsimp only
      rw [hsupers, directMembersNamed_blanked h]
      split
      · exact ⟨rfl, hr⟩
      · exact ⟨rfl, fun e he => (List.mem_append.1 he).elim (hr e) (hnext e)⟩

/-- So it visits the classifiers of a round, one after the other. -/
theorem foldl_visit_blanked (name : String) (want : Want) :
    ∀ {cs : List Symbol} {r : Round}, r.Clear bs i → (∀ c ∈ cs, Clear bs i c) →
      cs.foldl (Round.visit j ls' name want) r = cs.foldl (Round.visit i ls name want) r ∧
        (cs.foldl (Round.visit i ls name want) r).Clear bs i
  | [], _, hr, _ => ⟨rfl, hr⟩
  | c :: cs, r, hr, hcs => by
      obtain ⟨hvisit, hnext⟩ := visit_blanked h hls name want hr
        (hcs c List.mem_cons_self)
      rw [List.foldl_cons, List.foldl_cons, hvisit]
      exact foldl_visit_blanked name want hnext fun d hd => hcs d (List.mem_cons_of_mem _ hd)

omit hls in
/-- Induction over the levels that the rounds are spent on. -/
theorem membersFrom_blanked {name : String} {want : Want} {ls ls' : Levels}
    (hls : Levels.Same bs i ls ls') :
    ∀ {seen : List Handle} {cs : List Symbol}, (∀ c ∈ cs, Clear bs i c) →
      membersFrom j name want ls' seen cs = membersFrom i name want ls seen cs := by
  induction hls with
  | nil => intro seen cs _; rfl
  | @cons l l' ls ls' hl hls ih =>
      intro seen cs hcs
      cases cs with
      | nil => rfl
      | cons c cs =>
          have hfirst : Round.Clear bs i ⟨seen, [], []⟩ := fun d hd => nomatch hd
          obtain ⟨hround, hnext⟩ := foldl_visit_blanked h hls name want hfirst hcs
          rw [membersFrom, membersFrom, hround]
          simp only [ih hnext]

/-- A classifier has the same members of a name. -/
theorem membersNamed_blanked {c : Symbol} (hc : Clear bs i c) (name : String) (want : Want) :
    membersNamed j ls' c name want = membersNamed i ls c name want :=
  membersFrom_blanked h hls fun d hd => by
    obtain rfl := List.mem_singleton.1 hd
    exact hc

omit hls in
theorem clear_of_mem_membersNamed {c s : Symbol} {name : String} {want : Want}
    (hs : s ∈ membersNamed i ls c name want) : Clear bs i s :=
  h.clear_of_mem (offered_of_mem_membersNamed h.consistent hs).1

/-- A classifier has the same constructors. -/
theorem constructorsOf_blanked {c : Symbol} (hc : Clear bs i c) :
    constructorsOf j ls' c = constructorsOf i ls c := by
  rw [constructorsOf, constructorsOf, (followAlias_blanked h hls hc).1, h.membersOf]

/-! ### Names -/

omit hls in
/-- A local binding is declared by a place that stays. -/
theorem clear_of_mem_localBindings {f : SourceFile} {n : Node} (hn : Place bs i f n) {name : String}
    {s : Symbol} (hs : s ∈ localBindings f name n) : Clear bs i s := by
  have hoff := h.off f hn.mem
  rw [← localBindings_blanked hoff hn.stays] at hs
  obtain ⟨m, hm, hd⟩ := exists_place_of_mem_localBindings
    (Comments.Between.within_without hn.stays) hs
  exact h.clear_of_keyOf hn.mem hm hd

/-- **A name denotes the same symbols**, indexed or bound locally. -/
theorem lookupName_blanked {f : SourceFile} {n : Node} (hn : Place bs i f n) (name : String)
    (want : Want) :
    lookupName j ls' (f.blanked (bs f.id)) name (n.without (bs f.id).out) want =
        lookupName i ls f name n want ∧
      ∀ s ∈ lookupName i ls f name n want, Clear bs i s := by
  have hoff := h.off f hn.mem
  obtain ⟨hreceivers, hclear⟩ := enclosingReceivers_blanked h hls hn
  have hmembers : receiverMembers j ls' (f.blanked (bs f.id)) name (n.without (bs f.id).out) want =
      receiverMembers i ls f name n want := by
    rw [receiverMembers, receiverMembers, hreceivers]
    refine congrArg firstFound (List.map_congr_left fun c hc => ?_)
    funext _
    exact membersNamed_blanked h hls (hclear c hc) name want
  refine ⟨?_, fun s hs => ?_⟩
  · simp only [lookupName, tiers, hmembers, localBindings_blanked hoff hn.stays, inFile, imported,
      inPackage, starImported, globallyUnique, qualified_blanked h, h.topLevelIn, h.findByName,
      SourceFile.id_blanked, SourceFile.imports_blanked, SourceFile.package_blanked]
  · rcases offered_of_mem_lookupName h.consistent hs with hs | ⟨-, hs⟩
    · exact h.clear_of_mem hs.1
    · exact clear_of_mem_localBindings h hn hs

/-! ### Types as written -/

/-- The members that the segments of a path name one after the other. -/
theorem foldlM_membersNamed_blanked :
    ∀ {segments : List String} {c : Symbol}, Clear bs i c →
      segments.foldlM (fun c segment => (membersNamed j ls' c segment .type).head?) c =
          segments.foldlM (fun c segment => (membersNamed i ls c segment .type).head?) c ∧
        ∀ d ∈ segments.foldlM (fun c segment => (membersNamed i ls c segment .type).head?) c,
          Clear bs i d
  | [], c, hc => by
      rw [List.foldlM_nil, List.foldlM_nil]
      exact ⟨rfl, fun d hd => by obtain rfl := Option.some.inj hd; exact hc⟩
  | segment :: segments, c, hc => by
      rw [List.foldlM_cons, List.foldlM_cons, membersNamed_blanked h hls hc]
      exact bind_alike_id rfl fun m hm =>
        foldlM_membersNamed_blanked (clear_of_mem_membersNamed h (List.mem_of_head? hm))

/-- A path of names leads to the same classifier. -/
theorem classifierAlong_blanked {f : SourceFile} {n : Node} (hn : Place bs i f n)
    (segments : List String) :
    classifierAlong j ls' (f.blanked (bs f.id)) (n.without (bs f.id).out) segments =
        classifierAlong i ls f n segments ∧
      ∀ c ∈ classifierAlong i ls f n segments, Clear bs i c := by
  cases segments with
  | nil => exact none_alike _
  | cons first rest =>
      obtain ⟨hlookup, hclear⟩ := hls.top.lookup hn first .type
      exact bind_alike_id (congrArg List.head? hlookup) fun outermost ho =>
        foldlM_membersNamed_blanked h hls (hclear outermost (List.mem_of_head? ho))

theorem classifierOfName_blanked {f : SourceFile} {n : Node} (hn : Place bs i f n) (name : String) :
    classifierOfName j ls' (f.blanked (bs f.id)) (n.without (bs f.id).out) name =
        classifierOfName i ls f n name ∧
      ∀ c ∈ classifierOfName i ls f n name, Clear bs i c := by
  obtain ⟨hlookup, hclear⟩ := hls.top.lookup hn name .type
  obtain ⟨halong, halongClear⟩ := classifierAlong_blanked h hls hn (Text.splitOn name '.')
  unfold classifierOfName
  rw [hlookup, halong, qualified_blanked h]
  split
  · cases hq : (qualified i name .type).head? with
    | some c =>
        refine ⟨rfl, fun d hd => ?_⟩
        obtain rfl := Option.some.inj hd
        exact h.clear_of_mem (offered_of_mem_qualified h.consistent (List.mem_of_head? hq)).1
    | none => exact ⟨rfl, halongClear⟩
  · exact ⟨rfl, fun c hc => hclear c (List.mem_of_head? hc)⟩

/-- **A type as written names the same classifier.** -/
theorem classifierOfText_blanked {f : SourceFile} {n : Node} (hn : Place bs i f n) (text : String)
    (throughAlias : Bool) :
    classifierOfText j ls' (f.blanked (bs f.id)) (n.without (bs f.id).out) text throughAlias =
        classifierOfText i ls f n text throughAlias ∧
      ∀ c ∈ classifierOfText i ls f n text throughAlias, Clear bs i c := by
  obtain ⟨hname, hclear⟩ := classifierOfName_blanked h hls hn
    (Text.withoutBlanks (Kotlin.simpleTypeName text))
  simp only [classifierOfText, Option.bind_eq_bind, Option.bind_none]
  split
  · exact none_alike _
  · refine bind_alike_id hname fun found hfound => ?_
    split
    · exact followAlias_blanked h hls (hclear found hfound)
    · exact ⟨rfl, fun c hc => by obtain rfl := Option.some.inj hc; exact hclear _ hfound⟩

end Levels

end Index

end Resolve

end Crossref
