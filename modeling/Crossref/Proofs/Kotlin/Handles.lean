import Crossref.Proofs.Kotlin.Scopes
import Crossref.Proofs.SourceFile.Handles

/-!
# Proofs — Kotlin — handles of symbols

A class, its constructor and the members that it has without writing them share the class's span;
the kinds and slots of their handles tell them apart, as long as a class is not both a data class
and an enum.  All other symbols have the span of a node of their own.  The parameters in the head of
a class, the class itself and the members in its body come from different parts of its node, and
what is read from two children lies below one of them only.

* `nodup_classOwn`: what a class introduces differs in kind or slot.
* `keyed_symbols`: the handles of a file's symbols are different.
-/

namespace Crossref.Kotlin
open Node SourceFile

/-! ### What a class introduces -/

/-- No class is both a data class and an enum. -/
def NoDataEnum (f : SourceFile) : Prop :=
  ∀ n, Within f.tree n → n.kind ∈ classKinds →
    ¬ ("data" ∈ modifiers n f.text ∧ "enum" ∈ modifiers n f.text)

instance (f : SourceFile) : Decidable (NoDataEnum f) :=
  decidable_of_iff
    (∀ n ∈ f.top.preorder, n.kind ∈ classKinds →
      ¬ ("data" ∈ modifiers n f.text ∧ "enum" ∈ modifiers n f.text))
    (forall_congr' fun _ => by rw [within_iff_mem_preorder]; rfl)

/-- The members of a data class that are not written are functions in slots of their own. -/
theorem mark_dataMembers (f : SourceFile) (cls : Symbol) (properties : List Symbol) :
    (dataMembers f cls properties).map Symbol.mark =
      (List.range (properties.length + 1)).map fun i => (.function, i + 1) := by
  have hcomponents : properties.zipIdx.map Prod.snd = List.range properties.length := by
    rw [List.zipIdx_map_snd, List.range_eq_range']
  rw [List.range_succ, List.map_append, ← hcomponents, List.map_map, dataMembers, List.map_append,
    List.map_map]
  rfl

theorem mark_enumMembers (f : SourceFile) (cls : Symbol) :
    (enumMembers f cls).map Symbol.mark = [(.function, 1), (.function, 2)] := rfl

/-- The members that a class has without writing them, apart from its constructor. -/
def addedMembers (f : SourceFile) (cls : Symbol) (n : Node) : List Symbol :=
  (if cls.hasModifier "data" then
      dataMembers f cls ((classParameters n).filterMap (boundParameterSymbol? f cls.handle))
    else [])
  ++ if cls.kind = .enumClass then enumMembers f cls else []

theorem classOwn_eq (f : SourceFile) (cls : Symbol) (n : Node) :
    classOwn f cls n = (headConstructor? f cls n).toList ++ (addedMembers f cls n ++ [cls]) := by
  simp only [classOwn, addedMembers, List.append_assoc]

/-- All members that are not written are functions. -/
theorem mark_addedMembers {f : SourceFile} {cls s : Symbol} {n : Node}
    (h : s ∈ addedMembers f cls n) : s.mark.1 = .function := by
  rcases List.mem_append.1 h with h | h
  · split at h
    · have hmark := List.mem_map_of_mem (f := Symbol.mark) h
      rw [mark_dataMembers] at hmark
      obtain ⟨i, -, hi⟩ := List.mem_map.1 hmark
      rw [← hi]
    · cases h
  · split at h
    · have hmark := List.mem_map_of_mem (f := Symbol.mark) h
      rw [mark_enumMembers] at hmark
      simp only [List.mem_cons, List.not_mem_nil, or_false] at hmark
      rcases hmark with hmark | hmark <;> rw [hmark]
    · cases h

/-- The slots tell them apart where a data class is no enum. -/
theorem nodup_addedMembers {f : SourceFile} {cls : Symbol} {n : Node}
    (h : cls.hasModifier "data" = true → cls.kind ≠ .enumClass) :
    ((addedMembers f cls n).map Symbol.mark).Nodup := by
  unfold addedMembers
  by_cases hdata : cls.hasModifier "data" = true
  · rw [if_pos hdata, if_neg (h hdata), List.append_nil, mark_dataMembers]
    refine List.nodup_range.map fun i j hij => ?_
    simpa using hij
  · rw [if_neg hdata, List.nil_append]
    split
    · rw [mark_enumMembers]
      decide
    · exact List.nodup_nil

theorem data_notEnum {f : SourceFile} {parent : Option Handle} {name : String} {n : Node}
    (h : ¬ ("data" ∈ modifiers n f.text ∧ "enum" ∈ modifiers n f.text))
    (hdata : (classSymbol f parent name n).hasModifier "data" = true) :
    (classSymbol f parent name n).kind ≠ .enumClass := by
  have hmem : "data" ∈ modifiers n f.text ++
      if n.kind = "companion_object" then ["companion"] else [] := List.contains_iff_mem.1 hdata
  have hdata : "data" ∈ modifiers n f.text := by
    rcases List.mem_append.1 hmem with hmem | hmem
    · exact hmem
    · split at hmem <;> simp at hmem
  have hkind : (classSymbol f parent name n).kind = classKind n f.text := rfl
  rw [hkind, classKind]
  intro henum
  refine h ⟨hdata, ?_⟩
  split at henum
  · cases henum
  · split at henum
    · cases henum
    · split at henum
      · next hmod => exact List.contains_iff_mem.1 hmod
      · split at henum <;> cases henum

/-- The constructor is the only one of its kind at the head, in the first slot. -/
theorem mark_headConstructor {f : SourceFile} {cls s : Symbol} {n : Node}
    (h : headConstructor? f cls n = some s) : s.mark = (.constructor, 0) := by
  unfold headConstructor? at h
  obtain ⟨-, h⟩ := Option.ite_none_right_eq_some.1 h
  cases h
  rfl

/-- **What a class introduces differs in kind or slot.** -/
theorem nodup_classOwn {f : SourceFile} {parent : Option Handle} {name : String} {n : Node}
    (h : ¬ ("data" ∈ modifiers n f.text ∧ "enum" ∈ modifiers n f.text)) :
    ((classOwn f (classSymbol f parent name n) n).map Symbol.mark).Nodup := by
  have hclass : (classSymbol f parent name n).mark.1.isClassifier = true :=
    (isClass_classSymbol f parent name n).1
  -- the constructor comes first, then the functions, and the class last
  have hrest : ((addedMembers f (classSymbol f parent name n) n
      ++ [classSymbol f parent name n]).map Symbol.mark).Nodup := by
    rw [List.map_append, List.nodup_append]
    refine ⟨nodup_addedMembers (data_notEnum h), List.nodup_singleton _, fun a ha b hb hab => ?_⟩
    obtain ⟨s, hs, rfl⟩ := List.mem_map.1 ha
    obtain rfl := List.mem_singleton.1 hb
    rw [← hab, mark_addedMembers hs] at hclass
    cases hclass
  rw [classOwn_eq]
  cases hconstructor : headConstructor? f (classSymbol f parent name n) n with
  | none => exact hrest
  | some s =>
      rw [Option.toList_some, List.singleton_append, List.map_cons]
      refine List.nodup_cons.2 ⟨fun hs => ?_, hrest⟩
      rw [mark_headConstructor hconstructor] at hs
      obtain ⟨t, ht, hmark⟩ := List.mem_map.1 hs
      rcases List.mem_append.1 ht with ht | ht
      · have hfunction := mark_addedMembers ht
        rw [hmark] at hfunction
        cases hfunction
      · obtain rfl := List.mem_singleton.1 ht
        rw [hmark] at hclass
        cases hclass

/-- The handle spans the class, or the constructor in its head. -/
theorem key_of_mem_classOwn {f : SourceFile} {parent : Option Handle} {name : String} {n : Node}
    {s : Symbol} (h : s ∈ classOwn f (classSymbol f parent name n) n) :
    s.handle.key = (handleOf f n .constructor).key ∨
      ∃ p, n.childOfKind? "primary_constructor" = some p ∧
        s.handle.key = (handleOf f p .constructor).key := by
  rw [classOwn_eq] at h
  rcases List.mem_append.1 h with h | h
  · have h := Option.mem_toList.1 h
    unfold headConstructor? at h
    obtain ⟨-, h⟩ := Option.ite_none_right_eq_some.1 h
    cases h
    cases hp : n.childOfKind? "primary_constructor" with
    | none => exact .inl rfl
    | some p => exact .inr ⟨p, rfl, rfl⟩
  · left
    rcases List.mem_append.1 h with h | h
    · rcases List.mem_append.1 h with h | h
      · split at h
        · rcases List.mem_append.1 h with h | h
          · obtain ⟨_, -, rfl⟩ := List.mem_map.1 h
            rfl
          · obtain rfl := List.mem_singleton.1 h
            rfl
        · cases h
      · split at h
        · simp only [enumMembers, List.mem_cons, List.not_mem_nil, or_false] at h
          rcases h with rfl | rfl <;> rfl
        · cases h
    · obtain rfl := List.mem_singleton.1 h
      rfl

/-! ### The parts of a class are separate -/

/-- The children of one kind, and those of children of another kind. -/
theorem separate_childrenOrInLists (n : Node) {kind listKind : String} (hne : kind ≠ listKind) :
    Separate (n.childrenOfKind kind ++
      (n.childrenOfKind listKind).flatMap (·.childrenOfKind kind)) := by
  have hbelow : ∀ list ∈ n.childrenOfKind listKind, ∀ m ∈ list.childrenOfKind kind, Below list m :=
    fun _ _ _ hm => .of_mem_children (mem_childrenOfKind_iff.1 hm).1
  have hlists := (separate_childrenOfKind n listKind).flatMap
    (fun list _ => separate_childrenOfKind list kind) hbelow
  refine (separate_childrenOfKind n kind).append hlists fun a ha b hb m ham hbm => ?_
  obtain ⟨list, hl, hb⟩ := List.mem_flatMap.1 hb
  obtain ⟨ha, hak⟩ := mem_childrenOfKind_iff.1 ha
  obtain ⟨hlc, hlk⟩ := mem_childrenOfKind_iff.1 hl
  have heq := (separate_children n).eq_of_below ha hlc ham ((hbelow list hl b hb).trans hbm)
  exact hne (by rw [← hak, ← hlk, heq])

/-- The supertypes that a class names lie apart from one another. -/
theorem separate_delegationSpecifiers (n : Node) : Separate (delegationSpecifiers n) :=
  separate_childrenOrInLists n (by decide)

/-- So do the parameters in its head. -/
theorem separate_classParameters (n : Node) : Separate (classParameters n) := by
  unfold classParameters
  split
  · exact separate_childrenOrInLists _ (by decide)
  · split
    · exact separate_childrenOfKind _ _
    · exact List.Pairwise.nil

/-- The parts of a class that its members are read from. -/
def memberParts : List String :=
  ["class_body", "enum_class_body", "delegation_specifiers", "delegation_specifier"]

/-- The parameters are in the head of the class, however they are listed there. -/
theorem inPart_of_mem_classParameters {n p : Node} (h : p ∈ classParameters n) :
    InPart parameterWay n p := by
  unfold classParameters at h
  split at h
  · next primary hp =>
    obtain ⟨hc, hk⟩ := mem_of_childOfKind? hp
    refine ⟨primary, hc, by rw [hk]; decide, ?_⟩
    rcases List.mem_append.1 h with h | h
    · exact .of_mem_children (mem_childrenOfKind_iff.1 h).1
    · obtain ⟨list, hl, h⟩ := List.mem_flatMap.1 h
      exact (Below.of_mem_children (mem_childrenOfKind_iff.1 hl).1).child
        (mem_childrenOfKind_iff.1 h).1
  · split at h
    · next list hl =>
      obtain ⟨hc, hk⟩ := mem_of_childOfKind? hl
      exact ⟨list, hc, by rw [hk]; decide, .of_mem_children (mem_childrenOfKind_iff.1 h).1⟩
    · cases h

/-- The supertypes that a class names are in a part that members are read from. -/
theorem inPart_of_mem_delegationSpecifiers {n d : Node} (h : d ∈ delegationSpecifiers n) :
    InPart memberParts n d := by
  rcases List.mem_append.1 h with h | h
  · obtain ⟨hc, hk⟩ := mem_childrenOfKind_iff.1 h
    exact ⟨d, hc, by rw [hk]; decide, .refl⟩
  · obtain ⟨list, hl, h⟩ := List.mem_flatMap.1 h
    obtain ⟨hc, hk⟩ := mem_childrenOfKind_iff.1 hl
    exact ⟨list, hc, by rw [hk]; decide, .of_mem_children (mem_childrenOfKind_iff.1 h).1⟩

theorem inPart_of_classBody? {n body : Node} (h : classBody? n = some body) :
    InPart memberParts n body := by
  obtain ⟨hc, hk⟩ := kind_of_classBody? h
  refine ⟨body, hc, ?_, .refl⟩
  rcases hk with hk | hk <;> rw [hk] <;> decide

/-! ### Declarations that introduce one symbol -/

section Leaf

variable {f : SourceFile} {n : Node} {s : Symbol}

theorem handle_functionSymbol? {parent : Option Handle} (h : functionSymbol? f parent n = some s) :
    s.handle = handleOf f n .function := by
  obtain ⟨_, -, rfl⟩ := Option.map_eq_some_iff.1 h
  rfl

theorem handle_propertySymbol? {parent : Option Handle} (h : propertySymbol? f parent n = some s) :
    s.handle = handleOf f n .property := by
  obtain ⟨_, -, h⟩ := Option.bind_eq_some_iff.1 h
  obtain ⟨_, -, h⟩ := Option.bind_eq_some_iff.1 h
  cases h
  rfl

theorem handle_aliasSymbol? (h : aliasSymbol? f n = some s) :
    s.handle = handleOf f n .typeAlias := by
  obtain ⟨_, -, rfl⟩ := Option.map_eq_some_iff.1 h
  rfl

theorem handle_enumEntrySymbol? {cls : Handle} {name : String}
    (h : enumEntrySymbol? f cls name n = some s) : s.handle = handleOf f n .enumEntry := by
  obtain ⟨_, -, rfl⟩ := Option.map_eq_some_iff.1 h
  rfl

end Leaf

/-! ### The walk over a file -/

section Walk

variable {f : SourceFile} (hl : f.language = .kotlin)
include hl

theorem isDeclaration_of_kind {n : Node} (hk : n.kind ∈ declarationKinds)
    (hne : n.kind ≠ "class_parameter") : f.IsDeclaration n := by
  rw [IsDeclaration, hl]
  simp [isCaretDeclaration, hk, hne]

/-- A handle made for a node has the key of the node. -/
theorem keyOf_eq (n : Node) (kind : Symbol.Kind) : f.keyOf n = (handleOf f n kind).key := by
  rw [keyOf, hl]
  rfl

/-- What a class introduces has the key of the class, or of the constructor in its head. -/
theorem keyed_classOwn (parent : Option Handle) (name : String) {n : Node} (hn : Within f.tree n)
    (hk : n.kind ∈ classKinds)
    (hmods : ¬ ("data" ∈ modifiers n f.text ∧ "enum" ∈ modifiers n f.text)) :
    Keyed f (fun m => m = n ∨ InPart ["primary_constructor"] n m ∧ m.kind = "primary_constructor")
      (classOwn f (classSymbol f parent name n) n) := by
  constructor
  · refine List.Nodup.of_map (fun h : Handle => (h.kind, h.slot)) ?_
    rw [List.map_map]
    exact nodup_classOwn hmods
  · intro s hs
    rcases key_of_mem_classOwn hs with hkey | ⟨p, hp, hkey⟩
    · refine ⟨n, hn, isDeclaration_of_kind hl ?_ (kind_of_mem_classKinds hk).2, .inl rfl, ?_⟩
      · exact (show classKinds ⊆ declarationKinds by decide) hk
      · rw [hkey, keyOf_eq hl]
    · obtain ⟨hc, hpk⟩ := mem_of_childOfKind? hp
      refine ⟨p, hn.child hc, isDeclaration_of_kind hl ?_ ?_, .inr ⟨⟨p, hc, ?_, .refl⟩, hpk⟩, ?_⟩
      · rw [hpk]; decide
      · rw [hpk]; decide
      · rw [hpk]; decide
      · rw [hkey, keyOf_eq hl]

/-- The properties in the head of a class have the keys of its parameters. -/
theorem keyed_parameters (hkeys : f.KeysDiffer) (cls : Handle) {n : Node} (hn : Within f.tree n) :
    Keyed f (· ∈ classParameters n)
      ((classParameters n).filterMap (boundParameterSymbol? f cls)) := by
  refine .filterMap hkeys (separate_classParameters n) fun p hp => ?_
  obtain ⟨hb, hk⟩ := below_of_mem_classParameters hp
  cases hs : boundParameterSymbol? f cls p with
  | none => exact .nil
  | some s =>
      obtain ⟨binding, hbinding, h⟩ := Option.bind_eq_some_iff.1 hs
      obtain ⟨name, -, h⟩ := Option.bind_eq_some_iff.1 h
      cases h
      refine .toList (hb.within hn) ?_ fun s hs => ?_
      · rw [IsDeclaration, hl]
        simp [isCaretDeclaration, hk, hbinding]
      · cases hs
        rw [keyOf_eq hl]
        rfl

/-- The symbols of a class and of its members. -/
theorem keyed_class (hkeys : f.KeysDiffer) {parent : Option Handle} {name : String} {n : Node}
    (hn : Within f.tree n) (hk : n.kind ∈ classKinds)
    (hmods : ¬ ("data" ∈ modifiers n f.text ∧ "enum" ∈ modifiers n f.text)) {members : List Symbol}
    (hmembers : Keyed f (InPart memberParts n) members) :
    Keyed f (Below n) (headSymbols f (classSymbol f parent name n) n ++ members) := by
  -- a parameter is of another kind than the class and its constructor
  have hparameters : ∀ m, m ∈ classParameters n →
      ¬ (m = n ∨ InPart ["primary_constructor"] n m ∧ m.kind = "primary_constructor") := by
    rintro m hm (rfl | ⟨-, hmk⟩)
    · exact (kind_of_mem_classKinds hk).2 (below_of_mem_classParameters hm).2
    · rw [(below_of_mem_classParameters hm).2] at hmk
      exact absurd hmk (by decide)
  -- and all of them are apart from the parts where members stand
  have hparts : ∀ m, (m ∈ classParameters n ∨
      (m = n ∨ InPart ["primary_constructor"] n m ∧ m.kind = "primary_constructor")) →
      ¬ InPart memberParts n m := by
    have hway : ∀ k ∈ parameterWay, k ∉ memberParts := by decide
    have hprimary : ∀ k ∈ ["primary_constructor"], k ∉ memberParts := by decide
    rintro m (hm | rfl | ⟨hm, -⟩) hmember
    · obtain ⟨k, hk₁, hk₂⟩ := (inPart_of_mem_classParameters hm).disjoint hmember
      exact hway k hk₁ hk₂
    · exact hmember.ne rfl
    · obtain ⟨k, hk₁, hk₂⟩ := hm.disjoint hmember
      exact hprimary k hk₁ hk₂
  rw [headSymbols_eq]
  have hhead := (keyed_parameters hl hkeys (classSymbol f parent name n).handle hn).append hkeys
    (keyed_classOwn hl parent name hn hk hmods) hparameters
  refine (hhead.append hkeys hmembers hparts).mono ?_
  rintro m ((hm | rfl | ⟨hm, -⟩) | hm)
  · exact (below_of_mem_classParameters hm).1
  · exact .refl
  · exact hm.below
  · exact hm.below

/-- A declaration that introduces one symbol, spanned by its handle. -/
theorem keyed_leaf {c : Node} {o : Option Symbol} (hc : Within f.tree c) (kind : Symbol.Kind)
    (hk : c.kind ∈ declarationKinds ∧ c.kind ≠ "class_parameter")
    (h : ∀ s, o = some s → s.handle = handleOf f c kind) : Keyed f (Below c) o.toList := by
  refine (Keyed.toList hc (isDeclaration_of_kind hl hk.1 hk.2) fun s hs => ?_).mono fun m hm => ?_
  · rw [h s hs, keyOf_eq hl]
  · exact hm ▸ .refl

end Walk

mutual

/-- Everything that a class introduces, and everything in its body.  A class without a body takes as
its members what the parser has put below the supertypes. -/
theorem keyed_classSymbols {f : SourceFile} (hl : f.language = .kotlin) (hkeys : f.KeysDiffer)
    (hmods : NoDataEnum f) : ∀ {fuel : Nat} {parent : Option Handle} {n : Node},
    Within f.tree n → n.kind ∈ classKinds → Keyed f (Below n) (classSymbols f fuel parent n)
  | 0, _, _, _, _ => .nil
  | fuel + 1, parent, n, hn, hk => by
      unfold classSymbols
      split
      · exact .nil
      · next name hname =>
        refine keyed_class hl hkeys hn hk (hmods n hn hk) ?_
        split
        · next body hbody =>
          have hpart := inPart_of_classBody? hbody
          exact (keyed_memberSymbols hl hkeys hmods (hpart.below.within hn)).mono fun m hm =>
            hpart.trans_below hm
        · have hbelow : ∀ d m, Below d m → Below d m := fun _ _ h => h
          have hpart {d : Node} (hd : d ∈ delegationSpecifiers n) : InPart memberParts n d :=
            inPart_of_mem_delegationSpecifiers hd
          refine (Keyed.flatMap hkeys (separate_delegationSpecifiers n) hbelow fun d hd =>
            keyed_misplacedSymbols hl hkeys hmods ((hpart hd).below.within hn)).mono ?_
          rintro m ⟨d, hd, hm⟩
          exact (hpart hd).trans_below hm

/-- The members in a body, each read from a child of it. -/
theorem keyed_memberSymbols {f : SourceFile} (hl : f.language = .kotlin) (hkeys : f.KeysDiffer)
    (hmods : NoDataEnum f) : ∀ {fuel : Nat} {cls : Handle} {name : String} {body : Node},
    Within f.tree body → Keyed f (Below body) (memberSymbols f fuel cls name body)
  | 0, _, _, _, _ => .nil
  | fuel + 1, cls, name, body, hbody => by
      rw [memberSymbols]
      refine .flatMap_children hkeys fun c hc => ?_
      have hc := hbody.child hc
      split
      · next hk => exact keyed_classSymbols hl hkeys hmods hc (by simp [classKinds, hk])
      · next hk => exact keyed_classSymbols hl hkeys hmods hc (by simp [classKinds, hk])
      · next hk => exact keyed_classSymbols hl hkeys hmods hc (by simp [classKinds, hk])
      · next hk =>
        exact keyed_leaf hl hc .function (by rw [hk]; decide) fun s hs => handle_functionSymbol? hs
      · next hk =>
        exact keyed_leaf hl hc .property (by rw [hk]; decide) fun s hs => handle_propertySymbol? hs
      · next hk =>
        have hown : Keyed f (Below c) (some (secondaryConstructorSymbol f cls name c)).toList :=
          keyed_leaf hl hc .constructor (by rw [hk]; decide) fun s hs => by cases hs; rfl
        exact hown
      · next hk =>
        exact keyed_leaf hl hc .enumEntry (by rw [hk]; decide) fun s hs =>
          handle_enumEntrySymbol? hs
      · exact .nil

/-- The members below a supertype. -/
theorem keyed_misplacedSymbols {f : SourceFile} (hl : f.language = .kotlin) (hkeys : f.KeysDiffer)
    (hmods : NoDataEnum f) : ∀ {fuel : Nat} {cls : Handle} {name : String} {n : Node},
    Within f.tree n → Keyed f (Below n) (misplacedSymbols f fuel cls name n)
  | 0, _, _, _, _ => .nil
  | fuel + 1, cls, name, n, hn => by
      rw [misplacedSymbols]
      refine .flatMap_children hkeys fun c hc => ?_
      split
      · split
        · next body hbody =>
          have hbelow : Below c body := .of_mem_children (mem_of_childOfKind? hbody).1
          exact (keyed_memberSymbols hl hkeys hmods (hbelow.within (hn.child hc))).mono fun _ hm =>
            hbelow.trans hm
        · exact .nil
      · split
        · exact keyed_misplacedSymbols hl hkeys hmods (hn.child hc)
        · exact .nil

end

/-- The declarations at the top of a file; what is no declaration is entered. -/
theorem keyed_topLevelSymbols {f : SourceFile} (hl : f.language = .kotlin) (hkeys : f.KeysDiffer)
    (hmods : NoDataEnum f) : ∀ {fuel : Nat} {n : Node},
    Within f.tree n → Keyed f (Below n) (topLevelSymbols f fuel n)
  | 0, _, _ => .nil
  | fuel + 1, n, hn => by
      rw [topLevelSymbols]
      refine .flatMap_children hkeys fun c hc => ?_
      have hc := hn.child hc
      split
      · next hk => exact keyed_classSymbols hl hkeys hmods hc (by simp [classKinds, hk])
      · next hk => exact keyed_classSymbols hl hkeys hmods hc (by simp [classKinds, hk])
      · next hk =>
        exact keyed_leaf hl hc .function (by rw [hk]; decide) fun s hs => handle_functionSymbol? hs
      · next hk =>
        exact keyed_leaf hl hc .property (by rw [hk]; decide) fun s hs => handle_propertySymbol? hs
      · next hk =>
        exact keyed_leaf hl hc .typeAlias (by rw [hk]; decide) fun s hs => handle_aliasSymbol? hs
      · exact .nil
      · exact .nil
      · exact .nil
      · exact keyed_topLevelSymbols hl hkeys hmods hc

/-- **The handles of a file's symbols are different**, and each has the key of a declaration. -/
theorem keyed_symbols {f : SourceFile} (hl : f.language = .kotlin) (hkeys : f.KeysDiffer)
    (hmods : NoDataEnum f) : Keyed f (fun _ => True) (symbols f) :=
  (keyed_topLevelSymbols hl hkeys hmods .top).mono fun _ _ => trivial

end Crossref.Kotlin
