import Crossref.Proofs.Java.Members
import Crossref.Proofs.SourceFile.Handles

/-!
# Proofs — Java — handles of symbols

A class shares its span with the constructor that it has without writing one, and their kinds tell
them apart; the fields of one declaration share a node and are numbered.  All other symbols have the
span of a node of their own, a constant or a member of the body, and none of these nodes lies below
another one or twice in the body.

* `nodup_fieldSymbols`: the fields of one declaration differ in their slots.
* `keyed_symbols`: the handles of a file's symbols are different.
-/

namespace Crossref.Java
open Node SourceFile

/-! ### What a declaration introduces -/

/-- **The fields of one declaration differ in their slots.** -/
theorem nodup_fieldSymbols (f : SourceFile) (cls : Symbol) (n : Node) :
    ((fieldSymbols f cls n).map Symbol.mark).Nodup := by
  have hslots : (n.childrenOfKind "variable_declarator").zipIdx.Pairwise fun a b => a.2 ≠ b.2 := by
    refine List.pairwise_map.1 (?_ : (List.map Prod.snd _).Nodup)
    rw [List.zipIdx_map_snd]
    exact List.nodup_range'
  refine List.pairwise_map.2 (List.pairwise_filterMap.2 (hslots.imp ?_))
  intro a b hab s hs t ht
  obtain ⟨_, -, rfl⟩ := Option.map_eq_some_iff.1 hs
  obtain ⟨_, -, rfl⟩ := Option.map_eq_some_iff.1 ht
  intro h
  have hmark : (Symbol.Kind.property, a.2) = (.property, b.2) := h
  exact hab (Prod.mk.inj hmark).2

/-- A class and its constructor differ in kind. -/
theorem nodup_classOwn (f : SourceFile) (parent : Option Handle) (name : String) (n : Node) :
    ((classOwn f (classSymbol f parent name n) n).map Symbol.mark).Nodup := by
  unfold classOwn
  cases h : implicitConstructor? f (classSymbol f parent name n) (membersOf n) n with
  | none => exact List.nodup_singleton _
  | some s =>
      unfold implicitConstructor? at h
      obtain ⟨-, h⟩ := Option.ite_none_right_eq_some.1 h
      cases h
      refine List.nodup_cons.2 ⟨fun hmem => ?_, List.nodup_singleton _⟩
      have hclass : (classSymbol f parent name n).mark.1.isClassifier = true :=
        isClassifier_classSymbol f parent name n
      rw [← List.mem_singleton.1 hmem] at hclass
      cases hclass

/-! ### The members of a class are separate -/

/-- The members of a body stand one after the other. -/
theorem separate_memberNodes (body : Node) : Separate (memberNodes body) := by
  refine (separate_children body).flatMap (fun c _ => ?_) fun c _ m hm => ?_
  · split
    · exact separate_children c
    · exact .singleton c
  · split at hm
    · exact .of_mem_children hm
    · obtain rfl := List.mem_singleton.1 hm
      exact .refl

theorem separate_membersOf (n : Node) : Separate (membersOf n) := by
  unfold membersOf
  cases n.childInField? "body" with
  | none => exact List.Pairwise.nil
  | some body => exact separate_memberNodes body

theorem separate_constantsOf (n : Node) : Separate (constantsOf n) := by
  unfold constantsOf
  cases n.childInField? "body" with
  | none => exact List.Pairwise.nil
  | some body => exact (separate_children body).sublist List.filter_sublist

/-- The constants stand among the members. -/
theorem mem_membersOf_of_mem_constantsOf {n c : Node} (h : c ∈ constantsOf n) :
    c ∈ membersOf n := by
  unfold constantsOf at h
  unfold membersOf
  cases hb : n.childInField? "body" with
  | none => simp [hb] at h
  | some body =>
      rw [hb] at h
      obtain ⟨hc, hk⟩ := mem_childrenOfKind_iff.1 h
      refine List.mem_flatMap.2 ⟨c, hc, ?_⟩
      rw [if_neg (by rw [hk]; decide)]
      exact List.mem_singleton_self c

/-- What lies below a part of a class is not the class. -/
theorem PartOf.ne {n m x : Node} (h : PartOf n m) (hx : Below m x) : x ≠ n := by
  rintro rfl
  obtain ⟨_, -, hthrough⟩ := h.through
  obtain ⟨c, hc, hcm⟩ := hthrough.exists_child
  have habove := mem_ancestors_of_below hc (hcm.trans hx)
  exact Nat.lt_irrefl _ (length_trail_lt_of_mem_ancestors habove)

/-! ### The walk over a file -/

section Walk

variable {f : SourceFile} (hl : f.language = .java)
include hl

theorem isDeclaration_of_kind {n : Node} (hk : n.kind ∈ declarationKinds) : f.IsDeclaration n := by
  rwa [IsDeclaration, hl]

/-- A symbol of the file that has the span of a node has its key. -/
theorem key_eq (n : Node) {s : Symbol} (h : s.handle.key = ⟨f.id, n.start, n.stop⟩) :
    s.handle.key = f.keyOf n := by
  rw [h, keyOf, hl]
  rfl

theorem keyed_classOwn (parent : Option Handle) (name : String) {n : Node} (hn : Within f.tree n)
    (hk : n.kind ∈ classKinds) : Keyed f (· = n) (classOwn f (classSymbol f parent name n) n) := by
  have hkind : n.kind ∈ declarationKinds := (show classKinds ⊆ declarationKinds by decide) hk
  refine .of_node hn (isDeclaration_of_kind hl hkind) (fun s hs => key_eq hl n ?_)
    (nodup_classOwn f parent name n)
  rcases List.mem_append.1 hs with hs | hs
  · have hs := Option.mem_toList.1 hs
    unfold implicitConstructor? at hs
    obtain ⟨-, hs⟩ := Option.ite_none_right_eq_some.1 hs
    cases hs
    rfl
  · obtain rfl := List.mem_singleton.1 hs
    rfl

/-- The constants of an enumeration have different handles, each with the key of its own node. -/
theorem keyed_constants (hkeys : f.KeysDiffer) (cls : Symbol) {n : Node} (hn : Within f.tree n) :
    Keyed f (· ∈ constantsOf n) ((constantsOf n).filterMap (enumConstantSymbol? f cls)) := by
  refine .filterMap hkeys (separate_constantsOf n) fun c hc => ?_
  have hkind : c.kind ∈ declarationKinds := by rw [kind_of_mem_constantsOf hc]; decide
  have hwithin : Within f.tree c := (below_of_mem_enumConstants hc).1.within hn
  refine .toList hwithin (isDeclaration_of_kind hl hkind) fun s hs => key_eq hl c ?_
  obtain ⟨_, -, rfl⟩ := Option.map_eq_some_iff.1 hs
  rfl

theorem keyed_leafSymbols {cls : Symbol} {m : Node} (hm : Within f.tree m) :
    Keyed f (fun x => x = m ∧ m.kind ≠ "enum_constant") (leafSymbols f cls m) := by
  by_cases hnil : leafSymbols f cls m = []
  · rw [hnil]
    exact .nil
  · obtain ⟨s, hs⟩ := List.exists_mem_of_ne_nil _ hnil
    obtain ⟨hkind, hne⟩ := mem_memberKinds_of_mem_leafSymbols hs
    have hd : f.IsDeclaration m := isDeclaration_of_kind hl (List.mem_cons_of_mem _ hkind)
    refine Keyed.mono (?_ : Keyed f (· = m) (leafSymbols f cls m)) fun x hx => ⟨hx, hne⟩
    unfold leafSymbols
    split
    · refine .toList hm hd fun s hs => key_eq hl m ?_
      obtain ⟨_, -, rfl⟩ := Option.map_eq_some_iff.1 hs
      rfl
    · split
      · refine .of_node hm hd (fun s hs => key_eq hl m ?_) (List.nodup_singleton _)
        obtain rfl := List.mem_singleton.1 hs
        rfl
      · split
        · refine .of_node hm hd (fun s hs => key_eq hl m ?_) (nodup_fieldSymbols f cls m)
          obtain ⟨_, -, hs⟩ := List.mem_filterMap.1 hs
          obtain ⟨_, -, rfl⟩ := Option.map_eq_some_iff.1 hs
          rfl
        · exact .nil

/-- What a class introduces, its constants and the symbols of its members. -/
theorem keyed_class (hkeys : f.KeysDiffer) (parent : Option Handle) (name : String) {n : Node}
    (hn : Within f.tree n) (hk : n.kind ∈ classKinds) {g : Node → List Symbol}
    (hmembers : ∀ m ∈ membersOf n,
      Keyed f (fun x => Below m x ∧ m.kind ≠ "enum_constant") (g m)) :
    Keyed f (Below n) (classOwn f (classSymbol f parent name n) n
      ++ (constantsOf n).filterMap (enumConstantSymbol? f (classSymbol f parent name n))
      ++ (membersOf n).flatMap g) := by
  have hpart : ∀ m ∈ membersOf n, ∀ x, Below m x → x ≠ n ∧ Below n x := fun m hm x hx =>
    ⟨(PartOf.member hm).ne hx, (PartOf.member hm).below.trans hx⟩
  have hconstant : ∀ c ∈ constantsOf n, c ≠ n ∧ Below n c := fun c hc =>
    hpart c (mem_membersOf_of_mem_constantsOf hc) c .refl
  have hhead := (keyed_classOwn hl parent name hn hk).append hkeys
    (keyed_constants hl hkeys (classSymbol f parent name n) hn)
    fun c hc hmem => (hconstant c hmem).1 hc
  have hrest := Keyed.flatMap hkeys (separate_membersOf n) (fun _ _ h => h.1) hmembers
  refine (hhead.append hkeys hrest ?_).mono ?_
  · rintro x (rfl | hx) ⟨m, hm, hmx, hne⟩
    · exact (hpart m hm x hmx).1 rfl
    · -- a constant stands among the members itself, and lies below no other one
      have hmem := mem_membersOf_of_mem_constantsOf hx
      obtain rfl := (separate_membersOf n).eq_of_below hm hmem hmx .refl
      exact hne (kind_of_mem_constantsOf hx)
  · rintro x ((rfl | hx) | ⟨m, hm, hmx, -⟩)
    · exact .refl
    · exact (hconstant x hx).2
    · exact (hpart m hm x hmx).2

end Walk

/-- What a class declares has different handles, each with the key of a declaration at or below
it. -/
theorem keyed_classSymbols {f : SourceFile} (hl : f.language = .java) (hkeys : f.KeysDiffer) :
    ∀ {fuel : Nat} {parent : Option Handle} {n : Node}, Within f.tree n → n.kind ∈ classKinds →
      Keyed f (Below n) (classSymbols f fuel parent n)
  | 0, _, _, _, _ => .nil
  | fuel + 1, parent, n, hn, hk => by
      cases hname : declarationName? n f.text with
      | none =>
          rw [classSymbols, hname]
          exact .nil
      | some name =>
          rw [classSymbols_succ hname]
          refine keyed_class hl hkeys parent name hn hk fun m hm => ?_
          have hm := (PartOf.member hm).below.within hn
          split
          · next hmk =>
            have hmk := List.contains_iff_mem.1 hmk
            refine (keyed_classSymbols hl hkeys hm hmk).mono fun x hx => ⟨hx, fun hne => ?_⟩
            rw [hne] at hmk
            revert hmk
            decide
          · exact (keyed_leafSymbols hl hm).mono fun x hx => ⟨hx.1 ▸ .refl, hx.2⟩

/-- **The handles of a file's symbols are different**, and each has the key of a declaration. -/
theorem keyed_symbols {f : SourceFile} (hl : f.language = .java) (hkeys : f.KeysDiffer) :
    Keyed f (fun _ => True) (symbols f) := by
  have hseparate : Separate (f.top.children.filter fun c => classKinds.contains c.kind) :=
    (separate_children f.top).sublist List.filter_sublist
  refine (Keyed.flatMap hkeys hseparate (fun _ _ h => h) fun c hc => ?_).mono fun _ _ => trivial
  obtain ⟨hc, hk⟩ := List.mem_filter.1 hc
  exact keyed_classSymbols hl hkeys (.child .top hc) (List.contains_iff_mem.1 hk)

end Crossref.Java
