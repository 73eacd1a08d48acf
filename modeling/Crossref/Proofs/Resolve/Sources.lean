import Crossref.Proofs.Index.Reachable
import Crossref.Proofs.Resolve.Local
import Crossref.Resolve.ExprType

/-!
# Proofs — resolution — where the symbols of an answer come from

Whatever a name, a member access or a call leads to is an indexed symbol of the wanted sort, or a
local binding of a name in the file that is asked about.  Questions nest: what a level answers is
found with the levels below it, so the statement is one about levels, kept when a level is put over
others and so true of the whole stack.  Types of expressions have no part in it: they say where to
look for members, and members are indexed wherever they are looked for.

* `memberNamed_of_mem_membersNamed`, `offered_of_mem_membersNamed`: what is found in a classifier
  are members with the name, indexed and of the wanted sort.
* `sourced_levels`: every level of the stack answers with indexed symbols and local bindings, and
  with classifiers where a type is asked for.
-/

namespace Crossref.Resolve
open Node

/-- The symbol is indexed, or a name of the file is bound to it locally. -/
def Sourced (index : Index) (f : SourceFile) (s : Symbol) : Prop :=
  s ∈ index.symbols ∨ ∃ name n, Within f.tree n ∧ s ∈ localBindings f name n

/-- The symbol is indexed and of the wanted sort. -/
def Offered (index : Index) (want : Want) (s : Symbol) : Prop :=
  s ∈ index.symbols ∧ want.accepts s = true

/-- The answers of a level are indexed symbols, or, where a name need not be one of a type, local
bindings; types are classifiers. -/
structure Level.Sourced (index : Index) (l : Level) : Prop where
  lookup : ∀ {f : SourceFile} {name : String} {n : Node} {want : Want} {s : Symbol},
    Within f.tree n → s ∈ l.lookup f name n want → Resolve.Sourced index f s
  lookupType : ∀ {f : SourceFile} {name : String} {n : Node} {s : Symbol},
    s ∈ l.lookup f name n .type → Offered index .type s
  classifierNamed : ∀ {f : SourceFile} {n : Node} {text : String} {throughAlias : Bool}
    {c : Symbol}, l.classifierNamed f n text throughAlias = some c → Offered index .type c

/-- The answers of every level are indexed symbols or local bindings. -/
def Levels.Sourced (index : Index) (ls : Levels) : Prop := ∀ l ∈ ls, Level.Sourced index l

/-- Levels that are used up answer nothing. -/
theorem Level.sourced_exhausted (index : Index) : Level.Sourced index .exhausted where
  lookup _ h := by cases h
  lookupType h := by cases h
  classifierNamed h := by cases h

theorem Levels.Sourced.top {index : Index} {ls : Levels} (h : Levels.Sourced index ls) :
    Level.Sourced index ls.top := by
  cases ls with
  | nil => exact Level.sourced_exhausted index
  | cons l ls => exact h l List.mem_cons_self

theorem Levels.Sourced.below {index : Index} {ls : Levels} (h : Levels.Sourced index ls) :
    Levels.Sourced index ls.below :=
  fun l hl => h l (List.mem_of_mem_tail hl)

/-- What is found first is found by one of the searches. -/
theorem mem_of_mem_firstFound {α : Type} {a : α} :
    ∀ {answers : List (Unit → List α)}, a ∈ firstFound answers → ∃ answer ∈ answers, a ∈ answer ()
  | [], h => by cases h
  | answer :: answers, h => by
      rw [firstFound] at h
      split at h
      · obtain ⟨b, hb, ha⟩ := mem_of_mem_firstFound h
        exact ⟨b, List.mem_cons_of_mem _ hb, ha⟩
      · exact ⟨answer, List.mem_cons_self, h⟩

theorem mem_of_mem_unambiguous {symbols : List Symbol} {s : Symbol} (h : s ∈ unambiguous symbols) :
    s ∈ symbols := by
  unfold unambiguous at h
  split at h
  · exact h
  · cases h

/-! ### Members -/

section Members

variable {index : Index} {ls : Levels} {c s : Symbol} {name : String} {want : Want}

/-- The symbol is a direct member of some classifier, with the name and of the wanted sort. -/
def MemberNamed (index : Index) (name : String) (want : Want) (s : Symbol) : Prop :=
  (∃ owner, s ∈ index.membersOf owner) ∧ s.name = name ∧ want.accepts s = true

theorem memberNamed_of_fits {owner : Handle} (hs : s ∈ index.membersOf owner)
    (hfits : (s.name == name && want.accepts s) = true) : MemberNamed index name want s := by
  obtain ⟨hname, haccepts⟩ := Bool.and_eq_true_iff.1 hfits
  exact ⟨⟨owner, hs⟩, beq_iff_eq.1 hname, haccepts⟩

theorem memberNamed_of_mem_directMembersNamed (h : s ∈ directMembersNamed index c name want) :
    MemberNamed index name want s := by
  obtain ⟨m, hm, h⟩ := List.mem_flatMap.1 h
  rcases List.mem_append.1 h with h | h
  · split at h
    · next hfits =>
      obtain rfl := List.mem_singleton.1 h
      exact memberNamed_of_fits hm hfits
    · cases h
  · split at h
    · obtain ⟨hs, hfits⟩ := List.mem_filter.1 h
      exact memberNamed_of_fits hs hfits
    · cases h

/-- Looking at a classifier finds members of the wanted sort. -/
theorem memberNamed_of_mem_found_visit {r : Round}
    (hr : ∀ s ∈ r.found, MemberNamed index name want s) :
    ∀ s ∈ (r.visit index ls name want c).found, MemberNamed index name want s := by
  intro s hs
  unfold Round.visit at hs
  split at hs
  · exact hr s hs
  · split at hs
    · exact hr s hs
    · rcases List.mem_append.1 hs with hs | hs
      · exact hr s hs
      · exact memberNamed_of_mem_directMembersNamed hs

/-- A round finds nothing but members with the name. -/
theorem memberNamed_of_mem_found_foldl :
    ∀ {cs : List Symbol} {r : Round}, (∀ s ∈ r.found, MemberNamed index name want s) →
      ∀ s ∈ (cs.foldl (Round.visit index ls name want) r).found, MemberNamed index name want s
  | [], _, hr, s, hs => hr s hs
  | _ :: _, _, hr, s, hs =>
      memberNamed_of_mem_found_foldl (memberNamed_of_mem_found_visit hr) s hs

/-- Induction over the levels that the rounds of the search are spent on. -/
theorem memberNamed_of_mem_membersFrom :
    ∀ {ls : Levels} {seen : List Handle} {cs : List Symbol},
      s ∈ membersFrom index name want ls seen cs → MemberNamed index name want s
  | [], _, _, h => by cases h
  | _ :: _, _, [], h => by cases h
  | l :: ls, seen, c :: cs, h => by
      rw [membersFrom] at h
      split at h
      · -- nothing was found in this round
        exact memberNamed_of_mem_membersFrom h
      · exact memberNamed_of_mem_found_foldl (by simp) s h

/-- **What is found in a classifier are members with the name**, whatever the levels are. -/
theorem memberNamed_of_mem_membersNamed (h : s ∈ membersNamed index ls c name want) :
    MemberNamed index name want s :=
  memberNamed_of_mem_membersFrom h

end Members

section Index

variable {index : Index} (hi : index.Consistent)
include hi

/-- A qualified name leads to indexed declarations of the wanted sort. -/
theorem offered_of_mem_qualified {name : String} {want : Want} {s : Symbol}
    (h : s ∈ qualified index name want) : Offered index want s :=
  (List.mem_filter.1 h).imp_left hi.mem_of_findByQualifiedName

/-- **Members are indexed and of the wanted sort**, whatever classifier they are looked for in. -/
theorem offered_of_mem_membersNamed {ls : Levels} {c : Symbol} {name : String} {want : Want}
    {s : Symbol} (h : s ∈ membersNamed index ls c name want) : Offered index want s := by
  obtain ⟨⟨owner, hs⟩, -, haccepts⟩ := memberNamed_of_mem_membersNamed h
  exact ⟨hi.mem_of_membersOf hs, haccepts⟩

/-- Constructors are indexed. -/
theorem mem_of_mem_constructorsOf {ls : Levels} {c s : Symbol}
    (h : s ∈ constructorsOf index ls c) : s ∈ index.symbols := by
  unfold constructorsOf at h
  split at h
  · exact hi.mem_of_membersOf (List.mem_filter.1 h).1
  · cases h

/-! ### Names -/

/-- What a name denotes is indexed and of the wanted sort, or bound locally where the name need not
be one of a type. -/
theorem offered_of_mem_lookupName {ls : Levels} {f : SourceFile} {name : String} {n : Node}
    {want : Want} {s : Symbol} (h : s ∈ lookupName index ls f name n want) :
    Offered index want s ∨ (want ≠ .type ∧ s ∈ localBindings f name n) := by
  unfold lookupName at h
  split at h
  · cases h
  · obtain ⟨tier, htier, hs⟩ := mem_of_mem_firstFound h
    simp only [tiers, List.mem_cons, List.not_mem_nil, or_false] at htier
    rcases htier with rfl | rfl | rfl | rfl | rfl | rfl | rfl
    · dsimp only at hs
      split at hs
      · cases hs
      · next hw => exact .inr ⟨hw, hs⟩
    · left -- a member of an implicit receiver
      obtain ⟨members, hmembers, hs⟩ := mem_of_mem_firstFound hs
      obtain ⟨c, -, rfl⟩ := List.mem_map.1 hmembers
      exact offered_of_mem_membersNamed hi hs
    · left -- at the top of the file
      obtain ⟨hs, hfits⟩ := List.mem_filter.1 hs
      exact ⟨hi.mem_of_topLevelIn hs, (Bool.and_eq_true_iff.1 hfits).2⟩
    · left -- behind an import
      obtain ⟨symbols, hsymbols, hs⟩ := mem_of_mem_firstFound hs
      obtain ⟨i, -, rfl⟩ := List.mem_map.1 hsymbols
      exact offered_of_mem_qualified hi hs
    · exact .inl (offered_of_mem_qualified hi hs)
    · left -- behind a star import
      obtain ⟨symbols, hsymbols, hs⟩ := mem_of_mem_firstFound hs
      obtain ⟨i, -, rfl⟩ := List.mem_map.1 hsymbols
      exact offered_of_mem_qualified hi hs
    · left -- the only one of the name
      obtain ⟨hs, hfits⟩ := List.mem_filter.1 (mem_of_mem_unambiguous hs)
      exact ⟨hi.mem_of_findByName hs, (Bool.and_eq_true_iff.1 hfits).2⟩

/-! ### Classifiers -/

section Levels

variable {ls : Levels} (hls : Levels.Sourced index ls)
include hls

omit hi in
/-- An alias leads to an indexed classifier. -/
theorem offered_of_followAlias {c d : Symbol} (hc : Offered index .type c)
    (h : followAlias index ls c = some d) : Offered index .type d := by
  unfold followAlias at h
  split at h
  · obtain ⟨target, -, h⟩ := Option.bind_eq_some_iff.1 h
    obtain ⟨⟨f, anchor⟩, -, h⟩ := Option.bind_eq_some_iff.1 h
    exact hls.top.classifierNamed h
  · cases h
    exact hc

omit hls in
/-- The members that the segments of a path name one after the other. -/
theorem offered_of_foldlM_membersNamed :
    ∀ {segments : List String} {c d : Symbol}, Offered index .type c →
      segments.foldlM (fun c segment => (membersNamed index ls c segment .type).head?) c = some d →
      Offered index .type d
  | [], _, _, hc, h => by cases h; exact hc
  | segment :: segments, c, d, hc, h => by
      rw [List.foldlM_cons] at h
      obtain ⟨m, hm, h⟩ := Option.bind_eq_some_iff.1 h
      exact offered_of_foldlM_membersNamed
        (offered_of_mem_membersNamed hi (List.mem_of_head? hm)) h

/-- So does a path of names. -/
theorem offered_of_classifierAlong {f : SourceFile} {n : Node} {segments : List String}
    {c : Symbol} (h : classifierAlong index ls f n segments = some c) :
    Offered index .type c := by
  cases segments with
  | nil => cases h
  | cons first rest =>
      obtain ⟨outermost, ho, h⟩ := Option.bind_eq_some_iff.1 h
      exact offered_of_foldlM_membersNamed hi (hls.top.lookupType (List.mem_of_head? ho)) h

theorem offered_of_classifierOfName {f : SourceFile} {n : Node} {name : String} {c : Symbol}
    (h : classifierOfName index ls f n name = some c) : Offered index .type c := by
  unfold classifierOfName at h
  split at h
  · split at h
    · next d hd =>
      cases h
      exact offered_of_mem_qualified hi (List.mem_of_head? hd)
    · exact offered_of_classifierAlong hi hls h
  · exact hls.top.lookupType (List.mem_of_head? h)

/-- So does a type as written. -/
theorem offered_of_classifierOfText {f : SourceFile} {n : Node} {text : String}
    {throughAlias : Bool} {c : Symbol}
    (h : classifierOfText index ls f n text throughAlias = some c) : Offered index .type c := by
  simp only [classifierOfText, Option.bind_eq_bind, Option.bind_none] at h
  obtain ⟨-, h⟩ := Option.ite_none_left_eq_some.1 h
  obtain ⟨found, hfound, h⟩ := Option.bind_eq_some_iff.1 h
  have hoffered := offered_of_classifierOfName hi hls hfound
  split at h
  · exact offered_of_followAlias hls hoffered h
  · cases h
    exact hoffered

/-! ### The stack of levels -/

/-- A level over others answers like them. -/
theorem sourced_levelOver : Level.Sourced index (levelOver index ls) := by
  refine ⟨?_, ?_, ?_⟩
  · intro f name n want s hn h
    change s ∈ lookupName index ls f name n want at h
    rcases offered_of_mem_lookupName hi h with h | ⟨-, h⟩
    · exact .inl h.1
    · exact .inr ⟨name, n, hn, h⟩
  · intro f name n s h
    change s ∈ lookupName index ls f name n .type at h
    exact (offered_of_mem_lookupName hi h).resolve_right fun hw => hw.1 rfl
  · intro f n text throughAlias c h
    simp only [levelOver] at h
    exact offered_of_classifierOfText hi hls h

end Levels

/-- **Every level of the stack answers with indexed symbols and local bindings.** -/
theorem sourced_levels : ∀ height : Nat, Levels.Sourced index (levels index height)
  | 0 => by intro l hl; cases hl
  | height + 1 => by
      intro l hl
      rcases List.mem_cons.1 hl with rfl | hl
      · exact sourced_levelOver hi (sourced_levels height)
      · exact sourced_levels height l hl

end Index

end Crossref.Resolve
