import Crossref.Proofs.Resolve.Receivers
import Crossref.Proofs.Resolve.Staleness
import Crossref.Proofs.Usage.Blanked.Recorded
import Crossref.Proofs.Usage.Collected
import Crossref.Proofs.Usage.Receivers

/-!
# Proofs — usages — what is collected with comments left out

A run over what is left of a declaration visits what is left of the itinerary and records the same
at it, so it collects what a run over the whole collects.  This is said of projects as they are
given: the files with their comments on the one side, the files without them on the other.

* `collect_blanked`: every run collects the same.
* `collect_apart_behindName`: a comment behind the name of a named argument makes a use of the name.
-/

namespace Crossref.Usage
open Node Resolve

section Index

variable {bs : FileId → Blanking} {i j : Index} (h : Spared bs i j) {f : SourceFile} {n : Node}
  (hn : Place bs i f n)
include h

/-- Along what is left of visits the same is recorded; at a comment nothing is. -/
theorem recordedAlong_blanked (hf : f ∈ i.files) (hu : f.OffUsages (bs f.id) i) :
    ∀ {vs : List Visit}, (∀ v ∈ vs, Within f.tree v.node) →
      recordedAlong (Session.ofIndex j (f.blanked (bs f.id))) (visitsLeft (bs f.id).out vs) () =
        recordedAlong (Session.ofIndex i f) vs ()
  | [], _ => rfl
  | v :: vs, hvs => by
      have ih := recordedAlong_blanked hf hu fun w hw => hvs w (List.mem_cons_of_mem v hw)
      cases hk : v.node.isKept (bs f.id).out with
      | true =>
          have hrecord := record_blanked h ⟨hf, hvs v List.mem_cons_self, hk⟩ hu v.inDelegate
          have hfirst : record (Session.ofIndex j (f.blanked (bs f.id))) (v.without (bs f.id).out) =
              record (Session.ofIndex i f) v := hrecord
          rw [visitsLeft_cons_of_kept hk, recordedAlong_cons, recordedAlong_cons, hfirst, ih]
      | false =>
          rw [visitsLeft_cons_of_not_kept hk, recordedAlong_cons,
            record_other (ofNode_of_not_isKept hk), ih]
          rfl

omit h in
/-- A run that is not found cancelled at its start is never cancelled if there is only one state. -/
theorem Watch.eq_never {w : Watch Unit} (hw : w.cancelled () = false) : w = .never w.interval := by
  obtain ⟨cancelled, interval⟩ := w
  have hcancelled : cancelled = fun _ => false := funext fun _ => hw
  rw [hcancelled]
  rfl

include hn in
/-- A run over what is left of a declaration collects what a run over the whole collects. -/
theorem collect_spared (hu : f.OffUsages (bs f.id) i) (l : Limits) (w : Watch Unit) :
    collect (Session.ofIndex j (f.blanked (bs f.id))) l w (n.without (bs f.id).out) () =
      collect (Session.ofIndex i f) l w n () := by
  by_cases hw : w.cancelled () = true
  · rw [collect_of_cancelled hw, collect_of_cancelled hw]
  · rw [Watch.eq_never (w := w) (by simpa using hw)]
    refine Prod.ext ?_ (Subsingleton.elim _ _)
    rw [collect_uncancelled, collect_uncancelled, itinerary_blanked h hn,
      recordedAlong_blanked h hn.mem hu fun v hv => within_of_mem_itinerary hn.stays.within hv]

end Index

/-! ### Projects -/

open Project

/-- **Comments do not change what a declaration uses** where they stand between what is read: every
run over a declaration of a project collects the same as a run in the project without the comments,
whatever the comments of whichever files. -/
theorem collect_blanked {root : Path} {config : Config} {files : List ParsedText}
    {b : Path → Blanking}
    (hu : ∀ f ∈ (indexOf root config files).files, f.Unread (b f.path) (indexOf root config files))
    {f : SourceFile} (hf : f ∈ (indexOf root config files).files) {n : Node}
    (hn : Stays (b f.path).out f.tree n) (l : Limits) (w : Watch Unit) :
    f.blanked (b f.path) ∈ (indexOf root config (files.map (·.blanked b))).files ∧
      collect (Session.ofIndex (indexOf root config (files.map (·.blanked b)))
          (f.blanked (b f.path))) l w (n.without (b f.path).out) () =
        collect (Session.ofIndex (indexOf root config files) f) l w n () := by
  have hi := Index.consistent_indexOf root config files
  -- the comments of a file by its number
  obtain ⟨bs, hbs⟩ : ∃ bs : FileId → Blanking,
      ∀ f ∈ (indexOf root config files).files, bs f.id = b f.path :=
    ⟨fun id => (((indexOf root config files).file? id).map (b ·.path)).getD ⟨.empty, ""⟩,
      fun f hf => by simp only [hi.file?_id hf, Option.map_some, Option.getD_some]⟩
  have hindex : indexOf root config (files.map (·.blanked b)) =
      .ofFiles ((indexOf root config files).files.map fun f => f.blanked (bs f.id)) := by
    rw [indexOf_blanked fun f hf => (hu f hf).toOffHead]
    exact congrArg _ (List.map_congr_left fun f hf => by rw [hbs f hf])
  have hspared : Spared bs (indexOf root config files)
      (.ofFiles ((indexOf root config files).files.map fun f => f.blanked (bs f.id))) := by
    refine ⟨Index.blanks_ofFiles hi (fun g hg => ?_) fun g hg => ?_, fun g hg => ?_⟩
    · rw [hbs g hg]
      exact (hu g hg).toOffDeclarations
    · rw [hbs g hg]
      exact (hu g hg).kotlin
    · rw [hbs g hg]
      exact (hu g hg).toOffExpressions
  rw [hindex, ← hbs f hf]
  rw [← hbs f hf] at hn
  refine ⟨List.mem_map.2 ⟨f, hf, rfl⟩, collect_spared hspared ⟨hf, hn⟩ ?_ l w⟩
  rw [hbs f hf]
  exact (hu f hf).toOffUsages

/-! ### A comment in an argument -/

namespace Argument

/-- ```
val x = 1
fun g(x: Int) {}
fun f() { g(..) }
``` -/
def textOf (argument : String) : String :=
  "val x = 1\nfun g(x: Int) \x7b\x7d\nfun f() \x7b g(" ++ argument ++ ") \x7d\n"

/-- The tree of the file with an argument of ten bytes. -/
def treeOf (argument : List Tree) : Tree :=
  .named "source_file" 0 53
    [.named "property_declaration" 0 9
      [.named "binding_pattern_kind" 0 3 [.token "val" 0 3],
       .named "variable_declaration" 4 5 [.named "simple_identifier" 4 5 []],
       .token "=" 6 7, .named "integer_literal" 8 9 []],
     .named "function_declaration" 10 26
      [.token "fun" 10 13, .named "simple_identifier" 14 15 [],
       .named "function_value_parameters" 15 23
        [.token "(" 15 16,
         .named "parameter" 16 22
          [.named "simple_identifier" 16 17 [], .token ":" 17 18,
           .named "user_type" 19 22 [.named "type_identifier" 19 22 []]],
         .token ")" 22 23],
       .named "function_body" 24 26 [.token "\x7b" 24 25, .token "\x7d" 25 26]],
     .named "function_declaration" 27 52
      [.token "fun" 27 30, .named "simple_identifier" 31 32 [],
       .named "function_value_parameters" 32 34 [.token "(" 32 33, .token ")" 33 34],
       .named "function_body" 35 52
        [.token "\x7b" 35 36,
         .named "statements" 37 50
          [.named "call_expression" 37 50
            [.named "simple_identifier" 37 38 [],
             .named "call_suffix" 38 50
              [.named "value_arguments" 38 50
                [.token "(" 38 39, .named "value_argument" 39 49 argument,
                 .token ")" 49 50]]]],
         .token "\x7d" 51 52]]]

def comment (start : Nat) : Tree := .named "multiline_comment" start (start + 4) []

/-- `x = /**/ 1`. -/
def beforeValue : ParsedText :=
  ⟨⟨"/p/a.kt"⟩, textOf "x = /**/ 1",
    treeOf [.named "simple_identifier" 39 40 [], .token "=" 41 42, comment 43,
      .named "integer_literal" 48 49 []]⟩

/-- `x /**/ = 1`. -/
def behindName : ParsedText :=
  ⟨⟨"/p/a.kt"⟩, textOf "x /**/ = 1",
    treeOf [.named "simple_identifier" 39 40 [], comment 41, .token "=" 46 47,
      .named "integer_literal" 48 49 []]⟩

/-- Blanks in the place of the comment. -/
def blanking (argument : String) (_ : Path) : Blanking := ⟨.all, textOf argument⟩

def fileOf (given : ParsedText) : SourceFile := Project.sourceFile ⟨"/p"⟩ {} 0 .kotlin given

/-- A project with the one file. -/
def indexOf (given : ParsedText) : Index := Project.indexOf ⟨"/p"⟩ {} [given]

/-- The function `f`. -/
def callerOf (given : ParsedText) : Node := ((fileOf given).top.child? 2).getD (fileOf given).top

/-- What holds of every place that stays. -/
theorem forall_stays {out : Comments} {t : Tree} {P : Node → Prop}
    (hP : ∀ n ∈ (ofTree t).preorder, n.isKept out = true → P n) : ∀ n, Stays out t n → P n :=
  fun n hn => hP n (within_iff_mem_preorder.1 hn.within) hn.kept

/-- The comment stands between two parts of the argument. -/
theorem between {given : ParsedText} (hg : given ∈ [beforeValue, behindName]) :
    Comments.all.Between (fileOf given).tree := by
  have hplaces : ∀ given ∈ [beforeValue, behindName], (fileOf given).tree.WellFormed ∧
      ∀ x ∈ (fileOf given).top.preorder, x.isKept .all = false →
        (∃ s ∈ x.preceding, s.isKept .all = true) ∧
          ∀ n ∈ (fileOf given).top.preorder, n.isKept .all = true → n.start ≠ x.start := by
    decide
  obtain ⟨hw, hcomment⟩ := hplaces given hg
  exact ⟨hw, fun x hx hk => (hcomment x (within_iff_mem_preorder.1 hx) hk).1,
    fun x n hx hk hn hnk =>
      (hcomment x (within_iff_mem_preorder.1 hx) hk).2 n (within_iff_mem_preorder.1 hn) hnk⟩

/-- `f` is a place of the tree. -/
theorem stays_callerOf (given : ParsedText) {n : Node} (h : (fileOf given).top.child? 2 = some n)
    (hk : n.isKept .all = true) : Stays .all (fileOf given).tree (callerOf given) := by
  rw [callerOf, h]
  exact ⟨.child .top (List.mem_of_getElem? h), hk⟩

/-- Before the value the comment stands where nothing is read. -/
theorem unread_beforeValue (i : Index) :
    (fileOf beforeValue).Unread (blanking "x =      1" (fileOf beforeValue).path) i where
  __ := between List.mem_cons_self
  size := by decide
  word := forall_stays (by decide)
  modifier := forall_stays (by decide)
  accessor := forall_stays (by decide)
  head := forall_stays (by decide)
  kotlin h := nomatch h
  first := forall_stays (by decide)
  second := forall_stays (by decide)
  last := forall_stays (by decide)
  sign := forall_stays (by decide)
  initial := forall_stays (by decide)
  referenced := forall_stays (by decide)
  receiver n hn hk c hc := .inl (forall_stays (P := fun n => n.kind ∈ receiverKinds →
    ∀ c ∈ n.namedChild? 0, c.text _ = c.text _) (by decide) n hn hk c hc)
  label := forall_stays (by decide)
  target := forall_stays (by decide)

/-- `x /**/ = 1` without the comment. -/
def bare : ParsedText := behindName.blanked (blanking "x      = 1")

/-- The visits of the name of the argument. -/
def visitsOf (given : ParsedText) : List Visit :=
  (itinerary (callerOf given)).filter fun v =>
    v.node.kind == "simple_identifier" && v.node.start == 39

/-- The visit of the name of the argument. -/
def visitOf (given : ParsedText) : Visit := (visitsOf given).headD ⟨callerOf given, false⟩

theorem visitOf_mem {given : ParsedText} (h : visitsOf given ≠ []) :
    visitOf given ∈ itinerary (callerOf given) := by
  obtain ⟨v, vs, hvs⟩ := List.exists_cons_of_ne_nil h
  rw [visitOf, hvs]
  exact (List.mem_filter.1 (hvs ▸ List.mem_cons_self)).1

/-- **What is collected at the name**, with the comment and without. -/
theorem mem_recordedAlong_visitOf {given : ParsedText} (hg : given ∈ [behindName, bare])
    (hcaller : Within (fileOf given).tree (callerOf given)) {u : Usage} :
    u ∈ recordedAlong (Session.ofIndex (indexOf given) (fileOf given))
        (itinerary (callerOf given)) () ∧ u.site = .ofNode (fileOf given) (visitOf given).node ↔
      isReferencePosition (fileOf given).text (visitOf given).node = true ∧
        u ∈ ofReference (fileOf given) (visitOf given).node false
          ((Answers.ofIndex (indexOf given) (fileOf given)).reference (visitOf given).node) := by
  have hvisited : ∀ given ∈ [behindName, bare], (fileOf given).tree.WellFormed ∧
      (visitsOf given).length ≠ 0 ∧ (visitOf given).node.kind = "simple_identifier" ∧
      (visitOf given).node.start < (visitOf given).node.stop := by decide
  obtain ⟨hw, hne, hkind, hsolid⟩ := hvisited given hg
  exact mem_recordedAlong_at_iff (Session.ofIndex (indexOf given) (fileOf given)) hw hcaller
    (visitOf_mem (List.ne_nil_of_length_pos (Nat.pos_of_ne_zero hne))) hkind hsolid

/-- The symbol of the property `x`. -/
def property : Symbol := (indexOf behindName).symbols.headD default

/-- The name of the argument leads to the property, where it is taken for a reference. -/
theorem reference_behindName :
    (Answers.ofIndex (indexOf behindName) (fileOf behindName)).reference
      (visitOf behindName).node = .ok [property] := by
  have hinFile : inFile (indexOf behindName) (fileOf behindName) "x" .value = [property] := by
    rw [inFile, indexOf, Project.indexOf, Index.ofFiles, Index.topLevelIn_ofParts]
    decide
  have hfresh : ¬ Answers.isStale (indexOf behindName) property = true := by
    rw [Answers.isStale, indexOf, Project.indexOf, Index.ofFiles, Index.symbol?_ofParts]
    decide
  obtain ⟨hname, hkind, hlocal, hnear, hstop⟩ :
      (fileOf behindName).textOf (visitOf behindName).node = "x" ∧
      (visitOf behindName).node.kind = "simple_identifier" ∧
      localBindings (fileOf behindName) "x" (visitOf behindName).node = [] ∧
      (nearestReceiver? (fileOf behindName) (visitOf behindName).node).isNone = true ∧
      (visitOf behindName).node.stop ≤ Text.size (fileOf behindName).text := by decide
  have hfound : Answers.found (indexOf behindName) (fileOf behindName) (visitOf behindName).node =
      [property] := by
    simp only [Answers.found, Answers.referenced, hkind, hname, top_levels_succ, levelOver]
    rw [lookupName_eq_inFile (by decide) (.inr hlocal) (Option.isNone_iff_eq_none.1 hnear) (by
      rw [hinFile]
      exact List.cons_ne_nil _ _), hinFile]
  rw [Answers.reference_ofIndex hstop, hfound, List.find?_cons_of_neg hfresh]
  rfl

end Argument

open Argument in
/-- Runs over `f` collect the same with the comment as without it. -/
theorem collect_blanked_beforeValue :
    (∀ g ∈ (Argument.indexOf beforeValue).files, g.Unread (blanking "x =      1" g.path)
      (Argument.indexOf beforeValue)) ∧
    fileOf beforeValue ∈ (Argument.indexOf beforeValue).files ∧
    Stays .all (fileOf beforeValue).tree (callerOf beforeValue) ∧
    collect (Session.ofIndex
        (Project.indexOf ⟨"/p"⟩ {} ([beforeValue].map (·.blanked (blanking "x =      1"))))
        ((fileOf beforeValue).blanked (blanking "x =      1" ⟨"/p/a.kt"⟩))) ⟨1000, false⟩
        (.never 64) ((callerOf beforeValue).without .all) () =
      collect (Session.ofIndex (Argument.indexOf beforeValue) (fileOf beforeValue)) ⟨1000, false⟩
        (.never 64) (callerOf beforeValue) () := by
  have hu : ∀ g ∈ (Argument.indexOf beforeValue).files, g.Unread (blanking "x =      1" g.path)
      (Argument.indexOf beforeValue) := by
    intro g hg
    obtain rfl : g = fileOf beforeValue := List.mem_singleton.1 hg
    exact unread_beforeValue _
  have hf : fileOf beforeValue ∈ (Argument.indexOf beforeValue).files := List.mem_singleton.2 rfl
  have hn := stays_callerOf beforeValue rfl rfl
  exact ⟨hu, hf, hn, (collect_blanked hu hf hn ⟨1000, false⟩ (.never 64)).2⟩

open Argument in
/-- Behind the name of an argument a comment makes a use of the name: a read of the property `x` is
collected at the name, where nothing is without the comment. -/
theorem collect_apart_behindName :
    Comments.all.Between (fileOf behindName).tree ∧
    Stays .all (fileOf behindName).tree (callerOf behindName) ∧
    Site.ofNode (fileOf bare) (visitOf bare).node =
      .ofNode (fileOf behindName) (visitOf behindName).node ∧
    ∀ keepLocalReads, ∃ cap usages others,
      (collect (Session.ofIndex (Argument.indexOf behindName) (fileOf behindName))
        ⟨cap, keepLocalReads⟩ (.never 64) (callerOf behindName) ()).1 = .ok usages ∧
      (collect (Session.ofIndex (Argument.indexOf bare) (fileOf bare)) ⟨cap, keepLocalReads⟩
        (.never 64) ((callerOf behindName).without .all) ()).1 = .ok others ∧
      ⟨property, .propertyRead, .ofNode (fileOf behindName) (visitOf behindName).node⟩ ∈ usages ∧
      ∀ u ∈ others, u.site ≠ .ofNode (fileOf behindName) (visitOf behindName).node := by
  have hstays := stays_callerOf behindName rfl rfl
  have hbare : Within (fileOf bare).tree (callerOf bare) :=
    .child .top (List.mem_of_getElem? (i := 2) rfl)
  obtain ⟨hsite, hreference, hlabel, hsignal⟩ :
      Site.ofNode (fileOf bare) (visitOf bare).node =
        .ofNode (fileOf behindName) (visitOf behindName).node ∧
      isReferencePosition (fileOf behindName).text (visitOf behindName).node = true ∧
      isReferencePosition (fileOf bare).text (visitOf bare).node = false ∧
      Usage.isLowSignal ⟨property, .propertyRead,
        .ofNode (fileOf behindName) (visitOf behindName).node⟩ = false := by decide
  -- with the comment the name is a reference, and leads to the property
  have hused := ((mem_recordedAlong_visitOf List.mem_cons_self hstays.within).2 ⟨hreference, by
    have hread : (⟨property, .propertyRead,
        .ofNode (fileOf behindName) (visitOf behindName).node⟩ : Usage) ∈
          ofReference (fileOf behindName) (visitOf behindName).node false (.ok [property]) := by
      decide
    rw [← reference_behindName] at hread
    exact hread⟩).1
  refine ⟨between (by simp), hstays, hsite, fun keepLocalReads => ⟨_, _, _,
    collect_uncancelled _ _ _ _ _,
    collect_uncancelled _ ⟨(recordedAlong (Session.ofIndex (Argument.indexOf behindName)
      (fileOf behindName)) (itinerary (callerOf behindName)) ()).length, keepLocalReads⟩ _ _ _,
    ?_, fun u hu husite => ?_⟩⟩
  · rw [List.take_of_length_le (List.length_filter_le _ _)]
    refine List.mem_filter.2 ⟨hused, ?_⟩
    rw [Limits.keeps, hsignal, Bool.not_false, Bool.or_true]
  · -- without it the name is a label
    have hu := (List.mem_filter.1 (List.mem_of_mem_take hu)).1
    have hposition := ((mem_recordedAlong_visitOf (List.mem_cons_of_mem _ List.mem_cons_self)
      hbare).1 ⟨hu, husite.trans hsite.symm⟩).1
    rw [hlabel] at hposition
    cases hposition

end Crossref.Usage
