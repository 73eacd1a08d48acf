import Crossref.Proofs.Resolve.Staleness
import Crossref.Proofs.Tree.Spans
import Crossref.Proofs.Usage.Delegates
import Crossref.Proofs.Usage.Failures
import Crossref.Proofs.Usage.Parts

/-!
# Proofs — usages — receivers that are read and receivers that are assigned to

The receiver of a member or of an indexed place is visited whether the place is read or assigned to.
At a read the receiver is an identifier that refers to something by itself, and what it refers to is
recorded.  In the target of an assignment no identifier counts as one, as if each were the whole
target, so nothing is ever recorded at the receiver of what is assigned to.

* `eq_of_visited`: identifiers on the itinerary with one span that is not empty are one.
* `mem_recordedAlong_at_iff`: what is recorded at the site of a visited identifier.
* `receivers_alike_iff`: a receiver is treated alike in both places exactly when nothing is recorded
  at the read.
-/

namespace Crossref.Usage
open Node

/-! ### Visits -/

theorem mem_walk_trans {n m k : Node} (hm : m ∈ walk n) (hk : k ∈ walk m) : k ∈ walk n :=
  walk_induction (P := fun m => ∀ k ∈ walk m, k ∈ walk n)
    (fun _ hn _ hm k hk => hn k (mem_walk_of_mem_nextNodes hm hk)) (Nat.le_refl _)
    (fun _ hk => hk) hm k hk

theorem mem_map_node_itinerary_iff {n m : Node} :
    (∃ v ∈ itinerary n, v.node = m) ↔ ∃ top ∈ itineraryTops n, m ∈ walk top := by
  have hmem : m ∈ (itinerary n).map Visit.node ↔ m ∈ (itineraryTops n).flatMap walk := by
    rw [map_node_itinerary]
  simpa only [List.mem_map, List.mem_flatMap] using hmem

/-- What the walk goes on with at a visit is visited. -/
theorem exists_visit_of_mem_nextNodes {n m : Node} {v : Visit} (hv : v ∈ itinerary n)
    (hm : m ∈ nextNodes v.node) : ∃ w ∈ itinerary n, w.node = m := by
  obtain ⟨top, htop, hwalk⟩ := mem_map_node_itinerary_iff.1 ⟨v, hv, rfl⟩
  have hnext : m ∈ walk v.node := mem_walk_of_mem_nextNodes hm (mem_walk_self m)
  exact mem_map_node_itinerary_iff.2 ⟨top, htop, mem_walk_trans hwalk hnext⟩

/-- The walk does not go on below an identifier: one above a node that is met stands above where the
walk begins. -/
theorem mem_ancestors_of_identifier {top m k : Node} (hk : Construct.ofNode k = .identifier)
    (hm : m ∈ walk top) (h : k ∈ m.ancestors) : k ∈ top.ancestors := by
  have hpassed : k.kind ∉ passedKinds := by
    have hkinds := Construct.mem_kinds_ofNode (n := k) (by simp [hk])
    rw [hk] at hkinds
    revert hkinds
    exact (by decide : ∀ kind ∈ Construct.identifier.kinds, kind ∉ passedKinds) k.kind
  refine walk_induction (P := fun m => k ∈ m.ancestors → k ∈ top.ancestors) ?_ (Nat.le_refl _)
    (fun h => h) hm h
  intro n ih m hm h
  rcases (passedOver_of_mem_nextNodes hm).mem_ancestors_cases h with h | rfl | h
  · exact absurd h hpassed
  · rw [nextNodes, hk] at hm
    cases hm
  · exact ih h

theorem notMem_ancestors_of_identifier {n : Node} {v w : Visit} (hv : v ∈ itinerary n)
    (hw : w ∈ itinerary n) (hk : Construct.ofNode v.node = .identifier) :
    v.node ∉ w.node.ancestors := by
  intro h
  obtain ⟨first, hfirst, hbelow⟩ := exists_top_of_mem_itinerary hv
  obtain ⟨top, htop, hwalk⟩ := mem_map_node_itinerary_iff.1 ⟨w, hw, rfl⟩
  -- the identifier would stand above one beginning of the itinerary and below another
  have habove := length_trail_lt_of_mem_ancestors (mem_ancestors_of_identifier hk hwalk h)
  rw [length_trail_of_mem_itineraryTops htop, ← length_trail_of_mem_itineraryTops hfirst] at habove
  exact Nat.not_lt_of_le hbelow.length_trail_le habove

/-- **Identifiers on the itinerary with one span that is not empty are one.** -/
theorem eq_of_visited {t : Tree} (ht : t.WellFormed) {n : Node} (hn : Within t n) {v w : Visit}
    (hv : v ∈ itinerary n) (hw : w ∈ itinerary n) (hvk : Construct.ofNode v.node = .identifier)
    (hwk : Construct.ofNode w.node = .identifier) (hstart : v.node.start = w.node.start)
    (hstop : v.node.stop = w.node.stop) (hsolid : v.node.start < v.node.stop) :
    v.node = w.node := by
  rcases (within_of_mem_itinerary hn hv).trichotomy (within_of_mem_itinerary hn hw) with
    h | h | h | h
  · exact (h.eq_or_mem_ancestors.resolve_right (notMem_ancestors_of_identifier hv hw hvk)).symm
  · exact h.eq_or_mem_ancestors.resolve_right (notMem_ancestors_of_identifier hw hv hwk)
  · have hapart := ht.stop_le_start h
    omega
  · have hapart := ht.stop_le_start h
    omega

/-! ### Sites -/

section Sites

variable {σ : Type} {session : Session σ} {v : Visit} {u : Usage}

/-- What is recorded at a visit has the visited node as its site, or the target of the visited
assignment. -/
theorem site_of_mem_record {s : σ} (h : u ∈ (record session v s).1) :
    u.site = .ofNode session.file v.node ∨
      ∃ target, assignmentTarget? v.node = some target ∧ u.site = .ofNode session.file target := by
  suffices hall : ∀ u ∈ (record session v s).1, u.site = .ofNode session.file v.node ∨
      ∃ target, assignmentTarget? v.node = some target ∧
        u.site = .ofNode session.file target from hall u h
  refine record_of_parts (P := fun us => ∀ u ∈ us, u.site = .ofNode session.file v.node ∨
      ∃ target, assignmentTarget? v.node = some target ∧ u.site = .ofNode session.file target)
    (by simp) (fun us vs hus hvs u hu => (List.mem_append.1 hu).elim (hus u) (hvs u))
    (fun us hpart u hu => ?_) s
  cases hpart with
  | reference _ _ => exact .inl (site_of_mem_ofReference hu)
  | target _ ht _ => exact .inr ⟨_, ht, site_of_mem_ofReference hu⟩
  | call _ _ => exact .inl (site_of_mem_ofCall hu)
  | type _ _ => exact .inl (site_of_mem_ofType hu)
  | supertype _ _ => exact .inl (site_of_mem_ofType hu)
  | annotationUse _ _ => exact .inl (site_of_mem_ofType hu)
  | construction _ _ => exact .inl (site_of_mem_ofCall hu)
  | delegate _ _ => exact .inl (site_of_mem_ofDelegate hu)

/-- At an identifier its reference is recorded if it is one. -/
theorem mem_record_identifier_iff (hk : Construct.ofNode v.node = .identifier) {s : σ} :
    u ∈ (record session v s).1 ↔
      isReferencePosition session.file.text v.node = true ∧
        u ∈ ofReference session.file v.node false (session.reference v.node s).1 := by
  unfold record
  rw [hk]
  dsimp only
  split
  · next h => exact (and_iff_right h).symm
  · next h => exact ⟨fun hu => absurd hu List.not_mem_nil, fun hu => absurd hu.1 h⟩

/-- What is recorded at some visit is recorded along the itinerary, if there is only one state. -/
theorem mem_recordedAlong_iff {session : Session Unit} {vs : List Visit} :
    u ∈ recordedAlong session vs () ↔ ∃ v ∈ vs, u ∈ (record session v ()).1 := by
  induction vs with
  | nil => simp [recordedAlong]
  | cons v vs ih =>
      rw [recordedAlong_cons, List.mem_append]
      simp only [List.mem_cons, exists_eq_or_imp]
      exact or_congr_right ih

end Sites

/-- **What is recorded at the site of a visited identifier** is what its reference leads to, if it
is a reference. -/
theorem mem_recordedAlong_at_iff (session : Session Unit) (ht : session.file.tree.WellFormed)
    {n : Node} (hn : Within session.file.tree n) {v : Visit} (hv : v ∈ itinerary n)
    (hk : v.node.kind = "simple_identifier") (hsolid : v.node.start < v.node.stop) {u : Usage} :
    u ∈ recordedAlong session (itinerary n) () ∧ u.site = .ofNode session.file v.node ↔
      isReferencePosition session.file.text v.node = true ∧
        u ∈ ofReference session.file v.node false (session.reference v.node ()).1 := by
  have hvk : Construct.ofNode v.node = .identifier := by rw [Construct.ofNode, hk]; rfl
  rw [mem_recordedAlong_iff]
  constructor
  · rintro ⟨⟨w, hw, hu⟩, hsite⟩
    -- a usage with this site is recorded at an identifier, and at no other one
    have hsame {m : Node} (hm : u.site = .ofNode session.file m) :
        v.node.start = m.start ∧ v.node.stop = m.stop ∧ v.node.kind = m.kind := by
      rw [hsite] at hm
      injection hm with _ hstart hstop hkind
      exact ⟨hstart, hstop, hkind⟩
    rcases site_of_mem_record hu with hsite' | ⟨target, htarget, hsite'⟩
    · obtain ⟨hstart, hstop, hkind⟩ := hsame hsite'
      have hwk : Construct.ofNode w.node = .identifier := by
        rw [Construct.ofNode, ← hkind, hk]; rfl
      have hnode := eq_of_visited ht hn hv hw hvk hwk hstart hstop hsolid
      rw [hnode]
      exact (mem_record_identifier_iff hwk).1 hu
    · rw [(hsame hsite').2.2, (mem_of_childOfKind? htarget).2] at hk
      exact absurd hk (by decide)
  · rintro ⟨hposition, hu⟩
    exact ⟨⟨v, hv, (mem_record_identifier_iff hvk).2 ⟨hposition, hu⟩⟩, site_of_mem_ofReference hu⟩

/-! ### Receivers -/

/-- The receiver of the place that an assignment goes to: `r` in `r.x = v` and in `r[i] = v`. -/
def assignedReceiver? (n : Node) : Option Node :=
  if n.kind = "assignment" then
    (assignmentTarget? n).bind fun target =>
      if isIndexed target || target.hasChildOfKind "navigation_suffix" then target.namedChild? 0
      else none
  else none

/-- The receiver of a place that is read: `r` in `r.x` and in `r[i]`. -/
def readReceiver? (n : Node) : Option Node :=
  if n.kind ∈ ["navigation_expression", "indexing_expression"] then n.namedChild? 0 else none

/-- The receiver of what is assigned to is visited, and no reference. -/
theorem assignedReceiver?_spec {a r : Node} (h : assignedReceiver? a = some r) :
    r ∈ nextNodes a ∧ ∀ source, isReferencePosition source r = false := by
  unfold assignedReceiver? at h
  split at h
  · next hk =>
    obtain ⟨target, htarget, h⟩ := Option.bind_eq_some_iff.1 h
    split at h
    · next hsuffix =>
      have hr : r ∈ target.children := mem_children_of_namedChild? h
      constructor
      · have hc : Construct.ofNode a = .assignment := by rw [Construct.ofNode, hk]; rfl
        rw [nextNodes, hc]
        dsimp only
        rw [belowAssignment_eq htarget, targetNodes]
        refine List.mem_append_left _ ?_
        cases hindexed : isIndexed target with
        | true => exact List.mem_of_getElem? h
        | false =>
            rw [hindexed, Bool.false_or] at hsuffix
            simp only [hsuffix, if_true]
            exact Option.mem_toList.2 h
      · intro source
        have hparent : isOwnName source target r = true := by
          simp only [isOwnName, (mem_of_childOfKind? htarget).2]
        simp [isReferencePosition, parent?_of_mem_children hr, hparent]
    · cases h
  · cases h

/-- The receiver of what is read is visited, and a reference unless it stands where nothing is
one. -/
theorem readReceiver?_spec {e r : Node} (h : readReceiver? e = some r) :
    r ∈ nextNodes e ∧ ∀ source, isReferencePosition source r =
      (r.ancestorOfKind? nonReferenceKinds).isNone := by
  unfold readReceiver? at h
  split at h
  · next hk =>
    have hr : r ∈ e.namedChildren := List.mem_of_getElem? h
    have hparent := parent?_of_mem_children (mem_namedChildren_iff.1 hr).1
    simp only [List.mem_cons, List.not_mem_nil, or_false] at hk
    rcases hk with hk | hk
    · refine ⟨?_, fun source => ?_⟩
      · have hc : Construct.ofNode e = .navigation := by rw [Construct.ofNode, hk]; rfl
        rw [nextNodes, hc]
        exact Option.mem_toList.2 h
      · have hown : isOwnName source e r = false := by simp [isOwnName, hk, declaringKinds]
        simp [isReferencePosition, hparent, hown]
    · refine ⟨?_, fun source => ?_⟩
      · have hc : Construct.ofNode e = .operator := by rw [Construct.ofNode, hk]; rfl
        rw [nextNodes, hc]
        exact hr
      · have hown : isOwnName source e r = false := by simp [isOwnName, hk, declaringKinds]
        simp [isReferencePosition, hparent, hown]
  · cases h

section OverIndex

variable (i : Index) (f : SourceFile)

/-- All that is collected over an index with local reads and without a cap. -/
def allCollected (n : Node) : List Usage :=
  recordedAlong (Session.ofIndex i f) (itinerary n) ()

theorem collect_allCollected {n : Node} {cap : Nat} (hcap : (allCollected i f n).length ≤ cap)
    (interval : Nat) :
    (collect (Session.ofIndex i f) ⟨cap, true⟩ (.never interval) n ()).1 =
      .ok (allCollected i f n) := by
  have hall : (allCollected i f n).filter (Limits.keeps ⟨cap, true⟩) = allCollected i f n :=
    List.filter_eq_self.2 fun _ _ => rfl
  rw [collect_uncancelled]
  change Except.ok (((allCollected i f n).filter _).take cap) = _
  rw [hall, List.take_of_length_le hcap]

variable {i f} (hf : f.tree.WellFormed) {n r : Node} (hn : Within f.tree n) {v : Visit}
  (hv : v ∈ itinerary n) (hk : r.kind = "simple_identifier") (hsolid : r.start < r.stop)
include hf hn hv hk hsolid

/-- Nothing is collected at the receiver of what is assigned to. -/
theorem site_ne_of_assignedReceiver (hr : assignedReceiver? v.node = some r) :
    ∀ u ∈ allCollected i f n, u.site ≠ .ofNode f r := by
  obtain ⟨hnext, hposition⟩ := assignedReceiver?_spec hr
  obtain ⟨w, hw, rfl⟩ := exists_visit_of_mem_nextNodes hv hnext
  intro u hu hsite
  have hrecorded := (mem_recordedAlong_at_iff (Session.ofIndex i f) hf hn hw hk hsolid).1
    ⟨hu, hsite⟩
  exact absurd hrecorded.1 (by simp [hposition])

/-- What is collected at the receiver of what is read is what it refers to. -/
theorem mem_allCollected_of_readReceiver (hr : readReceiver? v.node = some r) {u : Usage} :
    u ∈ allCollected i f n ∧ u.site = .ofNode f r ↔
      (r.ancestorOfKind? nonReferenceKinds).isNone = true ∧
        u ∈ ofReference f r false ((Answers.ofIndex i f).reference r) := by
  obtain ⟨hnext, hposition⟩ := readReceiver?_spec hr
  obtain ⟨w, hw, rfl⟩ := exists_visit_of_mem_nextNodes hv hnext
  rw [← hposition f.text]
  exact mem_recordedAlong_at_iff (Session.ofIndex i f) hf hn hw hk hsolid

end OverIndex

/-- **Receivers that are read and receivers that are assigned to.**  With local reads and without a
cap, nothing is collected at the receiver of what is assigned to.  At the receiver of what is read,
exactly what it refers to is collected.  So a receiver is treated alike when both stand in the same
place only where nothing is recorded at the read. -/
theorem receivers_alike_iff {i j : Index} {f g : SourceFile} (hf : f.tree.WellFormed)
    (hg : g.tree.WellFormed) {n m : Node} (hn : Within f.tree n) (hm : Within g.tree m)
    {v w : Visit} (hv : v ∈ itinerary n) (hw : w ∈ itinerary m) {r q : Node}
    (hr : assignedReceiver? v.node = some r) (hq : readReceiver? w.node = some q)
    (hk : r.kind = "simple_identifier") (hsolid : r.start < r.stop)
    (hsite : Site.ofNode f r = Site.ofNode g q) :
    ∃ assigned read : List Usage,
      (∀ cap, assigned.length ≤ cap → ∀ interval,
        (collect (Session.ofIndex i f) ⟨cap, true⟩ (.never interval) n ()).1 = .ok assigned) ∧
      (∀ cap, read.length ≤ cap → ∀ interval,
        (collect (Session.ofIndex j g) ⟨cap, true⟩ (.never interval) m ()).1 = .ok read) ∧
      (∀ u ∈ assigned, u.site ≠ .ofNode f r) ∧
      (∀ u, u ∈ read ∧ u.site = .ofNode g q ↔
        (q.ancestorOfKind? nonReferenceKinds).isNone = true ∧
          u ∈ ofReference g q false ((Answers.ofIndex j g).reference q)) ∧
      ((∀ u : Usage, u.site = .ofNode f r → (u ∈ assigned ↔ u ∈ read)) ↔
        ((q.ancestorOfKind? nonReferenceKinds).isNone = true →
          ofReference g q false ((Answers.ofIndex j g).reference q) = [])) := by
  obtain ⟨-, hstart, hstop, hkind⟩ := Site.mk.inj hsite
  have hassigned := site_ne_of_assignedReceiver (i := i) hf hn hv hk hsolid hr
  have hread : ∀ u, _ ↔ _ := fun u => mem_allCollected_of_readReceiver (i := j) hg hm hw
    (hkind.symm.trans hk) (by omega) hq (u := u)
  refine ⟨allCollected i f n, allCollected j g m, fun _ hcap => collect_allCollected i f hcap,
    fun _ hcap => collect_allCollected j g hcap, hassigned, hread, ?_⟩
  constructor
  · intro halike hposition
    refine List.eq_nil_iff_forall_not_mem.2 fun u hu => ?_
    obtain ⟨hmem, hu⟩ := (hread u).2 ⟨hposition, hu⟩
    have hsame := hu.trans hsite.symm
    exact hassigned u ((halike u hsame).2 hmem) hsame
  · intro hnone u hu
    refine ⟨fun hmem => absurd hu (hassigned u hmem), fun hmem => ?_⟩
    obtain ⟨hposition, hreference⟩ := (hread u).1 ⟨hmem, hu.trans hsite⟩
    rw [hnone hposition] at hreference
    cases hreference

/-! ### A parameter in both places -/

namespace Receiver

/-- `fun f(r: Int) {`, a statement and `}`, on a line each; the statement begins at byte 20. -/
def textOf (statement : String) : String :=
  "fun f(r: Int) \x7b\n    " ++ statement ++ "\n\x7d\n"

/-- The tree of the function with a statement that ends at the byte. -/
def treeOf (stop : Nat) (statement : Tree) : Tree :=
  .named "source_file" 0 (stop + 3)
    [.named "function_declaration" 0 (stop + 2)
      [.token "fun" 0 3, .named "simple_identifier" 4 5 [],
       .named "function_value_parameters" 5 13
        [.token "(" 5 6,
         .named "parameter" 6 12
          [.named "simple_identifier" 6 7 [], .token ":" 7 8,
           .named "user_type" 9 12 [.named "type_identifier" 9 12 []]],
         .token ")" 12 13],
       .named "function_body" 14 (stop + 2)
        [.token "\x7b" 14 15, .named "statements" 20 stop [statement],
         .token "\x7d" (stop + 1) (stop + 2)]]]

/-- `r.x` as a node of the kind. -/
def memberTree (kind : String) : Tree :=
  .named kind 20 23
    [.named "simple_identifier" 20 21 [],
     .named "navigation_suffix" 21 23
      [.token "." 21 22, .named "simple_identifier" 22 23 []]]

def parsed (text : String) (tree : Tree) : ParsedText := ⟨⟨"/p/a.kt"⟩, text, tree⟩

/-- The function that assigns to `r.x`. -/
def assigning : ParsedText :=
  parsed (textOf "r.x = 1")
    (treeOf 27
      (.named "assignment" 20 27
        [memberTree "directly_assignable_expression", .token "=" 24 25,
         .named "integer_literal" 26 27 []]))

/-- The function that reads `r.x`. -/
def reading : ParsedText := parsed (textOf "r.x") (treeOf 23 (memberTree "navigation_expression"))

def fileOf (given : ParsedText) : SourceFile := Project.sourceFile ⟨"/p"⟩ {} 0 .kotlin given

/-- A project with the one file. -/
def indexOf (given : ParsedText) : Index := Project.indexOf ⟨"/p"⟩ {} [given]

/-- The function. -/
def functionOf (given : ParsedText) : Node := ((fileOf given).top.child? 0).getD (fileOf given).top

/-- The first visit of a node of the kind. -/
def visitOf (given : ParsedText) (kind : String) : Visit :=
  ((itinerary (functionOf given)).filter (·.node.kind == kind)).headD ⟨functionOf given, false⟩

theorem visitOf_mem {given : ParsedText} {kind : String}
    (h : (itinerary (functionOf given)).filter (·.node.kind == kind) ≠ []) :
    visitOf given kind ∈ itinerary (functionOf given) := by
  obtain ⟨v, vs, hvs⟩ := List.exists_cons_of_ne_nil h
  rw [visitOf, hvs]
  exact (List.mem_filter.1 (hvs ▸ List.mem_cons_self)).1

theorem functionOf_within {given : ParsedText} {n : Node}
    (h : (fileOf given).top.child? 0 = some n) : Within (fileOf given).tree (functionOf given) := by
  rw [functionOf, h]
  exact .child .top (List.mem_of_getElem? h)

/-- `r` where it is assigned to. -/
def assigned : Node :=
  (assignedReceiver? (visitOf assigning "assignment").node).get (by decide)

/-- `r` where it is read. -/
def read : Node :=
  (readReceiver? (visitOf reading "navigation_expression").node).get (by decide)

/-- The parameter `r`. -/
def parameterOf (given : ParsedText) : Node :=
  ((fileOf given).top.preorder.filter (·.kind == "parameter")).headD (fileOf given).top

/-- The symbol of the parameter `r` that is read. -/
def parameterRead : Symbol :=
  Resolve.localSymbol (fileOf reading) (parameterOf reading) .parameter "r"

/-- Where `r` is read it leads to the parameter. -/
theorem reference_read :
    (Answers.ofIndex (indexOf reading) (fileOf reading)).reference read = .ok [parameterRead] := by
  have hfound : Answers.found (indexOf reading) (fileOf reading) read = [parameterRead] := by
    decide
  have hfresh : ¬ Answers.isStale (indexOf reading) parameterRead = true := by decide
  rw [Answers.reference_ofIndex (by decide), hfound, List.find?_cons_of_neg hfresh]
  rfl

theorem wellFormed : (fileOf assigning).tree.WellFormed ∧ (fileOf reading).tree.WellFormed := by
  decide

theorem within : Within (fileOf assigning).tree (functionOf assigning) ∧
    Within (fileOf reading).tree (functionOf reading) :=
  ⟨functionOf_within rfl, functionOf_within rfl⟩

theorem visited : visitOf assigning "assignment" ∈ itinerary (functionOf assigning) ∧
    visitOf reading "navigation_expression" ∈ itinerary (functionOf reading) :=
  ⟨visitOf_mem (List.ne_nil_of_length_pos (by decide)),
    visitOf_mem (List.ne_nil_of_length_pos (by decide))⟩

theorem receivers : assignedReceiver? (visitOf assigning "assignment").node = some assigned ∧
    readReceiver? (visitOf reading "navigation_expression").node = some read :=
  ⟨(Option.some_get _).symm, (Option.some_get _).symm⟩

theorem site_eq : Site.ofNode (fileOf assigning) assigned = Site.ofNode (fileOf reading) read := by
  decide

end Receiver

open Receiver in
/-- At the parameter that is assigned to, nothing is collected. -/
theorem receivers_alike_iff_parameter :
    (((fileOf assigning).tree.WellFormed ∧ (fileOf reading).tree.WellFormed) ∧
      (Within (fileOf assigning).tree (functionOf assigning) ∧
        Within (fileOf reading).tree (functionOf reading)) ∧
      (visitOf assigning "assignment" ∈ itinerary (functionOf assigning) ∧
        visitOf reading "navigation_expression" ∈ itinerary (functionOf reading)) ∧
      (assignedReceiver? (visitOf assigning "assignment").node = some assigned ∧
        readReceiver? (visitOf reading "navigation_expression").node = some read) ∧
      assigned.kind = "simple_identifier" ∧ assigned.start < assigned.stop ∧
      Site.ofNode (fileOf assigning) assigned = Site.ofNode (fileOf reading) read) ∧
    ∃ usages, (∀ cap, usages.length ≤ cap → ∀ interval,
        (collect (Session.ofIndex (indexOf assigning) (fileOf assigning)) ⟨cap, true⟩
          (.never interval) (functionOf assigning) ()).1 = .ok usages) ∧
      ∀ u ∈ usages, u.site ≠ .ofNode (fileOf assigning) assigned := by
  have hkind : assigned.kind = "simple_identifier" := by decide
  have hsolid : assigned.start < assigned.stop := by decide
  obtain ⟨usages, -, hcollected, -, hnone, -⟩ := receivers_alike_iff (i := indexOf assigning)
    (j := indexOf reading) wellFormed.1 wellFormed.2 within.1 within.2 visited.1 visited.2
    receivers.1 receivers.2 hkind hsolid site_eq
  exact ⟨⟨wellFormed, within, visited, receivers, hkind, hsolid, site_eq⟩, usages, hcollected,
    hnone⟩

open Receiver in
/-- A read of the parameter is collected where `r.x` is read, and nothing at the same place where
`r.x` is assigned to. -/
theorem receivers_apart_parameter :
    (visitOf assigning "assignment" ∈ itinerary (functionOf assigning) ∧
      assignedReceiver? (visitOf assigning "assignment").node = some assigned) ∧
    (visitOf reading "navigation_expression" ∈ itinerary (functionOf reading) ∧
      readReceiver? (visitOf reading "navigation_expression").node = some read) ∧
    assigned.kind = "simple_identifier" ∧
    Site.ofNode (fileOf assigning) assigned = Site.ofNode (fileOf reading) read ∧
    ∃ cap usages others,
      (collect (Session.ofIndex (indexOf assigning) (fileOf assigning)) ⟨cap, true⟩ (.never 64)
        (functionOf assigning) ()).1 = .ok usages ∧
      (collect (Session.ofIndex (indexOf reading) (fileOf reading)) ⟨cap, true⟩ (.never 64)
        (functionOf reading) ()).1 = .ok others ∧
      (∀ u ∈ usages, u.site ≠ .ofNode (fileOf assigning) assigned) ∧
      ⟨parameterRead, .propertyRead, .ofNode (fileOf reading) read⟩ ∈ others := by
  have hkind : assigned.kind = "simple_identifier" ∧ read.kind = "simple_identifier" := by
    decide
  have hsolid : assigned.start < assigned.stop ∧ read.start < read.stop := by decide
  refine ⟨⟨visited.1, receivers.1⟩, ⟨visited.2, receivers.2⟩, hkind.1, site_eq, _, _, _,
    collect_allCollected _ _ (Nat.le_max_left _ _) 64,
    collect_allCollected _ _ (Nat.le_max_right _ _) 64,
    site_ne_of_assignedReceiver wellFormed.1 within.1 visited.1 hkind.1 hsolid.1 receivers.1, ?_⟩
  refine ((mem_allCollected_of_readReceiver wellFormed.2 within.2 visited.2 hkind.2 hsolid.2
    receivers.2).2 ⟨by decide, ?_⟩).1
  rw [reference_read]
  decide

end Crossref.Usage
