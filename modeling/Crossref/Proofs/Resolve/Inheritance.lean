import Crossref.Resolve.ExprType

/-!
# Proofs — resolution — inherited members

A member is looked for in a classifier, then in its supertypes, then in theirs, and the first round
that offers one decides.  A round looks at its classifiers one after the other.

* `membersNamed_of_direct`, `membersNamed_of_inherited`: a classifier that declares the member, and
  one that does not.
* `exists_membersNamed_eq_append`: what the first supertype declares comes before what else is
  inherited.
* `membersNamed_eq_of_steady`: a search that starts with the only supertype finds what the search
  from below it does.
-/

namespace Crossref.Resolve

variable {i : Index} {name : String} {want : Want}

/-! ### Behind aliases -/

/-- What stands behind aliases is no alias, if what the levels find behind them is none. -/
theorem kind_ne_of_followAlias {ls : Levels} {c d : Symbol}
    (hls : ∀ f n text s, ls.top.classifierNamed f n text true = some s → s.kind ≠ .typeAlias)
    (h : followAlias i ls c = some d) : d.kind ≠ .typeAlias := by
  unfold followAlias at h
  split at h
  · simp only [Option.bind_eq_bind, Option.bind_eq_some_iff] at h
    obtain ⟨text, -, ⟨f, anchor⟩, -, hnamed⟩ := h
    exact hls f anchor text d hnamed
  · next hc =>
    cases h
    exact hc

theorem kind_ne_of_classifierNamed {height : Nat} {f : SourceFile} {n : Node} {text : String}
    {c : Symbol} (h : (levels i height).top.classifierNamed f n text true = some c) :
    c.kind ≠ .typeAlias := by
  induction height generalizing f n text c with
  | zero =>
      rw [levels, Levels.top_nil] at h
      cases h
  | succ height ih =>
      rw [top_levels_succ, levelOver] at h
      simp only [classifierOfText, if_true, Option.bind_eq_bind] at h
      split at h
      · cases h
      · obtain ⟨found, -, hfollowed⟩ := Option.bind_eq_some_iff.1 h
        exact kind_ne_of_followAlias (fun _ _ _ _ => ih) hfollowed

theorem kind_ne_of_mem_supertypesOf {height : Nat} {c s : Symbol}
    (h : s ∈ supertypesOf i (levels i height) c) : s.kind ≠ .typeAlias := by
  rw [supertypesOf] at h
  split at h
  · obtain ⟨text, -, hs⟩ := List.mem_filterMap.1 h
    exact kind_ne_of_classifierNamed hs
  · cases h

/-! ### One classifier of a round -/

section Visit

variable {ls : Levels} {r : Round} {c : Symbol}

theorem visit_of_not_mem (hc : c.kind ≠ .typeAlias) (h : c.handle ∉ r.seen) :
    Round.visit i ls name want r c = ⟨c.handle :: r.seen,
      r.found ++ directMembersNamed i c name want, r.next ++ supertypesOf i ls c⟩ := by
  simp [Round.visit, followAlias, hc, h]

theorem visit_of_mem (hc : c.kind ≠ .typeAlias) (h : c.handle ∈ r.seen) :
    Round.visit i ls name want r c = r := by
  simp [Round.visit, followAlias, hc, h]

/-- What has been found stays in front. -/
theorem exists_found_visit_eq_append :
    ∃ more, (Round.visit i ls name want r c).found = r.found ++ more := by
  unfold Round.visit
  split
  · exact ⟨[], (List.append_nil _).symm⟩
  · split
    · exact ⟨[], (List.append_nil _).symm⟩
    · exact ⟨_, rfl⟩

theorem exists_found_foldl_eq_append (cs : List Symbol) :
    ∃ more, (cs.foldl (Round.visit i ls name want) r).found = r.found ++ more := by
  induction cs generalizing r with
  | nil => exact ⟨[], (List.append_nil _).symm⟩
  | cons c cs ih =>
      obtain ⟨later, hlater⟩ := ih (r := Round.visit i ls name want r c)
      obtain ⟨here, hhere⟩ : ∃ more, (Round.visit i ls name want r c).found = r.found ++ more :=
        exists_found_visit_eq_append
      exact ⟨here ++ later, by rw [List.foldl_cons, hlater, hhere, List.append_assoc]⟩

/-- Classifiers that were not seen offer what each declares. -/
theorem found_foldl_eq_flatMap {cs : List Symbol} (hcs : ∀ x ∈ cs, x.kind ≠ .typeAlias)
    (hunseen : ∀ x ∈ cs, x.handle ∉ r.seen) (hnodup : (cs.map Symbol.handle).Nodup) :
    (cs.foldl (Round.visit i ls name want) r).found =
      r.found ++ cs.flatMap (directMembersNamed i · name want) := by
  induction cs generalizing r with
  | nil => simp
  | cons c cs ih =>
      rw [List.map_cons, List.nodup_cons] at hnodup
      rw [List.foldl_cons, visit_of_not_mem (hcs c (by simp)) (hunseen c (by simp)),
        ih (fun x hx => hcs x (List.mem_cons_of_mem c hx)) (fun x hx hmem => ?_) hnodup.2,
        List.flatMap_cons, List.append_assoc]
      rcases List.mem_cons.1 hmem with h | h
      · exact hnodup.1 (h ▸ List.mem_map_of_mem hx)
      · exact hunseen x (List.mem_cons_of_mem c hx) h

/-- The next round is made of supertypes of this one. -/
theorem mem_next_foldl {cs : List Symbol} (hcs : ∀ x ∈ cs, x.kind ≠ .typeAlias) {y : Symbol}
    (h : y ∈ (cs.foldl (Round.visit i ls name want) r).next) :
    y ∈ r.next ∨ ∃ x ∈ cs, y ∈ supertypesOf i ls x := by
  induction cs generalizing r with
  | nil => exact .inl h
  | cons c cs ih =>
      rw [List.foldl_cons] at h
      rcases ih (fun x hx => hcs x (List.mem_cons_of_mem c hx)) h with h | ⟨x, hx, hy⟩
      · by_cases hseen : c.handle ∈ r.seen
        · rw [visit_of_mem (hcs c (by simp)) hseen] at h
          exact .inl h
        · rw [visit_of_not_mem (hcs c (by simp)) hseen] at h
          exact (List.mem_append.1 h).imp_right fun hy => ⟨c, by simp, hy⟩
      · exact .inr ⟨x, List.mem_cons_of_mem c hx, hy⟩

end Visit

/-! ### The first rounds -/

/-- What a round makes of its classifiers. -/
def roundOf (i : Index) (ls : Levels) (name : String) (want : Want) (seen : List Handle)
    (cs : List Symbol) : Round :=
  cs.foldl (Round.visit i ls name want) ⟨seen, [], []⟩

section Rounds

variable {height : Nat} {c : Symbol}

theorem membersFrom_of_found {seen : List Handle} {cs : List Symbol}
    (h : (roundOf i (levels i height) name want seen cs).found ≠ []) :
    membersFrom i name want (levels i (height + 1)) seen cs =
      (roundOf i (levels i height) name want seen cs).found := by
  cases cs with
  | nil => exact absurd rfl h
  | cons c cs =>
      rw [roundOf] at h ⊢
      rw [levels, membersFrom]
      split
      · next e => exact absurd e h
      · rfl

theorem membersFrom_of_found_eq_nil {seen : List Handle} {cs : List Symbol}
    (h : (roundOf i (levels i height) name want seen cs).found = []) :
    membersFrom i name want (levels i (height + 1)) seen cs =
      membersFrom i name want (levels i height) (roundOf i (levels i height) name want seen cs).seen
        (roundOf i (levels i height) name want seen cs).next := by
  cases cs with
  | nil => cases height <;> rfl
  | cons c cs =>
      rw [roundOf] at h
      rw [levels, membersFrom, h]
      rfl

theorem roundOf_singleton (hc : c.kind ≠ .typeAlias) :
    roundOf i (levels i height) name want [] [c] =
      ⟨[c.handle], directMembersNamed i c name want, supertypesOf i (levels i height) c⟩ :=
  visit_of_not_mem hc (by simp)

/-- What a classifier declares itself hides what it inherits. -/
theorem membersNamed_of_direct (hc : c.kind ≠ .typeAlias)
    (h : directMembersNamed i c name want ≠ []) :
    membersNamed i (levels i (height + 1)) c name want = directMembersNamed i c name want := by
  rw [membersNamed, membersFrom_of_found (by rwa [roundOf_singleton hc]), roundOf_singleton hc]

/-- A classifier that does not declare the member offers what its supertypes do. -/
theorem membersNamed_of_inherited (hc : c.kind ≠ .typeAlias)
    (h : directMembersNamed i c name want = []) :
    membersNamed i (levels i (height + 1)) c name want =
      membersFrom i name want (levels i height) [c.handle]
        (supertypesOf i (levels i height) c) := by
  rw [membersNamed, membersFrom_of_found_eq_nil (by rwa [roundOf_singleton hc]),
    roundOf_singleton hc]

/-- What the first classifier of a round declares comes before what the others do. -/
theorem exists_membersFrom_eq_append {seen : List Handle} {cs : List Symbol}
    (hc : c.kind ≠ .typeAlias) (hseen : c.handle ∉ seen)
    (h : directMembersNamed i c name want ≠ []) :
    ∃ more, membersFrom i name want (levels i (height + 1)) seen (c :: cs) =
      directMembersNamed i c name want ++ more := by
  obtain ⟨more, hfound⟩ : ∃ more, (roundOf i (levels i height) name want seen (c :: cs)).found =
      directMembersNamed i c name want ++ more := by
    rw [roundOf, List.foldl_cons, visit_of_not_mem hc hseen]
    exact exists_found_foldl_eq_append cs
  refine ⟨more, ?_⟩
  rw [membersFrom_of_found (by simp [hfound, h]), hfound]

/-- What the first supertype declares comes before what else is inherited. -/
theorem exists_membersNamed_eq_append {s : Symbol} {others : List Symbol}
    (hc : c.kind ≠ .typeAlias) (hdirect : directMembersNamed i c name want = [])
    (hsupertypes : supertypesOf i (levels i (height + 1)) c = s :: others)
    (h : directMembersNamed i s name want ≠ []) :
    ∃ more, membersNamed i (levels i (height + 2)) c name want =
      membersNamed i (levels i (height + 2)) s name want ++ more := by
  have hs : s.kind ≠ .typeAlias := kind_ne_of_mem_supertypesOf (by rw [hsupertypes]; simp)
  have hunseen : s.handle ∉ [c.handle] := by
    intro hmem
    -- what is declared depends on the handle only
    rw [directMembersNamed, List.mem_singleton.1 hmem] at h
    exact h hdirect
  rw [membersNamed_of_inherited hc hdirect, hsupertypes, membersNamed_of_direct hs h]
  exact exists_membersFrom_eq_append hs hunseen h

end Rounds

/-! ### Searches side by side -/

/-- Neither the classifier nor one above it is the given one, and the supertypes of each are the
same with one level more, as far up as the levels reach. -/
def Steady (i : Index) (below : Handle) : Nat → Symbol → Prop
  | 0, _ => True
  | height + 1, c => c.handle ≠ below ∧
      supertypesOf i (levels i height) c = supertypesOf i (levels i (height + 1)) c ∧
      ∀ s ∈ supertypesOf i (levels i height) c, Steady i below height s

section Steady

variable {ls ls' : Levels} {below : Handle}

/-- The round after one more classifier was seen. -/
def Round.having (r : Round) (below : Handle) : Round := { r with seen := r.seen ++ [below] }

/-- Two searches that differ in a classifier that was seen look at another one alike. -/
theorem visit_having {r : Round} {c : Symbol} (hc : c.kind ≠ .typeAlias) (hne : c.handle ≠ below)
    (hsupertypes : supertypesOf i ls c = supertypesOf i ls' c) :
    Round.visit i ls name want (r.having below) c =
      (Round.visit i ls' name want r c).having below := by
  by_cases hseen : c.handle ∈ r.seen
  · rw [visit_of_mem hc (List.mem_append_left _ hseen), visit_of_mem hc hseen]
  · have hunseen : c.handle ∉ (r.having below).seen := by simp [Round.having, hseen, hne]
    rw [visit_of_not_mem hc hunseen, visit_of_not_mem hc hseen, hsupertypes]
    rfl

theorem foldl_visit_having {r : Round} {cs : List Symbol}
    (h : ∀ c ∈ cs, c.kind ≠ .typeAlias ∧ c.handle ≠ below ∧
      supertypesOf i ls c = supertypesOf i ls' c) :
    cs.foldl (Round.visit i ls name want) (r.having below) =
      (cs.foldl (Round.visit i ls' name want) r).having below := by
  induction cs generalizing r with
  | nil => rfl
  | cons c cs ih =>
      obtain ⟨hc, hne, hsupertypes⟩ := h c (by simp)
      rw [List.foldl_cons, List.foldl_cons, visit_having hc hne hsupertypes,
        ih fun x hx => h x (List.mem_cons_of_mem c hx)]

/-- **Searches side by side.**  What is found after a classifier was seen is found with one level
more without it. -/
theorem membersFrom_eq_of_steady {height : Nat} {seen : List Handle} {cs : List Symbol}
    (h : ∀ c ∈ cs, c.kind ≠ .typeAlias ∧ Steady i below height c)
    (hfound : membersFrom i name want (levels i height) (seen ++ [below]) cs ≠ []) :
    membersFrom i name want (levels i (height + 1)) seen cs =
      membersFrom i name want (levels i height) (seen ++ [below]) cs := by
  induction height generalizing seen cs with
  | zero => exact absurd rfl hfound
  | succ height ih =>
      have hround : roundOf i (levels i height) name want (seen ++ [below]) cs =
          (roundOf i (levels i (height + 1)) name want seen cs).having below :=
        foldl_visit_having (r := ⟨seen, [], []⟩)
          fun c hc => ⟨(h c hc).1, (h c hc).2.1, (h c hc).2.2.1⟩
      have hfoundRound : (roundOf i (levels i height) name want (seen ++ [below]) cs).found =
          (roundOf i (levels i (height + 1)) name want seen cs).found := by
        rw [hround]
        rfl
      by_cases hnone : (roundOf i (levels i (height + 1)) name want seen cs).found = []
      · have hnext : membersFrom i name want (levels i (height + 1)) (seen ++ [below]) cs =
            membersFrom i name want (levels i height)
              ((roundOf i (levels i (height + 1)) name want seen cs).seen ++ [below])
              (roundOf i (levels i (height + 1)) name want seen cs).next := by
          rw [membersFrom_of_found_eq_nil (hfoundRound.trans hnone), hround]
          rfl
        rw [hnext] at hfound ⊢
        rw [membersFrom_of_found_eq_nil hnone]
        refine ih (fun y hy => ?_) hfound
        rcases mem_next_foldl (fun c hc => (h c hc).1) hy with hy | ⟨c, hc, hy⟩
        · cases hy
        · refine ⟨kind_ne_of_mem_supertypesOf hy, (h c hc).2.2.2 y ?_⟩
          rwa [(h c hc).2.2.1]
      · rw [membersFrom_of_found hnone, membersFrom_of_found (by rwa [hfoundRound]), hfoundRound]

/-- The only supertype offers what the classifier below it inherits. -/
theorem membersNamed_eq_of_steady {height : Nat} {c s : Symbol} (hc : c.kind ≠ .typeAlias)
    (hdirect : directMembersNamed i c name want = [])
    (hsupertypes : supertypesOf i (levels i height) c = [s])
    (hsteady : Steady i c.handle height s)
    (hfound : membersNamed i (levels i (height + 1)) c name want ≠ []) :
    membersNamed i (levels i (height + 1)) s name want =
      membersNamed i (levels i (height + 1)) c name want := by
  have hs : s.kind ≠ .typeAlias := kind_ne_of_mem_supertypesOf (by rw [hsupertypes]; simp)
  have hinherited : membersNamed i (levels i (height + 1)) c name want =
      membersFrom i name want (levels i height) [c.handle] [s] := by
    rw [membersNamed_of_inherited hc hdirect, hsupertypes]
  rw [hinherited] at hfound ⊢
  exact membersFrom_eq_of_steady (by simpa using ⟨hs, hsteady⟩) hfound

end Steady

end Crossref.Resolve
