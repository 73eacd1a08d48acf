import Crossref.Proofs.Usage.Collected
import Crossref.Proofs.Usage.Walk

/-!
# Proofs — usages — a run as a descent

A run can also be told without an itinerary: a visit records what is used at its node and then
visits what the walk goes on with, one after the other, and each usage is looked at on its own.  A
visit at the cap does nothing, and after a visit that finds the run cancelled there is no other.
Such a descent looks for cancellation at the same visits as a run over the itinerary, asks the same
questions and keeps the same usages: stopping early cuts the itinerary off and never changes it.

* `foldl_offer`: usages that are looked at one by one are kept as all of them together.
* `collect_eq_descent`: a run over the itinerary is a descent.
-/

namespace Crossref.Usage

variable {σ : Type}

/-! ### Usages one by one -/

/-- One more usage, kept if it fits and passes the filter. -/
def offer (l : Limits) (kept : List Usage) (u : Usage) : List Usage :=
  if l.cap ≤ kept.length then kept else if l.keeps u then kept ++ [u] else kept

theorem offer_eq (l : Limits) (kept : List Usage) (u : Usage) :
    offer l kept u = extend l kept [u] := by
  by_cases hcap : l.cap ≤ kept.length
  · rw [offer, if_pos hcap, extend_of_cap_le hcap]
  · obtain ⟨room, hroom⟩ : ∃ room, l.cap - kept.length = room + 1 :=
      Nat.exists_eq_add_one.2 (by omega)
    rw [offer, if_neg hcap, extend, hroom]
    by_cases hk : l.keeps u = true
    · rw [if_pos hk, List.filter_cons_of_pos hk, List.take_succ_cons, List.filter_nil,
        List.take_nil]
    · rw [if_neg hk, List.filter_cons_of_neg hk, List.filter_nil, List.take_nil, List.append_nil]

/-- **Usages that are looked at one by one are kept as all of them together.** -/
theorem foldl_offer (l : Limits) (new kept : List Usage) :
    new.foldl (offer l) kept = extend l kept new := by
  induction new generalizing kept with
  | nil => simp [extend]
  | cons u new ih =>
      rw [List.foldl_cons, ih, offer_eq]
      exact (extend_append l kept [u] new).symm

/-! ### The descent -/

/-- What a descent has so far. -/
structure Progress where
  /-- The number of visits. -/
  visited : Nat
  kept : List Usage

/-- The visits that a visit goes on with. -/
def nextVisits (v : Visit) : List Visit :=
  (nextNodes v.node).map fun m => ⟨m, v.inDelegate || v.node.kind == "property_delegate"⟩

/-- The walk goes on with lower trees. -/
theorem height_lt_of_mem_nextVisits {v u : Visit} (h : u ∈ nextVisits v) :
    u.node.tree.height < v.node.tree.height := by
  obtain ⟨m, hm, rfl⟩ := List.mem_map.1 h
  exact nextNodes_height_lt hm

/-- One step after the other, as long as the run goes on. -/
def each {α : Type} (step : α → Progress → StateM σ (Option Progress)) :
    List α → Progress → StateM σ (Option Progress)
  | [], p => fun s => (some p, s)
  | a :: as, p => fun s =>
    match step a p s with
    | (none, s') => (none, s')
    | (some p', s') => each step as p' s'

theorem each_cons {α : Type} (step : α → Progress → StateM σ (Option Progress)) (a : α)
    (as : List α) (p : Progress) (s : σ) :
    each step (a :: as) p s =
      match step a p s with
      | (none, s') => (none, s')
      | (some p', s') => each step as p' s' := rfl

theorem each_map {α β : Type} (step : β → Progress → StateM σ (Option Progress)) (f : α → β)
    (as : List α) : each step (as.map f) = each (fun a => step (f a)) as := by
  induction as with
  | nil => rfl
  | cons a as ih =>
      funext p s
      rw [List.map_cons, each_cons, each_cons, ih]

/-- A visit, and after it the visits below it. -/
def descend (session : Session σ) (l : Limits) (w : Watch σ) (v : Visit) (p : Progress) :
    StateM σ (Option Progress) := fun s =>
  if l.cap ≤ p.kept.length then (some p, s)
  else if w.isDue (p.visited + 1) && w.cancelled s then (none, s)
  else
    let (new, s') := record session v s
    each (fun u : { u // u ∈ nextVisits v } => descend session l w u.1) (nextVisits v).attach
      ⟨p.visited + 1, new.foldl (offer l) p.kept⟩ s'
termination_by v.node.tree.height
decreasing_by exact height_lt_of_mem_nextVisits u.2

/-- The usages in the declaration at a node, by a descent through it and through the accessors
beside it. -/
def descent (session : Session σ) (l : Limits) (w : Watch σ) (n : Node) :
    StateM σ (Except ExtractError (List Usage)) := fun s =>
  if w.cancelled s then (.error .cancelled, s)
  else
    match each (fun m => descend session l w ⟨m, false⟩) (itineraryTops n) ⟨0, []⟩ s with
    | (none, s') => (.error .cancelled, s')
    | (some p, s') => if w.cancelled s' then (.error .cancelled, s') else (.ok p.kept, s')

/-! ### Runs and descents -/

section Run

variable (session : Session σ) (l : Limits) (w : Watch σ)

/-- One step of the descent: the cap, the flag, the visit, and the visits that come of it. -/
theorem descend_eq (v : Visit) (p : Progress) (s : σ) :
    descend session l w v p s =
      if l.cap ≤ p.kept.length then (some p, s)
      else if w.isDue (p.visited + 1) && w.cancelled s then (none, s)
      else
        each (descend session l w) (nextVisits v)
          ⟨p.visited + 1, extend l p.kept (record session v s).1⟩ (record session v s).2 := by
  have hbelow : each (fun u : { u // u ∈ nextVisits v } => descend session l w u.1)
      (nextVisits v).attach = each (descend session l w) (nextVisits v) := by
    rw [← each_map (descend session l w) Subtype.val, List.attach_map_subtype_val]
  rw [descend]
  simp only [foldl_offer, hbelow]
  rfl

/-- A run over the remaining visits, from where a descent ends. -/
def resume (rest : List Visit) : Option Progress × σ → Option (List Usage) × σ
  | (none, s) => (none, s)
  | (some p, s) => run session l w rest p.visited p.kept s

/-- A run that has reached its cap ends with what it has. -/
theorem run_of_cap_le {kept : List Usage} (h : l.cap ≤ kept.length) (vs : List Visit)
    (visited : Nat) (s : σ) : run session l w vs visited kept s = (some kept, s) := by
  cases vs with
  | nil => rfl
  | cons v vs => rw [run, if_pos h]; rfl

/-- A run over lists of visits, where the run over each list is a step. -/
theorem run_flatMap {α : Type} {visits : α → List Visit}
    {step : α → Progress → StateM σ (Option Progress)} {as : List α}
    (hstep : ∀ a ∈ as, ∀ (rest : List Visit) (p : Progress) (s : σ),
      run session l w (visits a ++ rest) p.visited p.kept s =
        resume session l w rest (step a p s))
    (rest : List Visit) (p : Progress) (s : σ) :
    run session l w (as.flatMap visits ++ rest) p.visited p.kept s =
      resume session l w rest (each step as p s) := by
  induction as generalizing p s with
  | nil => rfl
  | cons a as ih =>
      rw [List.flatMap_cons, List.append_assoc, hstep a List.mem_cons_self, each_cons]
      rcases step a p s with ⟨_ | p', s'⟩
      · rfl
      · exact ih (fun b hb => hstep b (List.mem_cons_of_mem a hb)) p' s'

/-- The visits of a walk are the node and those of what comes below it. -/
theorem visitsWith_succ (fuel : Nat) (v : Visit) :
    visitsWith (fuel + 1) v = v :: (nextVisits v).flatMap (visitsWith fuel) := by
  rw [visitsWith, nextVisits, List.flatMap_map]

/-- **A run over the visits below a node goes on from where the descent ends.**  The induction is
on the bound of the itinerary, which the height of the tree keeps from being reached. -/
theorem run_visitsWith :
    ∀ {fuel : Nat} {v : Visit}, v.node.tree.height ≤ fuel →
      ∀ (rest : List Visit) (p : Progress) (s : σ),
        run session l w (visitsWith fuel v ++ rest) p.visited p.kept s =
          resume session l w rest (descend session l w v p s)
  | 0, ⟨⟨.node _ _, _⟩, _⟩, h, _, _, _ => by simp [Tree.height] at h
  | fuel + 1, v, h, rest, p, s => by
      rw [visitsWith_succ, List.cons_append, descend_eq]
      by_cases hcap : l.cap ≤ p.kept.length
      · -- all remaining visits do nothing
        rw [if_pos hcap, run_of_cap_le session l w hcap, resume,
          run_of_cap_le session l w hcap]
      · rw [run, if_neg hcap, if_neg hcap]
        by_cases hstop : (w.isDue (p.visited + 1) && w.cancelled s) = true
        · simp only [if_pos hstop]
          rfl
        · simp only [if_neg hstop]
          have hstep : ∀ u ∈ nextVisits v, ∀ (rest : List Visit) (p : Progress) (s : σ),
              run session l w (visitsWith fuel u ++ rest) p.visited p.kept s =
                resume session l w rest (descend session l w u p s) := by
            intro u hu
            have hlt := Nat.lt_of_lt_of_le (height_lt_of_mem_nextVisits hu) h
            exact run_visitsWith (Nat.le_of_lt_succ hlt)
          exact run_flatMap session l w hstep rest
            ⟨p.visited + 1, extend l p.kept (record session v s).1⟩ (record session v s).2

/-- **A run over the itinerary is a descent**: it looks for cancellation at the same visits, asks
the same questions in the same order, and keeps the same usages. -/
theorem collect_eq_descent (n : Node) : collect session l w n = descent session l w n := by
  funext s
  have hrun := run_flatMap session l w
    (fun m (_ : m ∈ itineraryTops n) =>
      run_visitsWith session l w (v := ⟨m, false⟩) (Nat.le_refl _))
    [] ⟨0, []⟩ s
  rw [List.append_nil] at hrun
  have hitinerary : run session l w (itinerary n) 0 [] s = _ := hrun
  rw [collect, descent, hitinerary]
  rcases each (fun m => descend session l w ⟨m, false⟩) (itineraryTops n) ⟨0, []⟩ s with
    ⟨_ | p, s'⟩
  · rfl
  · rfl

end Run

end Crossref.Usage
