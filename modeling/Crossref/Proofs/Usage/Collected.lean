import Crossref.Usage.Collect

/-!
# Proofs — usages — what a run keeps

A run that nobody cancels asks its questions along the itinerary and keeps what passes the filter
until the cap is reached.  Which questions come first does not depend on what was kept, so a run
keeps the beginning of one list, filtered: `recordedAlong`, all that is recorded at the visits, one
after the other.  The cap is looked at before a visit and at each usage that it records; both come
to taking the beginning of the list.

* `run_uncancelled`: a run adds to what was kept the first usages that pass the filter.
* `collect_takes_of_filtered`: the cap and the filter take the beginning of one filtered list.
-/

namespace Crossref.Usage

variable {σ : Type}

/-- The watch of a run that nobody cancels. -/
def Watch.never (interval : Nat) : Watch σ := ⟨fun _ => false, interval⟩

/-- All that is recorded at the visits, one after the other; the state moves on from visit to
visit. -/
def recordedAlong (session : Session σ) : List Visit → σ → List Usage
  | [], _ => []
  | v :: vs, s =>
    let (new, s') := record session v s
    new ++ recordedAlong session vs s'

theorem recordedAlong_cons (session : Session σ) (v : Visit) (vs : List Visit) (s : σ) :
    recordedAlong session (v :: vs) s =
      (record session v s).1 ++ recordedAlong session vs (record session v s).2 := rfl

/-- What is recorded along the visits is recorded at one of them. -/
theorem exists_visit_of_mem_recordedAlong {session : Session σ} {u : Usage} :
    ∀ {vs : List Visit} {s : σ}, u ∈ recordedAlong session vs s →
      ∃ v ∈ vs, ∃ s', u ∈ (record session v s').1
  | [], _, h => by cases h
  | v :: vs, s, h => by
      rw [recordedAlong_cons] at h
      rcases List.mem_append.1 h with h | h
      · exact ⟨v, List.mem_cons_self, s, h⟩
      · obtain ⟨w, hw, hu⟩ := exists_visit_of_mem_recordedAlong h
        exact ⟨w, List.mem_cons_of_mem v hw, hu⟩

/-! ### A run -/

/-- What is kept of new usages and then of others is what is kept of both together. -/
theorem extend_append (l : Limits) (kept new others : List Usage) :
    extend l kept (new ++ others) =
      extend l kept new ++ ((others.filter l.keeps).take (l.cap - (extend l kept new).length)) := by
  simp only [extend, List.filter_append, List.take_append, List.append_assoc, List.length_append,
    List.length_take]
  congr 3
  omega

/-- At the cap nothing is added. -/
theorem extend_of_cap_le {l : Limits} {kept : List Usage} (h : l.cap ≤ kept.length)
    (new : List Usage) : extend l kept new = kept := by
  simp [extend, Nat.sub_eq_zero_of_le h]

/-- **A run adds to what was kept the first usages that pass the filter**: it stops early only
where nothing more could be added. -/
theorem run_uncancelled (session : Session σ) (l : Limits) (interval : Nat) :
    ∀ (vs : List Visit) (visited : Nat) (kept : List Usage) (s : σ),
      (run session l (.never interval) vs visited kept s).1 =
        some (extend l kept (recordedAlong session vs s))
  | [], visited, kept, s => by
      have hnone : extend l kept [] = kept := by simp [extend]
      rw [recordedAlong, hnone]
      rfl
  | v :: vs, visited, kept, s => by
      rw [run]
      by_cases hcap : l.cap ≤ kept.length
      · -- the run stops here, and nothing that is recorded later would be kept
        rw [if_pos hcap, extend_of_cap_le hcap]
        rfl
      · rw [if_neg hcap, recordedAlong_cons, extend_append]
        have hgo : ((Watch.never interval : Watch σ).isDue (visited + 1) &&
            (Watch.never interval : Watch σ).cancelled s) = false := by
          simp [Watch.never]
        simp only [hgo, Bool.false_eq_true, if_false]
        exact run_uncancelled session l interval vs (visited + 1) _ _

/-- What a run collects that nobody cancels. -/
theorem collect_uncancelled (session : Session σ) (l : Limits) (interval : Nat) (n : Node)
    (s : σ) :
    (collect session l (.never interval) n s).1 =
      .ok (((recordedAlong session (itinerary n) s).filter l.keeps).take l.cap) := by
  have hrun := run_uncancelled session l interval (itinerary n) 0 [] s
  unfold collect
  split
  · next h => cases h
  · split
    · next h => rw [h] at hrun; cases hrun
    · next kept s' h =>
      rw [h] at hrun
      obtain rfl := Option.some.inj hrun
      split
      · next hc => cases hc
      · simp [extend]

/-! ### A run that may be cancelled -/

theorem extend_eq_append (l : Limits) (kept new : List Usage) :
    ∃ more, extend l kept new = kept ++ more ∧ more.Sublist new :=
  ⟨_, rfl, (List.take_sublist _ _).trans List.filter_sublist⟩

/-- A run that is not found cancelled adds to what was kept the first usages that pass the
filter. -/
theorem eq_extend_of_run {session : Session σ} {l : Limits} {w : Watch σ} {usages : List Usage} :
    ∀ {vs : List Visit} {visited : Nat} {kept : List Usage} {s : σ},
      (run session l w vs visited kept s).1 = some usages →
      usages = extend l kept (recordedAlong session vs s)
  | [], _, kept, s, h => by
      obtain rfl : kept = usages := Option.some.inj h
      simp [recordedAlong, extend]
  | v :: vs, visited, kept, s, h => by
      rw [run] at h
      split at h
      · next hcap =>
        obtain rfl : kept = usages := Option.some.inj h
        rw [extend_of_cap_le hcap]
      · dsimp only at h
        split at h
        · cases h
        · rw [eq_extend_of_run h, recordedAlong_cons, extend_append]
          rfl

/-- A run that is not found cancelled adds some of what is recorded, in its order. -/
theorem sublist_of_run {session : Session σ} {l : Limits} {w : Watch σ} {usages : List Usage}
    {vs : List Visit} {visited : Nat} {kept : List Usage} {s : σ}
    (h : (run session l w vs visited kept s).1 = some usages) :
    ∃ more, usages = kept ++ more ∧ more.Sublist (recordedAlong session vs s) := by
  rw [eq_extend_of_run h]
  exact extend_eq_append l kept (recordedAlong session vs s)

/-- **Whatever a run collects is some of what is recorded along the itinerary, in its order.** -/
theorem sublist_of_collect {session : Session σ} {l : Limits} {w : Watch σ} {n : Node} {s : σ}
    {usages : List Usage} (h : (collect session l w n s).1 = .ok usages) :
    usages.Sublist (recordedAlong session (itinerary n) s) := by
  unfold collect at h
  split at h
  · cases h
  · split at h
    · cases h
    · next kept s' hrun =>
      split at h
      · cases h
      · cases h
        obtain ⟨more, rfl, hmore⟩ := sublist_of_run (congrArg Prod.fst hrun)
        exact hmore

/-! ### The cap and the filter -/

/-- **The cap and the filter take the beginning of one filtered list**, whatever the session
answers: the list is what is collected with local reads and without a cap.  So no more usages are
returned than the cap allows, reads that are dropped use up nothing of it, and a smaller cap gives
a beginning of what a greater one gives. -/
theorem collect_takes_of_filtered (session : Session σ) (interval : Nat) (n : Node) (s : σ) :
    ∃ all : List Usage,
      (∀ cap, all.length ≤ cap →
        (collect session ⟨cap, true⟩ (.never interval) n s).1 = .ok all) ∧
      ∀ (cap : Nat) (keepLocalReads : Bool),
        ∃ usages, (collect session ⟨cap, keepLocalReads⟩ (.never interval) n s).1 = .ok usages ∧
          usages = (all.filter fun u => keepLocalReads || !u.isLowSignal).take cap ∧
          usages.length = min cap (all.countP fun u => keepLocalReads || !u.isLowSignal) ∧
          ∀ more, cap ≤ more → ∃ others,
            (collect session ⟨more, keepLocalReads⟩ (.never interval) n s).1 = .ok others ∧
              usages <+: others := by
  refine ⟨recordedAlong session (itinerary n) s, fun cap hcap => ?_, fun cap keep => ?_⟩
  · have hall : (recordedAlong session (itinerary n) s).filter
        (Limits.keeps ⟨cap, true⟩) = recordedAlong session (itinerary n) s :=
      List.filter_eq_self.2 fun u _ => rfl
    rw [collect_uncancelled, hall, List.take_of_length_le hcap]
  · refine ⟨_, collect_uncancelled session ⟨cap, keep⟩ interval n s, rfl, ?_, fun more hle => ?_⟩
    · rw [List.length_take, List.countP_eq_length_filter]
      rfl
    · refine ⟨_, collect_uncancelled session ⟨more, keep⟩ interval n s, ?_⟩
      exact List.take_prefix_take_left hle

end Crossref.Usage
