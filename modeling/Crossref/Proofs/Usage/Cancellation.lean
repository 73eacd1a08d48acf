import Crossref.Payload
import Crossref.Proofs.Slice.Fidelity
import Crossref.Proofs.Usage.Questions

/-!
# Proofs — usages — cancellation

A run that is cancelled while a question is asked goes on until it looks, and it looks at every
visit whose number the interval divides and once more at its end.  `handled` lists the visits whose
questions a run really asks, each with the state in which it begins.  The whole of a run is told by
this list: what it keeps, where its state ends, and that it ends in an error exactly if the state at
its end is a cancelled one.  As a flag that was set stays set, whatever the periodic looks miss is
seen by the last one; and the visits that begin after the flag was set are numbered one after the
other, so that a look comes before there are as many as the interval.

* `collect_eq_handled`: the outcome of a run is read off the visits it handles.
* `countP_cancelled_handled_le`: few visits are handled after the one that is cancelled.
* `HeedsCancellation.of_latched`: a flag that was set is never missed and is soon noticed, and one
  that never is changes nothing.
* `not_cancelled_of_build`: a payload is only built if the flag was never set.
-/

namespace Crossref.Usage

variable {σ : Type}

/-! ### The visits that are handled -/

/-- The visits that a run handles, each with the state in which it begins. -/
def handled (session : Session σ) (l : Limits) (w : Watch σ) :
    List Visit → Nat → List Usage → σ → List (Visit × σ)
  | [], _, _, _ => []
  | v :: vs, visited, kept, s =>
    if l.cap ≤ kept.length then []
    else if w.isDue (visited + 1) && w.cancelled s then []
    else
      (v, s) :: handled session l w vs (visited + 1) (extend l kept (record session v s).1)
        (record session v s).2

/-- The visits that are handled while the usages in the declaration at a node are collected. -/
def handledBelow (session : Session σ) (l : Limits) (w : Watch σ) (n : Node) (s : σ) :
    List (Visit × σ) :=
  if w.cancelled s then [] else handled session l w (itinerary n) 0 [] s

/-- The usages kept after the handled visits. -/
def keptFrom (session : Session σ) (l : Limits) (kept : List Usage) (made : List (Visit × σ)) :
    List Usage :=
  made.foldl (fun kept h => extend l kept (record session h.1 h.2).1) kept

/-- The questions of the handled visits, one after the other. -/
def asked (f : SourceFile) (made : List (Visit × σ)) : List Question :=
  made.flatMap fun h => questions f h.1

/-- The state after the questions of the handled visits. -/
def stateAfter (session : Session σ) (made : List (Visit × σ)) (s : σ) : σ :=
  (asked session.file made).foldl session.after s

section Run

variable (session : Session σ) (l : Limits) (w : Watch σ)

theorem stateAfter_cons (v : Visit) (made : List (Visit × σ)) (s : σ) :
    stateAfter session ((v, s) :: made) s =
      stateAfter session made (record session v s).2 := by
  rw [record_state, stateAfter, asked, List.flatMap_cons, List.foldl_append]
  rfl

/-- A run keeps what its handled visits leave and ends in their state, unless it is found
cancelled: then it ends in a cancelled state. -/
theorem run_eq_handled (vs : List Visit) (visited : Nat) (kept : List Usage) (s : σ) :
    let made := handled session l w vs visited kept s
    run session l w vs visited kept s = (some (keptFrom session l kept made),
      stateAfter session made s) ∨
      (run session l w vs visited kept s = (none, stateAfter session made s) ∧
        w.cancelled (stateAfter session made s) = true) := by
  induction vs generalizing visited kept s with
  | nil => exact .inl rfl
  | cons v vs ih =>
      rw [run, handled]
      by_cases hcap : l.cap ≤ kept.length
      · rw [if_pos hcap, if_pos hcap]
        exact .inl rfl
      · rw [if_neg hcap, if_neg hcap]
        by_cases hstop : (w.isDue (visited + 1) && w.cancelled s) = true
        · -- the look finds the run cancelled in the state that the visit would begin in
          simp only [if_pos hstop]
          exact .inr ⟨rfl, (Bool.and_eq_true_iff.1 hstop).2⟩
        · simp only [if_neg hstop]
          rw [stateAfter_cons]
          exact ih (visited + 1) (extend l kept (record session v s).1) (record session v s).2

/-- **The outcome of a run is read off the visits it handles**: the usages that they leave, and an
error exactly if the state that their questions lead to is a cancelled one. -/
theorem collect_eq_handled (n : Node) (s : σ) :
    let made := handledBelow session l w n s
    let last := stateAfter session made s
    collect session l w n s =
      (if w.cancelled last then .error .cancelled else .ok (keptFrom session l [] made), last) := by
  by_cases hs : w.cancelled s = true
  · have hmade : handledBelow session l w n s = [] := if_pos hs
    rw [hmade, collect_of_cancelled hs]
    exact Prod.ext (if_pos hs).symm rfl
  · have hmade : handledBelow session l w n s = handled session l w (itinerary n) 0 [] s :=
      if_neg hs
    rw [hmade, collect, if_neg hs]
    dsimp only
    rcases run_eq_handled session l w (itinerary n) 0 [] s with h | ⟨h, hlast⟩
    · rw [h]
      dsimp only
      split
      · rfl
      · rfl
    · rw [h, if_pos hlast]

/-- A visit begins in the state that the visits before it leave. -/
theorem begins_of_handled {vs : List Visit} {visited : Nat} {kept : List Usage} {s : σ}
    {before behind : List (Visit × σ)} {h : Visit × σ}
    (hsplit : handled session l w vs visited kept s = before ++ h :: behind) :
    h.2 = stateAfter session before s := by
  induction vs generalizing visited kept s before with
  | nil => simp [handled] at hsplit
  | cons v vs ih =>
      rw [handled] at hsplit
      split at hsplit
      · simp at hsplit
      · split at hsplit
        · simp at hsplit
        · cases before with
          | nil =>
              obtain ⟨rfl, -⟩ := List.cons.inj hsplit
              rfl
          | cons first before =>
              obtain ⟨rfl, hrest⟩ := List.cons.inj hsplit
              rw [stateAfter_cons]
              exact ih hrest

/-- No visit is skipped. -/
theorem map_handled_isPrefix (vs : List Visit) (visited : Nat) (kept : List Usage) (s : σ) :
    (handled session l w vs visited kept s).map Prod.fst <+: vs := by
  induction vs generalizing visited kept s with
  | nil => exact List.nil_prefix
  | cons v vs ih =>
      rw [handled]
      split
      · exact List.nil_prefix
      · split
        · exact List.nil_prefix
        · rw [List.map_cons, List.prefix_cons_inj]
          exact ih (visited + 1) _ _

/-! ### A flag that stays set -/

/-- A flag that is set stays set, whatever is asked. -/
def Watch.Latched : Prop :=
  ∀ (q : Question) (s : σ), w.cancelled s = true → w.cancelled (session.after s q) = true

variable {session l w}

theorem Watch.Latched.foldl (hw : w.Latched session) (qs : List Question) {s : σ}
    (hs : w.cancelled s = true) : w.cancelled (qs.foldl session.after s) = true := by
  induction qs generalizing s with
  | nil => exact hs
  | cons q qs ih => exact ih (hw q s hs)

/-- A flag that was set at any moment is set at the end. -/
theorem Watch.Latched.of_mem_moments (hw : w.Latched session) {qs : List Question} {s s' : σ}
    (hmem : s' ∈ session.moments qs s) (hs' : w.cancelled s' = true) :
    w.cancelled (qs.foldl session.after s) = true := by
  induction qs generalizing s with
  | nil =>
      obtain rfl := List.mem_singleton.1 hmem
      exact hs'
  | cons q qs ih =>
      rcases List.mem_cons.1 hmem with rfl | hmem
      · exact hw.foldl (q :: qs) hs'
      · exact ih hmem

theorem Watch.Latched.record (hw : w.Latched session) (v : Visit) {s : σ}
    (hs : w.cancelled s = true) : w.cancelled (Usage.record session v s).2 = true := by
  rw [record_state]
  exact hw.foldl _ hs

/-- Remainders go up by one until they are zero again. -/
theorem add_one_mod_of_ne_zero {a k : Nat} (hk : 0 < k) (h : (a + 1) % k ≠ 0) :
    (a + 1) % k = a % k + 1 := by
  have hsum : (a + 1) % k = (a % k + 1) % k := (Nat.mod_add_mod a k 1).symm
  have hlt := Nat.mod_lt a hk
  rcases Nat.lt_or_ge (a % k + 1) k with hin | hout
  · rw [hsum, Nat.mod_eq_of_lt hin]
  · -- the remainder was the last one
    have hlast : a % k + 1 = k := by omega
    rw [hsum, hlast, Nat.mod_self] at h
    exact absurd rfl h

/-- The visits of a cancelled run, up to the next one whose number the interval divides. -/
theorem handled_length_le (hw : w.Latched session) (vs : List Visit) (visited : Nat)
    (kept : List Usage) {s : σ} (hs : w.cancelled s = true) :
    (handled session l w vs visited kept s).length + visited % max w.interval 1
      ≤ max w.interval 1 - 1 := by
  have hpos : 0 < max w.interval 1 := by omega
  induction vs generalizing visited kept s with
  | nil =>
      have := Nat.mod_lt visited hpos
      simp only [handled, List.length_nil]
      omega
  | cons v vs ih =>
      have hlt := Nat.mod_lt visited hpos
      rw [handled]
      split
      · simp only [List.length_nil]
        omega
      · split
        · simp only [List.length_nil]
          omega
        · next hgo =>
          -- nobody looks at this visit, so that its number is no multiple of the interval
          have hdue : (visited + 1) % max w.interval 1 ≠ 0 := by
            intro hzero
            exact hgo (by simp [Watch.isDue, hzero, hs])
          have hnext : (visited + 1) % max w.interval 1 = visited % max w.interval 1 + 1 :=
            add_one_mod_of_ne_zero hpos hdue
          have := ih (visited + 1) (extend l kept (Usage.record session v s).1) (hw.record v hs)
          simp only [List.length_cons]
          omega

/-- **Few visits are handled after the one that is cancelled**: fewer than the interval begin with
the flag set. -/
theorem countP_cancelled_handled_le (hw : w.Latched session) (vs : List Visit) (visited : Nat)
    (kept : List Usage) (s : σ) :
    ((handled session l w vs visited kept s).countP fun h => w.cancelled h.2)
      ≤ max w.interval 1 - 1 := by
  induction vs generalizing visited kept s with
  | nil => simp [handled]
  | cons v vs ih =>
      by_cases hs : w.cancelled s = true
      · calc ((handled session l w (v :: vs) visited kept s).countP fun h => w.cancelled h.2)
            ≤ (handled session l w (v :: vs) visited kept s).length := List.countP_le_length
          _ ≤ max w.interval 1 - 1 :=
            Nat.le_trans (Nat.le_add_right _ _) (handled_length_le hw (v :: vs) visited kept hs)
      · rw [handled]
        split
        · simp
        · split
          · simp
          · rw [List.countP_cons, if_neg hs]
            exact ih (visited + 1) _ _

/-! ### A flag that is never set -/

/-- A run whose flag is never set handles what a run handles that nobody can cancel. -/
theorem handled_eq_handled_none {vs : List Visit} {visited : Nat} {kept : List Usage} {s : σ}
    (hs : ∀ s' ∈ session.moments (asked session.file (handled session l w vs visited kept s)) s,
      w.cancelled s' = false) :
    handled session l w vs visited kept s = handled session l .none vs visited kept s := by
  induction vs generalizing visited kept s with
  | nil => rfl
  | cons v vs ih =>
      have hstart : w.cancelled s = false := hs s (Session.start_mem_moments _ s)
      have hlook : (w.isDue (visited + 1) && w.cancelled s) = false := by
        rw [hstart, Bool.and_false]
      have hnone : ((Watch.none : Watch σ).isDue (visited + 1) &&
          (Watch.none : Watch σ).cancelled s) = false := Bool.and_false _
      rw [handled] at hs ⊢
      rw [handled]
      simp only [hlook, hnone, Bool.false_eq_true, if_false] at hs ⊢
      by_cases hcap : l.cap ≤ kept.length
      · rw [if_pos hcap, if_pos hcap]
      · rw [if_neg hcap] at hs ⊢
        rw [if_neg hcap, ih fun s' hs' => hs s' ?_]
        rw [asked, List.flatMap_cons, Session.mem_moments_append_iff, ← record_state]
        exact .inr hs'

end Run

/-! ### Runs that are cancelled -/

/-- How a run meets its cancellation. -/
structure HeedsCancellation (session : Session σ) (l : Limits) (w : Watch σ) (n : Node) (s : σ) :
    Prop where
  /-- The visits that are handled come first on the itinerary. -/
  visits : (handledBelow session l w n s).map Prod.fst <+: itinerary n
  /-- Each of them begins in the state that those before it leave. -/
  begins : ∀ before h behind, handledBelow session l w n s = before ++ h :: behind →
    h.2 = stateAfter session before s
  /-- The run ends in the state that they leave. -/
  ends : (collect session l w n s).2 = stateAfter session (handledBelow session l w n s) s
  /-- If the flag is set before the first question or after any other one, there are no usages. -/
  caught : ∀ s' ∈ session.moments (asked session.file (handledBelow session l w n s)) s,
    w.cancelled s' = true → (collect session l w n s).1 = .error .cancelled
  /-- If it never is, the run is one that nobody can cancel. -/
  undisturbed : (∀ s' ∈ session.moments (asked session.file (handledBelow session l w n s)) s,
    w.cancelled s' = false) → collect session l w n s = collect session l .none n s
  /-- Fewer visits than the interval begin with the flag set. -/
  prompt : ((handledBelow session l w n s).countP fun h => w.cancelled h.2)
    ≤ max w.interval 1 - 1

theorem handledBelow_of_cancelled {session : Session σ} {l : Limits} {w : Watch σ} {n : Node}
    {s : σ} (hs : w.cancelled s = true) : handledBelow session l w n s = [] := if_pos hs

theorem handledBelow_of_not_cancelled {session : Session σ} {l : Limits} {w : Watch σ} {n : Node}
    {s : σ} (hs : w.cancelled s = false) :
    handledBelow session l w n s = handled session l w (itinerary n) 0 [] s :=
  if_neg (by simp [hs])

/-- **A run whose flag is never set is one that nobody can cancel.** -/
theorem collect_eq_collect_none {session : Session σ} {l : Limits} {w : Watch σ} {n : Node} {s : σ}
    (hs : ∀ s' ∈ session.moments (asked session.file (handledBelow session l w n s)) s,
      w.cancelled s' = false) :
    collect session l w n s = collect session l .none n s := by
  have hstart : w.cancelled s = false := hs s (Session.start_mem_moments _ s)
  have hend : w.cancelled (stateAfter session (handledBelow session l w n s) s) = false :=
    hs _ (Session.foldl_mem_moments _ s)
  have hsame : handledBelow session l w n s = handledBelow session l .none n s := by
    rw [handledBelow_of_not_cancelled hstart] at hs ⊢
    rw [handledBelow_of_not_cancelled (w := .none) rfl]
    exact handled_eq_handled_none hs
  rw [collect_eq_handled, collect_eq_handled, ← hsame, hend]
  rfl

/-- **A run heeds a flag that stays set.** -/
theorem HeedsCancellation.of_latched {session : Session σ} {l : Limits} {w : Watch σ} {n : Node}
    {s : σ} (hw : w.Latched session) : HeedsCancellation session l w n s where
  visits := by
    cases hs : w.cancelled s with
    | true => rw [handledBelow_of_cancelled hs]; exact List.nil_prefix
    | false =>
        rw [handledBelow_of_not_cancelled hs]
        exact map_handled_isPrefix session l w (itinerary n) 0 [] s
  begins before h behind hsplit := by
    cases hs : w.cancelled s with
    | true => rw [handledBelow_of_cancelled hs] at hsplit; simp at hsplit
    | false =>
        rw [handledBelow_of_not_cancelled hs] at hsplit
        exact begins_of_handled session l w hsplit
  ends := by rw [collect_eq_handled]
  caught s' hmem hs' := by
    have hend : w.cancelled (stateAfter session (handledBelow session l w n s) s) = true :=
      hw.of_mem_moments hmem hs'
    rw [collect_eq_handled, hend]
    rfl
  undisturbed := collect_eq_collect_none
  prompt := by
    cases hs : w.cancelled s with
    | true => rw [handledBelow_of_cancelled hs]; exact Nat.zero_le _
    | false =>
        rw [handledBelow_of_not_cancelled hs]
        exact countP_cancelled_handled_le hw (itinerary n) 0 [] s

/-! ### Payloads -/

section Payloads

variable (index : Index) (f : SourceFile) (n : Node) (options : ExtractOptions) (token : Token σ)
  (s : σ)

/-- How the usages of a payload are collected. -/
def collectedFor : StateM σ (Except ExtractError (List Usage)) :=
  collect (.ofAnswers f (.ofIndex index f) token.tick)
    ⟨options.maxUsages, options.includeLocalReads⟩ ⟨token.cancelled, options.cancelCheckInterval⟩ n

/-- The moments of the run that collects the usages of a payload. -/
def momentsFor : List σ :=
  let session := Session.ofAnswers f (.ofIndex index f) token.tick
  session.moments (asked f (handledBelow session ⟨options.maxUsages, options.includeLocalReads⟩
    ⟨token.cancelled, options.cancelCheckInterval⟩ n s)) s

variable {index f n options token s}

/-- Without usages there is no payload. -/
theorem build_of_collectedFor_error {e : ExtractError}
    (h : (collectedFor index f n options token s).1 = .error e) :
    (Payload.build index f n options token s).1 = .error e := by
  revert h
  unfold Payload.build collectedFor
  dsimp only
  split
  · next e' s' hcollect =>
    rw [hcollect]
    exact fun h => congrArg Except.error (Except.error.inj h)
  · next usages s' hcollect =>
    rw [hcollect]
    exact fun h => nomatch h

/-- **A payload is only built if the flag was never set**, from before the first question to the
end. -/
theorem not_cancelled_of_build {payload : Payload}
    (htick : ∀ s, token.cancelled s = true → token.cancelled (token.tick s) = true)
    (h : (Payload.build index f n options token s).1 = .ok payload) :
    token.cancelled (Payload.build index f n options token s).2 = false ∧
      ∀ s' ∈ momentsFor index f n options token s, token.cancelled s' = false := by
  have hw : Watch.Latched (.ofAnswers f (.ofIndex index f) token.tick)
      ⟨token.cancelled, options.cancelCheckInterval⟩ := by
    rintro (_ | _ | _ | _) s' hs' <;> exact htick s' hs'
  constructor
  · refine Bool.eq_false_iff.2 fun hend => ?_
    obtain ⟨e, he⟩ := Payload.build_of_cancelled hend
    rw [he] at h
    cases h
  · intro s' hmem
    refine Bool.eq_false_iff.2 fun hs' => ?_
    have hcaught := (HeedsCancellation.of_latched hw).caught s' hmem hs'
    rw [build_of_collectedFor_error hcaught] at h
    cases h

end Payloads

/-- **Cancellation is never lost and is prompt**, in every run that looks at a flag which stays set,
whatever its session answers and whenever it sets the flag; and no payload is built while the flag
is set. -/
theorem cancellation_heeded (σ : Type) :
    (∀ (session : Session σ) (l : Limits) (w : Watch σ) (n : Node) (s : σ),
      w.Latched session → HeedsCancellation session l w n s) ∧
    ∀ (index : Index) (f : SourceFile) (n : Node) (options : ExtractOptions) (token : Token σ)
      (s : σ) (payload : Payload),
      (∀ s, token.cancelled s = true → token.cancelled (token.tick s) = true) →
      (Payload.build index f n options token s).1 = .ok payload →
        token.cancelled (Payload.build index f n options token s).2 = false ∧
          ∀ s' ∈ momentsFor index f n options token s, token.cancelled s' = false :=
  ⟨fun _ _ _ _ _ hw => .of_latched hw, fun _ _ _ _ _ _ _ htick h => not_cancelled_of_build htick h⟩

/-- `f(); g(); h()`. -/
def threeCalls : SourceFile :=
  .ofTree 0 ⟨"/p/a.kt"⟩ "f(); g(); h()\n"
    (.named "statements" 0 13 [call 0, .token ";" 3 4, call 5, .token ";" 8 9, call 10])
    .kotlin .source false
where
  call (start : Nat) : Tree :=
    .named "call_expression" start (start + 3)
      [.named "simple_identifier" start (start + 1) [],
       .named "call_suffix" (start + 1) (start + 3)
        [.named "value_arguments" (start + 1) (start + 3)
          [.token "(" (start + 1) (start + 2), .token ")" (start + 2) (start + 3)]]]

/-- A session that knows nothing and counts its questions. -/
def counting : Session Nat :=
  .ofAnswers threeCalls
    ⟨fun _ => .ok [], fun _ => .ok none, fun _ => .ok none, fun _ => .ok []⟩ (· + 1)

/-- The node of the property on the first line. -/
def firstNode : Node := TwoProperties.file.top.children.headD TwoProperties.file.top

/-- The flag is set by the second question, about `g()` at the fifth visit; the four visits behind
it are still handled, and the look before the tenth one finds it. -/
theorem cancellation_heeded_threeCalls :
    (HeedsCancellation counting ⟨1000, true⟩ ⟨(2 ≤ ·), 5⟩ threeCalls.top 0 ∧
      collect counting ⟨1000, true⟩ ⟨(2 ≤ ·), 5⟩ threeCalls.top 0 = (.error .cancelled, 3) ∧
      ((handledBelow counting ⟨1000, true⟩ ⟨(2 ≤ ·), 5⟩ threeCalls.top 0).countP
        fun h => 2 ≤ h.2) = 4) ∧
    ∃ payload,
      (Payload.build TwoProperties.index TwoProperties.file firstNode {}
        ⟨(2 ≤ ·), (· + 1)⟩ 0).1 = .ok payload ∧
      (Payload.build TwoProperties.index TwoProperties.file firstNode {}
        ⟨(2 ≤ ·), (· + 1)⟩ 0).2 < 2 := by
  have hlatched : Watch.Latched counting ⟨(2 ≤ ·), 5⟩ := by
    rintro (_ | _ | _ | _) s hs <;>
      exact decide_eq_true (Nat.le_succ_of_le (of_decide_eq_true hs))
  have heeds := (cancellation_heeded Nat).1 counting ⟨1000, true⟩ _ threeCalls.top 0 hlatched
  refine ⟨⟨heeds, rfl, by decide⟩, ?_⟩
  obtain ⟨payload, hbuild⟩ : ∃ payload,
      (Payload.build TwoProperties.index TwoProperties.file firstNode {}
        ⟨(2 ≤ ·), (· + 1)⟩ 0).1 = .ok payload := ⟨_, rfl⟩
  have hend := ((cancellation_heeded Nat).2 _ _ _ _ ⟨(2 ≤ ·), (· + 1)⟩ _ payload
    (fun s hs => decide_eq_true (Nat.le_succ_of_le (of_decide_eq_true hs))) hbuild).1
  exact ⟨payload, hbuild, Nat.lt_of_not_le (of_decide_eq_false hend)⟩

end Crossref.Usage
