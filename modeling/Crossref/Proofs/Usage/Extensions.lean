import Crossref.Proofs.Resolve.Sorts
import Crossref.Proofs.Tree.Spans
import Crossref.Proofs.Usage.Collected
import Crossref.Proofs.Usage.Parts
import Crossref.Proofs.Usage.Recorded
import Crossref.Proofs.Usage.Walk

/-!
# Proofs — usages — uses of extensions

A use of an extension is recorded together with one of its receiver.  Calls take the pair from the
answer, references from the symbol; the answer says that something is called on a receiver exactly
when its symbol is an extension, so both come to the same.  `Complete` says of a list that it is
made of single usages of what extends nothing, and of pairs.  Lists of this form are put together to
one of this form, and the filter takes nothing from a pair: no extension is local or declared by a
constructor, and a use of a receiver is no read.

* `complete_record`: what is recorded at a visit is complete.
* `Complete.filter`: so is what the filter leaves of it.
* `collect_extensionsPaired`: in what is collected over an index, the uses of extensions and of
  their receivers stand side by side.
-/

namespace Crossref.Usage
open Node

/-- The use of the receiver that goes with a use of an extension. -/
def ofReceiver (u : Usage) : Usage := ⟨u.symbol, .extensionReceiver, u.site⟩

/-- Uses of extensions stand with the use of the receiver behind them, and nothing else has one. -/
inductive Complete : List Usage → Prop where
  | nil : Complete []
  | single {u : Usage} {us : List Usage} (hk : u.kind ≠ .extensionReceiver)
      (he : u.symbol.isExtension = false) (h : Complete us) : Complete (u :: us)
  | pair {u : Usage} {us : List Usage} (hk : u.kind ≠ .extensionReceiver)
      (he : u.symbol.isExtension = true) (h : Complete us) :
      Complete (u :: ofReceiver u :: us)

namespace Complete

variable {us vs : List Usage}

theorem append (h : Complete us) (h' : Complete vs) : Complete (us ++ vs) := by
  induction h with
  | nil => exact h'
  | single hk he _ ih => exact .single hk he ih
  | pair hk he _ ih => exact .pair hk he ih

/-- What is recorded of a symbol comes with the use of the receiver exactly when it is an extension.
-/
theorem of_paired {s : Symbol} {kind : Kind} {site : Site} {extension : Bool}
    (hk : kind ≠ .extensionReceiver) (he : extension = s.isExtension) :
    Complete (paired s kind site extension) := by
  subst he
  cases he : s.isExtension with
  | true => exact .pair hk he .nil
  | false => exact .single hk he .nil

/-- A use of an extension passes every filter. -/
theorem keeps_of_isExtension {l : Limits} {u : Usage} (hw : u.symbol.WellSorted)
    (he : u.symbol.isExtension = true) : l.keeps u = true := by
  obtain ⟨hkind, hc⟩ := hw he
  have hlocal : u.symbol.kind.isLocal = false := by rcases hkind with h | h <;> rw [h] <;> rfl
  simp [Limits.keeps, isLowSignal, hlocal, hc]

/-- **The filter takes nothing from a pair.** -/
theorem filter {l : Limits} (h : Complete us) (hw : ∀ u ∈ us, u.symbol.WellSorted) :
    Complete (us.filter l.keeps) := by
  induction h with
  | nil => exact .nil
  | @single u us hk he _ ih =>
      have hrest := ih fun v hv => hw v (List.mem_cons_of_mem _ hv)
      rw [List.filter_cons]
      split
      · exact .single hk he hrest
      · exact hrest
  | @pair u us hk he _ ih =>
      have hrest := ih fun v hv => hw v (List.mem_cons_of_mem _ (List.mem_cons_of_mem _ hv))
      have hu := hw u List.mem_cons_self
      rw [List.filter_cons_of_pos (keeps_of_isExtension hu he),
        List.filter_cons_of_pos (keeps_of_isExtension (u := ofReceiver u) hu he)]
      exact .pair hk he hrest

/-! ### Side by side -/

variable {before after : List Usage} {u : Usage}

/-- Behind the use of an extension comes that of its receiver. -/
theorem followed (h : Complete us) (hs : us = before ++ u :: after)
    (he : u.symbol.isExtension = true) (hk : u.kind ≠ .extensionReceiver) :
    ∃ rest, after = ofReceiver u :: rest := by
  induction h generalizing before with
  | nil => simp at hs
  | single _ he' _ ih =>
      cases before with
      | nil =>
          obtain ⟨rfl, rfl⟩ := List.cons.inj hs
          rw [he] at he'
          cases he'
      | cons b before => exact ih (List.cons.inj hs).2
  | pair _ _ _ ih =>
      match before, hs with
      | [], hs =>
          obtain ⟨rfl, rfl⟩ := List.cons.inj hs
          exact ⟨_, rfl⟩
      | [_], hs =>
          obtain ⟨rfl, rfl⟩ := List.cons.inj (List.cons.inj hs).2
          exact absurd rfl hk
      | _ :: _ :: before, hs => exact ih (List.cons.inj (List.cons.inj hs).2).2

/-- Before the use of a receiver comes that of an extension, at the same node. -/
theorem preceded (h : Complete us) (hs : us = before ++ u :: after)
    (hk : u.kind = .extensionReceiver) :
    ∃ front used, before = front ++ [used] ∧ u = ofReceiver used ∧
      used.symbol.isExtension = true ∧ used.kind ≠ .extensionReceiver := by
  induction h generalizing before with
  | nil => simp at hs
  | @single w _ hk' _ _ ih =>
      cases before with
      | nil =>
          obtain ⟨rfl, rfl⟩ := List.cons.inj hs
          exact absurd hk hk'
      | cons b before =>
          obtain ⟨front, used, rfl, hused⟩ := ih (List.cons.inj hs).2
          exact ⟨b :: front, used, rfl, hused⟩
  | @pair w _ hk' he _ ih =>
      match before, hs with
      | [], hs =>
          obtain ⟨rfl, rfl⟩ := List.cons.inj hs
          exact absurd hk hk'
      | [b], hs =>
          obtain ⟨rfl, htail⟩ := List.cons.inj hs
          obtain ⟨rfl, rfl⟩ := List.cons.inj htail
          exact ⟨[], w, rfl, rfl, he, hk'⟩
      | b :: c :: before, hs =>
          obtain ⟨front, used, rfl, hused⟩ := ih (List.cons.inj (List.cons.inj hs).2).2
          exact ⟨b :: c :: front, used, rfl, hused⟩

end Complete

/-! ### What is recorded -/

theorem classifyCall_ne_extensionReceiver (c : Resolve.Call) (inDelegate : Bool) :
    classifyCall c inDelegate ≠ .extensionReceiver := by
  unfold classifyCall
  (repeat' split) <;> simp

theorem referenceKind?_ne_extensionReceiver (n : Node) (isTarget : Bool) (s : Symbol) :
    referenceKind? n isTarget s ≠ some .extensionReceiver := by
  unfold referenceKind? classifyAccess
  (repeat' split) <;> simp

section Record

variable {σ : Type} {session : Session σ} {t : Tree} (hsorted : session.Sorted t)
include hsorted

/-- A call records its callee, with the receiver of an extension. -/
theorem complete_recordCall {n : Node} (hn : Within t n) (inDelegate : Bool) (s : σ) :
    Complete (recordCall session n inDelegate s).1 := by
  change Complete (ofCall _ _ (session.call n s).1)
  unfold ofCall
  split
  · next c hc =>
    exact .of_paired (classifyCall_ne_extensionReceiver c inDelegate)
      (hsorted.call hn hc).extensionReceiver_eq
  · exact .nil

/-- A type is a classifier and so no extension. -/
theorem complete_recordType {n : Node} (hn : Within t n) {kind : Kind}
    (hk : kind ≠ .extensionReceiver) (s : σ) : Complete (recordType session n kind s).1 := by
  change Complete (ofType _ _ (session.type n s).1)
  unfold ofType
  split
  · next x hx =>
    have hclass := hsorted.type hn hx
    exact .single hk ((hsorted.symbols.type hn hx).isExtension_of_isClassifier hclass) .nil
  · exact .nil

omit hsorted in
/-- A reference records what it leads to, with the receivers of extensions. -/
theorem complete_recordReference (session : Session σ) (n : Node) (isTarget : Bool) (s : σ) :
    Complete (recordReference session n isTarget s).1 := by
  change Complete (ofReference _ _ _ (session.reference n s).1)
  unfold ofReference
  split
  · next x rest hx =>
    split
    · next kind hkind =>
      refine .of_paired (fun hk => ?_) rfl
      exact referenceKind?_ne_extensionReceiver n isTarget x (hk ▸ hkind)
    · exact .nil
  · exact .nil

theorem complete_recordDelegate {n : Node} (hn : Within t n) (s : σ) :
    Complete (recordDelegate session n s).1 := by
  change Complete (ofDelegate _ (session.delegate n s).1)
  unfold ofDelegate
  split
  · next calls hcalls =>
    have hwell := hsorted.delegate hn hcalls
    clear hcalls
    induction calls with
    | nil => exact .nil
    | cons c calls ih =>
        rw [List.flatMap_cons]
        have hc := (hwell c List.mem_cons_self).extensionReceiver_eq
        exact (Complete.of_paired (by simp) hc).append
          (ih fun d hd => hwell d (List.mem_cons_of_mem c hd))
  · exact .nil

/-- **What is recorded at a visit is complete.** -/
theorem complete_record {v : Visit} (hn : Within t v.node) (s : σ) :
    Complete (record session v s).1 := by
  refine record_of_parts .nil (fun _ _ => .append) (fun us hpart => ?_) s
  cases hpart with
  | reference _ s => exact complete_recordReference session v.node false s
  | target _ _ s => exact complete_recordReference session _ true s
  | call _ s => exact complete_recordCall hsorted hn v.inDelegate s
  | type _ s => exact complete_recordType hsorted hn (by simp) s
  | supertype _ s => exact complete_recordType hsorted hn (by simp) s
  | annotationUse _ s => exact complete_recordType hsorted hn (by simp) s
  | construction _ s => exact complete_recordCall hsorted hn false s
  | delegate _ s => exact complete_recordDelegate hsorted hn s

/-- Nothing that one visit records is torn apart by the next. -/
theorem complete_recordedAlong :
    ∀ {vs : List Visit} (s : σ), (∀ v ∈ vs, Within t v.node) →
      Complete (recordedAlong session vs s)
  | [], _, _ => .nil
  | v :: vs, s, hvs => by
      rw [recordedAlong_cons]
      exact (complete_record hsorted (hvs v List.mem_cons_self) s).append
        (complete_recordedAlong _ fun w hw => hvs w (List.mem_cons_of_mem v hw))

end Record

/-! ### What is collected -/

/-- Uses of extensions and of their receivers stand side by side in the list. -/
structure ExtensionsPaired (us : List Usage) : Prop where
  /-- Behind a use of an extension comes that of its receiver, at the same site. -/
  followed : ∀ before u after, us = before ++ u :: after → u.symbol.isExtension = true →
    u.kind ≠ .extensionReceiver → ∃ rest, after = ofReceiver u :: rest
  /-- Before a use of a receiver comes the use of the extension that it goes with. -/
  preceded : ∀ before r after, us = before ++ r :: after → r.kind = .extensionReceiver →
    ∃ front u, before = front ++ [u] ∧ r = ofReceiver u ∧ u.symbol.isExtension = true ∧
      u.kind ≠ .extensionReceiver
  /-- Behind a use of what extends nothing comes no use of a receiver. -/
  alone : ∀ before u next after, us = before ++ u :: next :: after →
    u.symbol.isExtension = false → next.kind ≠ .extensionReceiver

theorem Complete.extensionsPaired {us : List Usage} (h : Complete us) : ExtensionsPaired us where
  followed _ _ _ hs he hk := h.followed hs he hk
  preceded _ _ _ hs hk := h.preceded hs hk
  alone before u next after hs he hk := by
    have hs' : us = (before ++ [u]) ++ next :: after := by simpa using hs
    obtain ⟨front, used, hfront, -, hused, -⟩ := h.preceded hs' hk
    obtain rfl := List.singleton_inj.1 (List.append_inj' hfront rfl).2
    rw [hused] at he
    cases he

/-- **Uses of extensions come in pairs.**  Over every index that is built, whatever is collected
without reaching the cap has behind every use of an extension that of its receiver, of the same
symbol and at the same site, and no other use of a receiver; so it is whether local reads are kept
or not. -/
theorem collect_extensionsPaired {i : Index} (hi : i.Reachable) {f : SourceFile} {n : Node}
    (hn : Within f.tree n) (keepLocalReads : Bool) (interval : Nat) :
    ∃ all, (∀ cap, all.length ≤ cap →
        (collect (Session.ofIndex i f) ⟨cap, keepLocalReads⟩ (.never interval) n ()).1 = .ok all) ∧
      ExtensionsPaired all := by
  have hsorted := Session.sorted_ofIndex hi.consistent f
  have hvisits : ∀ v ∈ itinerary n, Within f.tree v.node := fun v => within_of_mem_itinerary hn
  have hcomplete := complete_recordedAlong hsorted () hvisits
  have hsymbols := (follows_recordedAlong hsorted.symbols () hvisits).symbol
  refine ⟨(recordedAlong (Session.ofIndex i f) (itinerary n) ()).filter
    (Limits.keeps ⟨0, keepLocalReads⟩), fun cap hcap => ?_,
    (hcomplete.filter hsymbols).extensionsPaired⟩
  -- the filter does not look at the cap
  rw [collect_uncancelled]
  exact congrArg Except.ok (List.take_of_length_le hcap)

/-- `fun Int.dbl() = 2` and a function that calls it on its parameter. -/
def doubling : ParsedText where
  path := ⟨"/p/a.kt"⟩
  text := "fun Int.dbl() = 2\nfun f(n: Int) = n.dbl()\n"
  tree :=
    .named "source_file" 0 42
      [.named "function_declaration" 0 17
        [.token "fun" 0 3, .named "user_type" 4 7 [.named "type_identifier" 4 7 []],
         .token "." 7 8, .named "simple_identifier" 8 11 [],
         .named "function_value_parameters" 11 13 [.token "(" 11 12, .token ")" 12 13],
         .named "function_body" 14 17 [.token "=" 14 15, .named "integer_literal" 16 17 []]],
       .named "function_declaration" 18 41
        [.token "fun" 18 21, .named "simple_identifier" 22 23 [],
         .named "function_value_parameters" 23 31
          [.token "(" 23 24,
           .named "parameter" 24 30
            [.named "simple_identifier" 24 25 [], .token ":" 25 26,
             .named "user_type" 27 30 [.named "type_identifier" 27 30 []]],
           .token ")" 30 31],
         .named "function_body" 32 41
          [.token "=" 32 33,
           .named "call_expression" 34 41
            [.named "navigation_expression" 34 39
              [.named "simple_identifier" 34 35 [],
               .named "navigation_suffix" 35 39
                [.token "." 35 36, .named "simple_identifier" 36 39 []]],
             .named "call_suffix" 39 41
              [.named "value_arguments" 39 41 [.token "(" 39 40, .token ")" 40 41]]]]]]

theorem collect_extensionsPaired_doubling :
    (Project.indexOf ⟨"/p"⟩ {} [doubling]).Reachable ∧
      Within doubling.tree (.ofTree doubling.tree) ∧
      ∃ all, (∀ cap, all.length ≤ cap →
          (collect (Session.ofIndex (Project.indexOf ⟨"/p"⟩ {} [doubling])
              (Project.sourceFile ⟨"/p"⟩ {} 0 .kotlin doubling)) ⟨cap, false⟩ (.never 64)
            (.ofTree doubling.tree) ()).1 = .ok all) ∧
        ExtensionsPaired all :=
  ⟨.built _ _ _, .top, collect_extensionsPaired (.built _ _ _) .top false 64⟩

end Crossref.Usage
