import Crossref.Proofs.Index.Paths
import Crossref.Proofs.Slice.Fidelity
import Crossref.Proofs.SourceFile.Carets
import Crossref.Proofs.Text.Lines
import Crossref.Proofs.Usage.Settled

/-!
# Proofs — payloads — a report leads back to itself

The target of a payload is shown with the place of its first character.  A caret there selects the
target again: it stands on the way up from its own first byte, and only a declaration that starts at
the same byte could stand lower.  And the payload of a declaration is settled by the declaration, so
looking once more gives an equal one.

* `declarationAt?_start`: the declaration at a byte is the declaration at its own first byte.
* `caretAt_of_onBoundary`: from the place of a byte there are two ways back to it.
* `build_ofIndex`: every run that is not cancelled gives the one payload of its declaration.
* `extract_again`: the place of a target leads to an equal payload, as an offset and as a line with
  a column.
-/

namespace Crossref
open Node

/-! ### The first byte of a declaration -/

namespace SourceFile

variable {f : SourceFile} {b : Nat}

/-- No declaration starts at the byte at which a declaration around it starts. -/
def StartsApart (f : SourceFile) : Prop :=
  ∀ m, Within f.tree m → ∀ n ∈ m.ancestors, Kotlin.isCaretDeclaration m f.text = true →
    Kotlin.isCaretDeclaration n f.text = true → m.start ≠ n.start

instance (f : SourceFile) : Decidable f.StartsApart :=
  decidable_of_iff (∀ m ∈ f.top.preorder, ∀ n ∈ m.ancestors,
      Kotlin.isCaretDeclaration m f.text = true → Kotlin.isCaretDeclaration n f.text = true →
        m.start ≠ n.start)
    (forall_congr' fun _ => by rw [within_iff_mem_preorder]; rfl)

theorem le_size_of_declarationAt? {n : Node} (h : f.declarationAt? b = some n) :
    b ≤ Text.size f.text := by
  unfold declarationAt? at h
  split at h
  · cases h
  · next hb => exact Nat.le_of_not_lt hb

theorem within_of_declarationAt? {n : Node} (h : f.declarationAt? b = some n) :
    Within f.tree n :=
  (f.within_atByte b).above ((declarationAt?_eq_some_iff (le_size_of_declarationAt? h)).1 h).1.1

/-- **The declaration at a byte is the declaration at its own first byte.** -/
theorem declarationAt?_start (hf : f.tree.WellFormed) (hs : f.StartsApart) {n : Node}
    (h : f.declarationAt? b = some n) (hstart : n.start ≤ Text.size f.text) :
    f.declarationAt? n.start = some n := by
  have hn : Within f.tree n := within_of_declarationAt? h
  obtain ⟨⟨hlow, hdecl⟩, -⟩ := (declarationAt?_eq_some_iff (le_size_of_declarationAt? h)).1 h
  have hself : Below n (f.top.atByte n.start) := by
    refine (hf.below_atByte_iff hn).2 ?_
    rcases (hf.below_atByte_iff hn).1 hlow with htop | ⟨h₁, h₂⟩
    · exact .inl htop
    · exact .inr ⟨Nat.le_refl _, Nat.lt_of_le_of_lt h₁ h₂⟩
  refine (declarationAt?_eq_some_iff hstart).2 ⟨⟨hself, hdecl⟩, fun a ha hadecl => ?_⟩
  rcases (f.within_atByte n.start).linear ha hself with hup | hdown
  · exact hup
  · rcases hdown.eq_or_mem_ancestors with rfl | hmem
    · exact .refl
    · -- a declaration below `n` on the way spans the first byte of `n`, so it starts there too
      have haw : Within f.tree a := (f.within_atByte n.start).above ha
      rcases (hf.below_atByte_iff haw).1 ha with rfl | ⟨hle, -⟩
      · cases hmem
      · have hge := (hf.span_le hn hdown).1
        exact absurd (Nat.le_antisymm hle hge) (hs a haw n hmem hadecl hdecl)

end SourceFile

namespace Payload

/-! ### Looking twice -/

/-- The payload of the declaration at a node. -/
def settled (index : Index) (f : SourceFile) (n : Node) (options : ExtractOptions) : Payload :=
  ofUsages index f n options.projectOnly
    (Usage.settled f (.ofIndex index f) ⟨options.maxUsages, options.includeLocalReads⟩ n)

/-- **Every run that is not cancelled gives the one payload of its declaration**, whatever its flag
and its state are. -/
theorem build_ofIndex {σ : Type} (index : Index) (f : SourceFile) (n : Node)
    (options : ExtractOptions) (token : Token σ) (s : σ) :
    (build index f n options token s).1 = .ok (settled index f n options) ∨
      (build index f n options token s).1 = .error .cancelled ∧
        ∃ s', token.cancelled s' = true := by
  have hcollect := Usage.collect_ofAnswers f (.ofIndex index f)
    ⟨options.maxUsages, options.includeLocalReads⟩
    ⟨token.cancelled, options.cancelCheckInterval⟩ token.tick n s
  unfold build
  dsimp only
  split
  · next e s' hrun =>
    rw [hrun] at hcollect
    rcases hcollect with h | ⟨h, hset⟩
    · cases h
    · cases h
      exact .inr ⟨rfl, hset⟩
  · next usages s' hrun =>
    rw [hrun] at hcollect
    rcases hcollect with h | ⟨h, -⟩
    · cases h
      by_cases hs' : token.cancelled s' = true
      · rw [if_pos hs']
        exact .inr ⟨rfl, s', hs'⟩
      · rw [if_neg hs']
        exact .inl rfl
    · cases h

/-- Every run for the character gives the payload, unless its flag is set at some time. -/
def FoundAt (p : Project) (path : Path) (options : ExtractOptions) (offset : Nat)
    (payload : Payload) : Prop :=
  ∀ (σ : Type) (token : Token σ) (s : σ),
    (extract p path offset options token s).1 = .ok payload ∨
      (extract p path offset options token s).1 = .error .cancelled ∧
        ∃ s', token.cancelled s' = true

/-- The place of a byte of a text, as far as the byte is the first one of a character. -/
def caretAt (text : String) (b : Nat) : Slice.Caret :=
  ⟨Slice.orMinusOne (Text.charOffset? text b),
    Slice.orMinusOne ((Text.lineColumn? text b).map Prod.fst),
    Slice.orMinusOne ((Text.lineColumn? text b).map Prod.snd)⟩

/-- From the place of a byte there are two ways back: the characters before it, and its line and
column. -/
theorem caretAt_of_onBoundary {text : String} {b : Nat} (h : Text.OnBoundary text b) :
    ∃ o line column : Nat, caretAt text b = ⟨o, line, column⟩ ∧
      (Text.offsetOf? text line column).bind (Text.charOffset? text) = some o ∧
      Text.byteOffset? text o = some b := by
  obtain ⟨⟨line, column⟩, hline⟩ :=
    Option.isSome_iff_exists.1 (Text.isSome_lineColumn?_iff.2 h)
  obtain ⟨before, after, hstands⟩ := h
  have hoffset := hstands.charOffset?_eq
  refine ⟨before.length, line, column, ?_, ?_, Text.charOffset?_eq_some_iff.1 hoffset⟩
  · rw [caretAt, hoffset, hline]
    rfl
  · rw [Text.lineColumn?_eq_some_iff.1 hline, Option.bind_some, hoffset]

/-- A byte inside of a character has no place. -/
theorem caretAt_of_not_onBoundary {text : String} {b : Nat} (h : ¬ Text.OnBoundary text b) :
    caretAt text b = ⟨-1, -1, -1⟩ := by
  have hoffset : Text.charOffset? text b = none := by
    rw [Text.charOffset?, Option.map_eq_none_iff, ← Option.not_isSome_iff_eq_none,
      ← Text.onBoundary_iff]
    exact h
  have hline : Text.lineColumn? text b = none := by
    rw [← Option.not_isSome_iff_eq_none, Text.isSome_lineColumn?_iff]
    exact h
  rw [caretAt, hoffset, hline]
  rfl

/-- The caret of a declaration in a file with code is that of its first byte. -/
theorem caret_ofNode {index : Index} {f : SourceFile} {n : Node} {origin : Origin}
    (hcode : f.compiled = false) (hattached : f.attached = true) :
    (Slice.ofNode index f n origin).caret = caretAt f.text n.start := by
  have hstart : (SourceFile.spanOf f.language n).1 = n.start := SourceFile.keyOf_start f n
  rw [Slice.ofNode, if_neg (by simp [hcode]), Slice.snapshot]
  dsimp only
  rw [hstart, SourceFile.lineColumn?, if_pos hattached, caretAt]

section Extract

variable {p : Project} {path : Path} {f : SourceFile} {offset b : Nat} {n : Node}

/-- A run for a character builds the payload of the declaration there. -/
theorem extract_eq_build (hlanguage : Language.ofPath? path = some .kotlin)
    (hready : p.isReady = true) (hfile : p.index.fileForPath? path = some f)
    (hb : Text.byteOffset? f.text offset = some b) (hn : f.declarationAt? b = some n) {σ : Type}
    (options : ExtractOptions) (token : Token σ) :
    extract p path offset options token = build p.index f n options token := by
  funext s
  simp [extract, hlanguage, hready, hfile, hb, hn]

/-- A payload with a target is built for the declaration at the character. -/
theorem exists_of_extract (hfile : p.index.fileForPath? path = some f) {σ : Type}
    {options : ExtractOptions} {token : Token σ} {s : σ} {payload : Payload}
    (h : (extract p path offset options token s).1 = .ok payload)
    (ht : payload.target ≠ none) :
    Language.ofPath? path = some .kotlin ∧ p.isReady = true ∧
      ∃ b n, Text.byteOffset? f.text offset = some b ∧ f.declarationAt? b = some n := by
  unfold extract at h
  split at h
  · cases h
  · next hlanguage =>
    split at h
    · cases h
      exact absurd rfl ht
    · next hready =>
      rw [hfile] at h
      dsimp only at h
      refine ⟨by simpa using hlanguage, by simpa using hready, ?_⟩
      split at h
      · cases h
      · next b hb =>
        split at h
        · cases h
        · next n hn => exact ⟨b, n, hb, hn⟩

end Extract

/-- **A report leads back to itself.**  In a project that is ready, let a run for a character of a
file with code give a payload with a target.  The target is shown with the number of characters
before it, and with a line and a column that lead to the same character.  A run for this character
is the run that was made, and all runs for it give an equal payload unless they are cancelled.  Only
where the tree has a node that starts or ends inside of a character the place may be missing. -/
theorem extract_again {p : Project} (hp : p.index.Reachable) {path : Path} {f : SourceFile}
    (hfile : p.index.fileForPath? path = some f) (hcode : f.compiled = false)
    (hf : f.tree.WellFormed) (hs : f.StartsApart) {offset : Nat} {options : ExtractOptions}
    {σ : Type} {token : Token σ} {s : σ} {payload : Payload} {target : Target}
    (h : (extract p path offset options token s).1 = .ok payload)
    (ht : payload.target = some target) :
    (∃ o line column : Nat, target.slice.caret = ⟨o, line, column⟩ ∧
      (f.offsetOf? line column).bind (Text.charOffset? f.text) = some o ∧
      extract p path o options token = extract p path offset options token ∧
      FoundAt p path options o payload) ∨
    (target.slice.caret = ⟨-1, -1, -1⟩ ∧ ¬ f.OnBoundaries) := by
  obtain ⟨hlanguage, hready, b, n, hb, hn⟩ := exists_of_extract hfile h (by simp [ht])
  have hextract := extract_eq_build hlanguage hready hfile hb hn options token
  obtain rfl : payload = settled p.index f n options := by
    rw [hextract] at h
    rcases build_ofIndex p.index f n options token s with hbuild | ⟨hbuild, -⟩
    · exact Except.ok.inj (h.symm.trans hbuild)
    · cases h.symm.trans hbuild
  have hattached : f.attached = true :=
    hp.consistent.attached f (Index.mem_of_fileForPath? hfile)
  have hcaret : target.slice.caret = caretAt f.text n.start := by
    cases ht
    exact caret_ofNode hcode hattached
  by_cases hboundary : Text.OnBoundary f.text n.start
  · obtain ⟨o, line, column, hplace, hback, hagain⟩ := caretAt_of_onBoundary hboundary
    have hstart := SourceFile.declarationAt?_start hf hs hn hboundary.le_size
    refine .inl ⟨o, line, column, hcaret.trans hplace, hback, ?_, ?_⟩
    · rw [hextract, extract_eq_build hlanguage hready hfile hagain hstart]
    · intro τ token s
      rw [extract_eq_build hlanguage hready hfile hagain hstart]
      exact build_ofIndex p.index f n options token s
  · exact .inr ⟨hcaret.trans (caretAt_of_not_onBoundary hboundary),
      fun hall => hboundary (hall n (SourceFile.within_of_declarationAt? hn)).1⟩

open TwoProperties in
/-- From the name of the second property the report leads to the byte at which this starts. -/
theorem extract_again_second :
    ∃ payload target,
      (extract (Project.ofSources ⟨"/p"⟩ {} [given]) given.path 14 {} (.fixed false) ()).1 =
        .ok payload ∧
      payload.target = some target ∧ target.slice.caret = ⟨10, 2, 1⟩ ∧
      FoundAt (Project.ofSources ⟨"/p"⟩ {} [given]) given.path {} 10 payload := by
  have hfile : index.fileForPath? given.path = some file :=
    Project.fileForPath?_indexOf (List.pairwise_singleton _ _) file_mem
  have hn : file.declarationAt? 14 = some secondNode := rfl
  have hbyte : Text.byteOffset? file.text 14 = some 14 := by decide
  have hextract := extract_eq_build (p := Project.ofSources ⟨"/p"⟩ {} [given]) (by decide) rfl
    hfile hbyte hn {} (.fixed false)
  have hpayload : (extract (Project.ofSources ⟨"/p"⟩ {} [given]) given.path 14 {}
      (.fixed false) ()).1 = .ok (settled index file secondNode {}) := by
    rw [hextract]
    rcases build_ofIndex index file secondNode {} (.fixed false) () with h | ⟨-, s', h⟩
    · exact h
    · cases h
  have hcaret : (Slice.ofNode index file secondNode
      (originAt index file (file.keyOf secondNode))).caret = ⟨10, 2, 1⟩ := by
    rw [caret_ofNode rfl rfl]
    decide
  refine ⟨_, _, hpayload, rfl, hcaret, ?_⟩
  rcases extract_again (.built _ _ _) hfile rfl (wellFormed file file_mem).1 (by decide) hpayload
    rfl with ⟨o, line, column, h, -, -, hfound⟩ | ⟨h, -⟩
  · cases hcaret.symm.trans h
    exact hfound
  · cases hcaret.symm.trans h

end Payload

end Crossref
