import Crossref.Proofs.Index.Reachable

/-!
# Proofs — index — origins of symbols

A symbol has the origin of its file, or is synthetic: one that the compiler adds.  No file is
synthetic itself, so two symbols of one file differ in origin exactly when one of them is added and
the other is not.

* `Introduces.origin`: what a node introduces has the origin of the file or is synthetic.
* `Reachable.origin_eq_iff`: when two symbols of one file have the same origin.
-/

namespace Crossref

/-- **What a node introduces has the origin of the file or is synthetic.** -/
theorem SourceFile.Introduces.origin {f : SourceFile} {n : Node} {s : Symbol}
    (h : f.Introduces n s) : s.origin = f.origin ∨ s.origin = .synthetic := by
  unfold SourceFile.Introduces at h
  cases hl : f.language with
  | kotlin =>
      rw [hl] at h
      exact (Kotlin.Introduces.traits h).origin
  | java =>
      rw [hl] at h
      exact (Java.Introduces.traits h).origin

namespace Index

/-- An indexed symbol has the origin of its file or is synthetic. -/
theorem Consistent.origin_of_mem {i : Index} (hi : Consistent i) {s : Symbol}
    (hs : s ∈ i.symbols) :
    ∃ f ∈ i.files, i.file? s.declaration.file = some f ∧
      (s.origin = f.origin ∨ s.origin = .synthetic) := by
  obtain ⟨f, n, hfile, hf, hsf, -, -⟩ := hi.exists_place hs
  obtain ⟨m, -, hintroduces⟩ := SourceFile.exists_introduces hsf
  exact ⟨f, hf, hfile, hintroduces.origin⟩

/-- **Two symbols of one file have the same origin** exactly when both are synthetic or none is. -/
theorem Reachable.origin_eq_iff {i : Index} (hi : Reachable i) {s t : Symbol}
    (hs : s ∈ i.symbols) (ht : t ∈ i.symbols)
    (hfile : s.declaration.file = t.declaration.file) :
    s.origin = t.origin ↔ (s.origin = .synthetic ↔ t.origin = .synthetic) := by
  obtain ⟨f, hf, hsf, hso⟩ := hi.consistent.origin_of_mem hs
  obtain ⟨g, -, htg, hto⟩ := hi.consistent.origin_of_mem ht
  obtain rfl : f = g := Option.some.inj (hsf.symm.trans (hfile ▸ htg))
  have hne := hi.origin_ne f hf
  rcases hso with hso | hso <;> rcases hto with hto | hto <;> simp [hso, hto, hne, hne.symm]

end Index

end Crossref
