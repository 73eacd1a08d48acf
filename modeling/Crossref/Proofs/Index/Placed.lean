import Crossref.Proofs.Resolve.Sources
import Crossref.Proofs.Slice.Fidelity

/-!
# Proofs — index — declarations that have a place

Every symbol that an answer leads to is declared by a node of an indexed file, whether it is indexed
or bound locally.  Where no declaration's node is empty, such a declaration can be shown, and of two
of them that overlap one contains the other.

* `placed_of_sourced`: what an answer leads to is declared at a place.
* `Placed.nested_of_overlap`: two declarations around a third are nested.
-/

namespace Crossref
open Node

/-- The key is that of a declaration in the file: one that introduces a symbol, or one that a name
is bound to locally. -/
inductive SourceFile.Declares (f : SourceFile) : DeclKey → Prop where
  | symbol {s : Symbol} (h : s ∈ f.symbols) : Declares f s.declaration
  | binding {name : String} {n : Node} {s : Symbol} (hn : Within f.tree n)
      (h : s ∈ Resolve.localBindings f name n) : Declares f s.declaration

namespace Index

/-- The key is that of a node in an indexed file, and the node is not empty. -/
def Placed (i : Index) (k : DeclKey) : Prop :=
  ∃ f, f.WellFormed ∧ i.file? k.file = some f ∧ f.ShownAt k

/-- **What an answer leads to is declared at a place.** -/
theorem placed_of_sourced {i : Index} (hi : i.Consistent) (hw : ∀ f ∈ i.files, f.WellFormed)
    (hsolid : ∀ f ∈ i.files, ∀ k, f.Declares k → f.SolidAt k) {f : SourceFile} (hf : f ∈ i.files)
    {s : Symbol} (h : Resolve.Sourced i f s) : i.Placed s.declaration := by
  rcases h with h | ⟨name, n, hn, h⟩
  · obtain ⟨g, m, hfile, hg, hs, hm, hd⟩ := hi.exists_place h
    exact ⟨g, hw g hg, hfile, hsolid g hg _ (.symbol hs) m hm hd.symm⟩
  · obtain ⟨m, hm, hd⟩ := Resolve.exists_place_of_mem_localBindings hn h
    refine ⟨f, hw f hf, ?_, hsolid f hf _ (.binding hn h) m hm hd.symm⟩
    rw [hd]
    exact hi.file?_id hf

namespace Placed

variable {i : Index}

theorem start_lt_stop {k : DeclKey} (h : i.Placed k) : k.start < k.stop := by
  obtain ⟨f, hf, -, hshown⟩ := h
  exact hshown.start_lt_stop hf.tree

/-- A declaration at a place can be shown. -/
theorem exists_ofSymbol {s : Symbol} (h : i.Placed s.declaration) :
    ∃ slice, Slice.ofSymbol i s = .ok slice := by
  obtain ⟨f, hf, hfile, hshown⟩ := h
  obtain ⟨m, -, hslice⟩ := Slice.exists_ofSymbol hf hfile hshown
  exact ⟨_, hslice⟩

/-- Two declarations of one file nest or lie apart. -/
theorem nested_or_apart {a b : DeclKey} (ha : i.Placed a) (hb : i.Placed b)
    (hfile : a.file = b.file) :
    a.contains b = true ∨ b.contains a = true ∨ a.stop ≤ b.start ∨ b.stop ≤ a.start := by
  obtain ⟨f, hf, hfa, n, hn, rfl, -⟩ := ha
  obtain ⟨g, -, hgb, m, hm, rfl, -⟩ := hb
  obtain rfl : f = g := by
    rw [hfile, hgb] at hfa
    exact (Option.some.inj hfa).symm
  rcases SourceFile.keyOf_nested_or_apart hf.tree hn hm with h | h | h | h
  · exact .inl h
  · exact .inr (.inl h)
  · exact .inr (.inr (.inl (SourceFile.keyOf_start f m ▸ h)))
  · exact .inr (.inr (.inr (SourceFile.keyOf_start f n ▸ h)))

/-- **Two declarations around a third are nested**: they overlap in it. -/
theorem nested_of_overlap {a b d : DeclKey} (ha : i.Placed a) (hb : i.Placed b) (hd : i.Placed d)
    (had : a.contains d = true) (hbd : b.contains d = true) :
    a.contains b = true ∨ b.contains a = true := by
  have hlt := hd.start_lt_stop
  obtain ⟨hfa, had⟩ := DeclKey.contains_iff.1 had
  obtain ⟨hfb, hbd⟩ := DeclKey.contains_iff.1 hbd
  have ha' : a.start ≤ d.start ∧ d.stop ≤ a.stop := by
    rcases had with rfl | h
    · exact ⟨Nat.le_refl _, Nat.le_refl _⟩
    · exact h
  have hb' : b.start ≤ d.start ∧ d.stop ≤ b.stop := by
    rcases hbd with rfl | h
    · exact ⟨Nat.le_refl _, Nat.le_refl _⟩
    · exact h
  rcases nested_or_apart ha hb (hfa.trans hfb.symm) with h | h | h | h
  · exact .inl h
  · exact .inr h
  · omega
  · omega

end Placed

end Index

end Crossref
