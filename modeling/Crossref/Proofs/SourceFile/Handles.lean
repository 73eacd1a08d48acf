import Crossref.Proofs.Java.Walk
import Crossref.Proofs.SourceFile.Keys
import Mathlib.Data.List.Nodup

/-!
# Proofs — source files — handles of symbols

A handle carries the key of a declaration, so symbols of different declarations have different
handles as long as no two declarations of the file have the same key.  `Keyed` says of a list of
symbols that their handles are different and that each has the key of a declaration of some sort;
lists whose sorts exclude each other can be put together.

* `Keyed.append`, `Keyed.flatMap`: lists of different sorts.
* `Keyed.of_node`: the symbols of one declaration, told apart by their kinds and slots.
-/

namespace Crossref

/-- The declarations of a Java file. -/
def Java.declarationKinds : List String := "enum_constant" :: Java.memberKinds

/-- What tells the symbols of one declaration apart. -/
def Symbol.mark (s : Symbol) : Symbol.Kind × Nat := (s.handle.kind, s.handle.slot)

namespace SourceFile
open Node

/-- The node is a declaration; of the parameters of a constructor only the properties are. -/
def IsDeclaration (f : SourceFile) (n : Node) : Prop :=
  match f.language with
  | .kotlin => Kotlin.isCaretDeclaration n f.text = true
  | .java => n.kind ∈ Java.declarationKinds

instance (f : SourceFile) (n : Node) : Decidable (f.IsDeclaration n) :=
  match h : f.language with
  | .kotlin =>
    decidable_of_iff (Kotlin.isCaretDeclaration n f.text = true) (by rw [IsDeclaration, h])
  | .java => decidable_of_iff (n.kind ∈ Java.declarationKinds) (by rw [IsDeclaration, h])

/-- No two declarations of the file have the same key. -/
def KeysDiffer (f : SourceFile) : Prop :=
  ∀ n m, Within f.tree n → Within f.tree m → f.IsDeclaration n → f.IsDeclaration m →
    f.keyOf n = f.keyOf m → n = m

theorem keysDiffer_of_nodup {f : SourceFile}
    (h : ((f.top.preorder.filter fun n => f.IsDeclaration n).map f.keyOf).Nodup) :
    f.KeysDiffer := by
  intro n m hn hm hdn hdm hkey
  refine List.inj_on_of_nodup_map h ?_ ?_ hkey
  · exact List.mem_filter.2 ⟨within_iff_mem_preorder.1 hn, by simpa using hdn⟩
  · exact List.mem_filter.2 ⟨within_iff_mem_preorder.1 hm, by simpa using hdm⟩

/-- The symbols have different handles, each with the key of a declaration of the sort. -/
structure Keyed (f : SourceFile) (sort : Node → Prop) (l : List Symbol) : Prop where
  nodup : (l.map Symbol.handle).Nodup
  placed : ∀ s ∈ l, ∃ n, Within f.tree n ∧ f.IsDeclaration n ∧ sort n ∧ s.handle.key = f.keyOf n

namespace Keyed

variable {f : SourceFile} {sort other : Node → Prop} {l k : List Symbol}

theorem nil : Keyed f sort [] := ⟨List.nodup_nil, fun _ h => nomatch h⟩

theorem mono (h : Keyed f sort l) (himp : ∀ n, sort n → other n) : Keyed f other l := by
  refine ⟨h.nodup, fun s hs => ?_⟩
  obtain ⟨n, hn, hd, hsort, hkey⟩ := h.placed s hs
  exact ⟨n, hn, hd, himp n hsort, hkey⟩

/-- The symbols of one declaration, told apart by their kinds and slots. -/
theorem of_node {n : Node} (hn : Within f.tree n) (hd : f.IsDeclaration n)
    (hkey : ∀ s ∈ l, s.handle.key = f.keyOf n)
    (h : (l.map Symbol.mark).Nodup) : Keyed f (· = n) l := by
  refine ⟨?_, fun s hs => ⟨n, hn, hd, rfl, hkey s hs⟩⟩
  refine List.Nodup.of_map (fun h : Handle => (h.kind, h.slot)) ?_
  rwa [List.map_map]

theorem toList {n : Node} {o : Option Symbol} (hn : Within f.tree n) (hd : f.IsDeclaration n)
    (hkey : ∀ s, o = some s → s.handle.key = f.keyOf n) : Keyed f (· = n) o.toList := by
  cases o with
  | none => exact nil
  | some s => exact of_node hn hd (by simpa using hkey s rfl) (by simp)

variable (hkeys : f.KeysDiffer)
include hkeys

/-- Symbols of declarations of different sorts have different handles. -/
theorem ne_of_disjoint (hl : Keyed f sort l) (hk : Keyed f other k)
    (hdisjoint : ∀ n, sort n → ¬ other n) {s t : Symbol} (hs : s ∈ l) (ht : t ∈ k) :
    s.handle ≠ t.handle := by
  intro heq
  obtain ⟨n, hn, hdn, hsort, hkey⟩ := hl.placed s hs
  obtain ⟨m, hm, hdm, hother, hkey'⟩ := hk.placed t ht
  obtain rfl := hkeys n m hn hm hdn hdm (by rw [← hkey, ← hkey', heq])
  exact hdisjoint n hsort hother

theorem append (hl : Keyed f sort l) (hk : Keyed f other k)
    (hdisjoint : ∀ n, sort n → ¬ other n) : Keyed f (fun n => sort n ∨ other n) (l ++ k) := by
  constructor
  · rw [List.map_append, List.nodup_append]
    refine ⟨hl.nodup, hk.nodup, fun a ha b hb => ?_⟩
    obtain ⟨s, hs, rfl⟩ := List.mem_map.1 ha
    obtain ⟨t, ht, rfl⟩ := List.mem_map.1 hb
    exact ne_of_disjoint hkeys hl hk hdisjoint hs ht
  · intro s hs
    rcases List.mem_append.1 hs with hs | hs
    · exact (hl.mono fun _ => .inl).placed s hs
    · exact (hk.mono fun _ => .inr).placed s hs

/-- The symbols of separate nodes, each with keys from below its node. -/
theorem flatMap {xs : List Node} {g : Node → List Symbol} {sorts : Node → Node → Prop}
    (hxs : Separate xs) (hbelow : ∀ x n, sorts x n → Below x n)
    (h : ∀ x ∈ xs, Keyed f (sorts x) (g x)) :
    Keyed f (fun n => ∃ x ∈ xs, sorts x n) (xs.flatMap g) := by
  induction xs with
  | nil => exact nil
  | cons x xs ih =>
      have hx := h x List.mem_cons_self
      have hrest := ih (List.pairwise_cons.1 hxs).2 fun y hy => h y (List.mem_cons_of_mem x hy)
      rw [List.flatMap_cons]
      refine (append hkeys hx hrest fun n hxn ⟨y, hy, hyn⟩ => ?_).mono fun n hn => ?_
      · exact (List.pairwise_cons.1 hxs).1 y hy n (hbelow x n hxn) (hbelow y n hyn)
      · rcases hn with hxn | ⟨y, hy, hyn⟩
        · exact ⟨x, List.mem_cons_self, hxn⟩
        · exact ⟨y, List.mem_cons_of_mem x hy, hyn⟩

/-- The symbols of the children of a node, each with keys from below its child. -/
theorem flatMap_children {n : Node} {g : Node → List Symbol}
    (h : ∀ c ∈ n.children, Keyed f (Below c) (g c)) :
    Keyed f (Below n) (n.children.flatMap g) := by
  refine (flatMap hkeys (separate_children n) (fun _ _ hm => hm) h).mono ?_
  rintro m ⟨c, hc, hm⟩
  exact (Below.of_mem_children hc).trans hm

/-- The symbols of separate nodes that introduce one symbol at most. -/
theorem filterMap {xs : List Node} {g : Node → Option Symbol} (hxs : Separate xs)
    (h : ∀ x ∈ xs, Keyed f (· = x) (g x).toList) : Keyed f (· ∈ xs) (xs.filterMap g) := by
  rw [List.filterMap_eq_flatMap_toList]
  have hbelow : ∀ x n : Node, n = x → Below x n := fun x n hn => hn ▸ .refl
  refine (flatMap hkeys hxs hbelow h).mono fun n hn => ?_
  obtain ⟨x, hx, rfl⟩ := hn
  exact hx

end Keyed

end SourceFile

end Crossref
