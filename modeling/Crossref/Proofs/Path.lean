import Crossref.Path

/-!
# Proofs — paths — their order

The order of paths is the lexicographic order of their components, and that of components goes by
what sort of step they are and then by their names.  So it is a total order of what paths name, and
two paths are neither before nor behind each other exactly when they are spellings of one path.

* `compare_eq_eq_iff`: paths that the order does not tell apart have the same components.
-/

namespace Crossref.Path

namespace Component

/-- The text of a name. -/
def text : Component → String
  | .name t => t
  | _ => ""

/-- Components are compared by their sort first, and then by name. -/
theorem compare_eq_compareLex : compare = compareLex (compareOn rank) (compareOn text) := by
  funext a b
  cases a <;> cases b <;> rfl

instance : Std.TransCmp compare := by
  rw [compare_eq_compareLex]
  infer_instance

instance : Std.LawfulEqCmp compare where
  compare_self := Std.ReflCmp.compare_self
  eq_of_compare := by
    intro a b h
    cases a <;> cases b <;> simp_all [compare, rank]

end Component

/-- Lists of components are compared by the first that differs. -/
theorem compareComponents_eq_compareLex :
    compareComponents = List.compareLex Component.compare := by
  funext as bs
  induction as generalizing bs with
  | nil => cases bs <;> rfl
  | cons a as ih =>
      cases bs with
      | nil => rfl
      | cons b bs => rw [compareComponents, List.compareLex_cons_cons, ih]

instance : Std.TransCmp compareComponents := by
  rw [compareComponents_eq_compareLex]
  infer_instance

instance : Std.LawfulEqCmp compareComponents := by
  rw [compareComponents_eq_compareLex]
  infer_instance

instance : Std.TransCmp compare where
  eq_swap {p q} :=
    @Std.OrientedCmp.eq_swap _ compareComponents _ p.components q.components
  isLE_trans {p q r} :=
    @Std.TransCmp.isLE_trans _ compareComponents _ p.components q.components r.components

variable {p q : Path}

/-- **The order does not tell two paths apart** exactly when they are spellings of one path. -/
theorem compare_eq_eq_iff : p.compare q = .eq ↔ p.Same q :=
  @Std.LawfulEqCmp.compare_eq_iff_eq _ compareComponents _ p.components q.components

/-- A path that comes before another is no other spelling of it. -/
theorem not_same_of_compare_eq_lt (h : p.compare q = .lt) : ¬ p.Same q := by
  rw [← compare_eq_eq_iff, h]
  simp

end Crossref.Path
