import Std.Data.HashMap

/-!
# Tables

A table answers which elements of a list have a given key, in the order of the list.

* `find_ofList`: looking a key up is filtering the list by it.
-/

namespace Crossref

/-- The elements of a list, arranged by key. -/
structure Table (κ : Type) (α : Type) [BEq κ] [Hashable κ] where
  rows : Std.HashMap κ (List α)

namespace Table

variable {κ α : Type} [BEq κ] [Hashable κ]

/-- Puts an element in front of the others with its key; one without a key is left out. -/
def insertFront (key : α → Option κ) (x : α) (rows : Std.HashMap κ (List α)) :
    Std.HashMap κ (List α) :=
  match key x with
  | some k => rows.insert k (x :: rows.getD k [])
  | none => rows

/-- The table of a list. -/
def ofList (key : α → Option κ) (xs : List α) : Table κ α :=
  ⟨xs.foldr (insertFront key) ∅⟩

/-- The elements with the key, in the order of the list. -/
def find (t : Table κ α) (k : κ) : List α := t.rows.getD k []

instance : Inhabited (Table κ α) := ⟨⟨∅⟩⟩

theorem find_ofList [LawfulBEq κ] (key : α → Option κ) (xs : List α) (k : κ) :
    (ofList key xs).find k = xs.filter fun x => key x == some k := by
  unfold ofList find
  induction xs with
  | nil => simp
  | cons x xs ih =>
    simp only [List.foldr_cons, insertFront, List.filter_cons]
    cases hx : key x with
    | none => simpa using ih
    | some j =>
      simp only [Std.HashMap.getD_insert, Option.some_beq_some]
      by_cases hj : j = k
      · subst hj; simp [ih]
      · simp [hj, ih]

end Table

end Crossref
