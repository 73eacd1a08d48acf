import Crossref.Text.Basic
import Mathlib.Data.List.Infix

/-!
# Proofs — text — pieces between separators

A text is its pieces with a separator between any two.  So what stands between two separators is a
run of whole pieces; what stands at an end of the text, or at one separator only, begins or ends
such a run, and the piece it stands in may go on.

* `between_infix_iff`: between two separators there are whole pieces.
* `before_infix_iff_exists_pieces`, `behind_infix_iff_exists_pieces`: at one separator the outer
  piece may be longer.
* `removeAll_append`, `splitAround_append`: nothing occurs where its first character does not.
-/

namespace Crossref.Text

variable {c : Char} {p text : List Char}

/-! ### Whole pieces -/

/-- A text with a separator in front is its pieces, each behind a separator. -/
theorem flatMap_cons_splitOn (c : Char) (text : List Char) :
    (text.splitOn c).flatMap (c :: ·) = c :: text := by
  induction text with
  | nil => rfl
  | cons d text ih =>
      obtain ⟨piece, pieces, hpieces⟩ := List.exists_cons_of_ne_nil (List.splitOn_ne_nil c text)
      rw [hpieces, List.flatMap_cons, List.cons_append, List.cons_inj_right] at ih
      rw [List.splitOn_cons_eq_if_modifyHead, hpieces]
      split
      · next h => simp [ih, eq_of_beq h]
      · simp [ih]

theorem splitOn_cons_self (c : Char) (text : List Char) :
    (c :: text).splitOn c = [] :: text.splitOn c :=
  List.splitOn_append_cons_self [] text

theorem splitOn_concat_self (c : Char) (text : List Char) :
    (text ++ [c]).splitOn c = text.splitOn c ++ [[]] :=
  List.splitOn_append_cons_self text []

/-- Behind pieces there is an end or a separator. -/
theorem begins_flatMap_append (c : Char) (pieces : List (List Char)) (rest : List Char) :
    [c] <+: pieces.flatMap (c :: ·) ++ c :: rest := by
  cases pieces <;> simp

/-- What stands between two separators is a run of the pieces between the first and the last. -/
theorem between_infix_iff :
    c :: p ++ [c] <:+: text ↔ p.splitOn c <:+: (text.splitOn c).tail.dropLast := by
  constructor
  · rintro ⟨u, v, rfl⟩
    obtain ⟨first, before, hu⟩ := List.exists_cons_of_ne_nil (List.splitOn_ne_nil c u)
    have hv := List.splitOn_ne_nil c v
    have hsplit : (u ++ (c :: p ++ [c]) ++ v).splitOn c =
        u.splitOn c ++ (p.splitOn c ++ v.splitOn c) := by
      rw [List.append_assoc, List.cons_append, List.cons_append, List.append_assoc,
        List.splitOn_append_cons_self, List.singleton_append, List.splitOn_append_cons_self]
    refine ⟨before, (v.splitOn c).dropLast, ?_⟩
    rw [hsplit, hu, List.cons_append, List.tail_cons, ← List.append_assoc,
      List.dropLast_append_of_ne_nil hv]
  · rintro ⟨before, behind, h⟩
    obtain ⟨first, rest, hfirst⟩ := List.exists_cons_of_ne_nil (List.splitOn_ne_nil c text)
    rw [hfirst, List.tail_cons] at h
    rcases rest.eq_nil_or_concat with rfl | ⟨inner, last, rfl⟩
    · simp [List.splitOn_ne_nil] at h
    rw [List.concat_eq_append, List.dropLast_concat] at h
    have htext := flatMap_cons_splitOn c text
    rw [hfirst, List.concat_eq_append, ← h] at htext
    obtain ⟨w, hw⟩ := begins_flatMap_append c behind last
    refine ⟨first ++ before.flatMap (c :: ·), w, ?_⟩
    simp only [List.flatMap_cons, List.flatMap_append, List.cons_append, List.cons_inj_right,
      flatMap_cons_splitOn, List.flatMap_nil, List.append_nil, List.append_assoc] at htext
    simp [← htext, ← hw]

/-- The first pieces of a text. -/
theorem splitOn_prefix_iff : p.splitOn c <+: text.splitOn c ↔ p ++ [c] <+: text ++ [c] := by
  constructor
  · rintro ⟨behind, h⟩
    have htext := flatMap_cons_splitOn c text
    rw [← h, List.flatMap_append, flatMap_cons_splitOn, List.cons_append,
      List.cons_inj_right] at htext
    obtain ⟨w, hw⟩ := begins_flatMap_append c behind []
    exact ⟨w, by rw [← htext, List.append_assoc, List.append_assoc, hw]⟩
  · rintro ⟨v, h⟩
    have hsplit := congrArg (·.splitOn c) h
    simp only [List.append_assoc, List.singleton_append, List.splitOn_append_cons_self] at hsplit
    refine ⟨(v.splitOn c).dropLast, ?_⟩
    rw [← List.dropLast_append_of_ne_nil (List.splitOn_ne_nil c v), hsplit, List.splitOn_nil,
      List.dropLast_concat]

/-- The last pieces of a text. -/
theorem splitOn_suffix_iff : p.splitOn c <:+ text.splitOn c ↔ c :: p <:+ c :: text := by
  constructor
  · rintro ⟨before, h⟩
    have htext := flatMap_cons_splitOn c text
    rw [← h, List.flatMap_append, flatMap_cons_splitOn] at htext
    exact ⟨_, htext⟩
  · rintro ⟨u, h⟩
    have hsplit := congrArg (·.splitOn c) h
    simp only [List.splitOn_append_cons_self, splitOn_cons_self] at hsplit
    refine ⟨(u.splitOn c).tail, ?_⟩
    rw [← List.tail_append_of_ne_nil (List.splitOn_ne_nil c u), hsplit, List.tail_cons]

/-! ### Names that go on -/

/-- A text goes on without a separator up to the first one, or to its end. -/
theorem exists_first (c : Char) (text : List Char) :
    ∃ y rest, text ++ [c] = y ++ c :: rest ∧ c ∉ y :=
  List.eq_append_cons_of_mem (by simp)

/-- A text has no separator behind the last one, or behind its beginning. -/
theorem exists_last (c : Char) (text : List Char) :
    ∃ rest x, c :: text = rest ++ c :: x ∧ c ∉ x := by
  obtain ⟨x, rest, h, hx⟩ := exists_first c text.reverse
  refine ⟨rest.reverse, x.reverse, ?_, by simpa using hx⟩
  rw [← List.reverse_inj]
  simpa using h

/-- What a text begins with begins its first pieces. -/
theorem prefix_iff_exists_pieces :
    p <+: text ↔ ∃ y, c ∉ y ∧ (p ++ y).splitOn c <+: text.splitOn c := by
  simp only [splitOn_prefix_iff]
  constructor
  · rintro ⟨v, rfl⟩
    obtain ⟨y, rest, h, hy⟩ := exists_first c v
    exact ⟨y, hy, rest, by simp [h]⟩
  · rintro ⟨y, -, h⟩
    have hy : p ++ y <+: text := by
      rcases List.prefix_concat_iff.1 h with h | h
      · exact (List.append_left_inj [c]).1 h ▸ List.prefix_refl _
      · exact (List.prefix_append _ [c]).trans h
    exact (List.prefix_append p y).trans hy

/-- What a text ends with ends its last pieces. -/
theorem suffix_iff_exists_pieces :
    p <:+ text ↔ ∃ x, c ∉ x ∧ (x ++ p).splitOn c <:+ text.splitOn c := by
  simp only [splitOn_suffix_iff]
  constructor
  · rintro ⟨u, rfl⟩
    obtain ⟨rest, x, h, hx⟩ := exists_last c u
    refine ⟨x, hx, rest, ?_⟩
    rw [← List.cons_append, ← List.cons_append, h, List.append_assoc]
  · rintro ⟨x, -, h⟩
    have hx : x ++ p <:+ text := by
      rcases List.suffix_cons_iff.1 h with h | h
      · exact (List.cons_inj_right c).1 h ▸ List.suffix_refl _
      · exact (List.suffix_cons c _).trans h
    exact (List.suffix_append x p).trans hx

/-- What stands before a separator ends a run of the pieces before the last. -/
theorem before_infix_iff_exists_pieces :
    p ++ [c] <:+: text ↔
      ∃ x, c ∉ x ∧ (x ++ p).splitOn c <:+: (text.splitOn c).dropLast := by
  have hbetween (q : List Char) :
      q.splitOn c <:+: (text.splitOn c).dropLast ↔ c :: q ++ [c] <:+: c :: text := by
    rw [between_infix_iff, splitOn_cons_self, List.tail_cons]
  simp only [hbetween]
  constructor
  · rintro ⟨u, v, rfl⟩
    obtain ⟨rest, x, h, hx⟩ := exists_last c u
    refine ⟨x, hx, rest, v, ?_⟩
    simpa using congrArg (· ++ (p ++ c :: v)) h.symm
  · rintro ⟨x, -, h⟩
    have hx : x ++ p ++ [c] <:+: text := by
      rcases List.infix_cons_iff.1 h with h | h
      · exact (List.cons_prefix_cons.1 h).2.isInfix
      · exact (List.suffix_cons c _).isInfix.trans h
    rw [List.append_assoc] at hx
    exact (List.suffix_append x _).isInfix.trans hx

/-- What stands behind a separator begins a run of the pieces behind the first. -/
theorem behind_infix_iff_exists_pieces :
    c :: p <:+: text ↔ ∃ y, c ∉ y ∧ (p ++ y).splitOn c <:+: (text.splitOn c).tail := by
  have hbetween (q : List Char) :
      q.splitOn c <:+: (text.splitOn c).tail ↔ c :: q ++ [c] <:+: text ++ [c] := by
    rw [between_infix_iff, splitOn_concat_self,
      List.tail_append_of_ne_nil (List.splitOn_ne_nil c text), List.dropLast_concat]
  simp only [hbetween]
  constructor
  · rintro ⟨u, v, rfl⟩
    obtain ⟨y, rest, h, hy⟩ := exists_first c v
    refine ⟨y, hy, u, rest, ?_⟩
    simpa using congrArg (u ++ c :: p ++ ·) h.symm
  · rintro ⟨y, -, h⟩
    have hy : c :: (p ++ y) <:+: text := by
      rcases List.infix_concat_iff.1 h with h | h
      · exact (List.suffix_append_self_iff.1 h).isInfix
      · exact (List.prefix_append _ [c]).isInfix.trans h
    exact (List.prefix_append (c :: p) y).isInfix.trans hy

/-! ### Occurrences -/

/-- Nothing is removed before the character that an occurrence would begin with. -/
theorem removeAll_append {c : Char} {d : List Char} (h : c ∉ d) (p rest : List Char) :
    removeAll (c :: p) (d ++ rest) = d ++ removeAll (c :: p) rest := by
  induction d with
  | nil => rfl
  | cons e d ih =>
      rw [List.mem_cons, not_or] at h
      have hstep : removeAll (c :: p) (e :: (d ++ rest)) =
          e :: removeAll (c :: p) (d ++ rest) := by
        simp [removeAll, removeAllFrom, h.1]
      rw [List.cons_append, hstep, ih h.2, List.cons_append]

/-- The first piece holds what stands before the character that an occurrence would begin with. -/
theorem splitAround_append {c : Char} {d p rest piece : List Char} {pieces : List (List Char)}
    (h : c ∉ d) (hrest : splitAround (c :: p) rest = piece :: pieces) :
    splitAround (c :: p) (d ++ rest) = (d ++ piece) :: pieces := by
  induction d with
  | nil => exact hrest
  | cons e d ih =>
      rw [List.mem_cons, not_or] at h
      have hd := ih h.2
      unfold splitAround at hd ⊢
      simp [splitAroundFrom, h.1, hd]

end Crossref.Text
