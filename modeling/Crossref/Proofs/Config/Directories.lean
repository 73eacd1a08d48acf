import Crossref.Proofs.Config.Patterns
import Crossref.Proofs.Text.Pieces

/-!
# Proofs — config — patterns of directories

A pattern with stars on both sides, `**/D/**`, matches a text that has the names of `D` as whole
names, one behind the other, and something below them.  With stars on one side only the outermost
name of the fragment may be the end or the beginning of a longer one: `build/**` matches what lies
below `rebuild` or `buildSrc`, and `**/build` what is named so.

* `isMatch_inside_iff`: `**/D/**` matches whole directories.
* `isMatch_oneSided_iff`: what `D/**` and `**/F` match.
-/

namespace Crossref.Glob

/-- A part of a pattern that names something: it is not empty, holds no star, and has no slash at
either end. -/
structure Fragment (d : List Char) : Prop where
  ne_nil : d ≠ []
  no_star : '*' ∉ d
  head?_ne : d.head? ≠ some '/'
  getLast?_ne : d.getLast? ≠ some '/'

instance (d : List Char) : Decidable (Fragment d) :=
  decidable_of_iff (d ≠ [] ∧ '*' ∉ d ∧ d.head? ≠ some '/' ∧ d.getLast? ≠ some '/')
    ⟨fun ⟨h₁, h₂, h₃, h₄⟩ => ⟨h₁, h₂, h₃, h₄⟩, fun ⟨h₁, h₂, h₃, h₄⟩ => ⟨h₁, h₂, h₃, h₄⟩⟩

/-! ### Where a fragment stands in its pattern -/

namespace Fragment

variable {d : List Char} (h : Fragment d)
include h

/-- Nothing is stripped from behind a fragment. -/
theorem stripEnd_eq : Text.stripEnd '/' d = d := by
  obtain ⟨init, last, rfl⟩ := List.eq_nil_or_concat d |>.resolve_left h.ne_nil
  have hlast : last ≠ '/' := by simpa using h.getLast?_ne
  simp [Text.stripEnd, hlast]

/-- Nothing is stripped from in front of a fragment. -/
theorem dropWhile_eq : d.dropWhile (· == '/') = d := by
  obtain ⟨first, rest, rfl⟩ := List.exists_cons_of_ne_nil h.ne_nil
  have hfirst : first ≠ '/' := by simpa using h.head?_ne
  simp [hfirst]

/-- Removing `/**` leaves the fragment before it. -/
theorem removeAll_eq : Text.removeAll "/**".toList (d ++ "/**".toList) = d := by
  have hstar := h.no_star
  clear h
  induction d with
  | nil => rfl
  | cons e d ih =>
      rw [List.mem_cons, not_or] at hstar
      have hstep : Text.removeAll "/**".toList (e :: (d ++ "/**".toList)) =
          e :: Text.removeAll "/**".toList (d ++ "/**".toList) := by
        rcases d with _ | ⟨e', d⟩
        · simp [Text.removeAll, Text.removeAllFrom]
        · have hne : '*' ≠ e' := fun heq => hstar.2 (heq ▸ List.mem_cons_self)
          simp [Text.removeAll, Text.removeAllFrom, hne]
      rw [List.cons_append, hstep, ih hstar.2]

/-- The directory between the stars is the fragment. -/
theorem directoryName_eq : directoryName ("**/".toList ++ d ++ "/**".toList) = d := by
  have hfront : Text.removeAll "**/".toList ("**/".toList ++ d ++ "/**".toList) =
      d ++ "/**".toList := Text.removeAll_append h.no_star "*/".toList "/**".toList
  rw [directoryName, hfront, h.removeAll_eq, Text.stripBoth, h.dropWhile_eq, h.stripEnd_eq]

/-- `**/D/**` looks for the directory. -/
theorem isMatch_inside (text : List Char) :
    isMatch ("**/".toList ++ d ++ "/**".toList) text = holdsDirectory d text := by
  have hslash : ("**/".toList ++ d ++ "/**".toList).contains '/' = true := by simp
  have hstars : Text.occursIn "**".toList ("**/".toList ++ d ++ "/**".toList) = true := rfl
  have hbegins : begins "**/".toList ("**/".toList ++ d ++ "/**".toList) = true := rfl
  have hends : ends "/**".toList ("**/".toList ++ d ++ "/**".toList) = true :=
    ends_iff.2 (List.suffix_append _ _)
  rw [isMatch, hslash, hstars, hbegins, hends, h.directoryName_eq]
  simp

/-- `D/**` looks for what stands before the stars. -/
theorem isMatch_below (text : List Char) :
    isMatch (d ++ "/**".toList) text = matchesAround d [] text := by
  have hslash : (d ++ "/**".toList).contains '/' = true := by simp
  have hstars : Text.occursIn "**".toList (d ++ "/**".toList) = true :=
    (Text.occursIn_iff _ _).2 ⟨d ++ ['/'], [], by simp⟩
  have hbegins : begins "**/".toList (d ++ "/**".toList) = false := by
    obtain ⟨e, d, rfl⟩ := List.exists_cons_of_ne_nil h.ne_nil
    rw [Bool.eq_false_iff, ne_eq, begins_iff]
    exact fun hprefix => h.no_star ((List.cons_prefix_cons.1 hprefix).1 ▸ List.mem_cons_self)
  have hsplit : Text.splitAround "**".toList (d ++ "/**".toList) = [d ++ ['/'], []] :=
    Text.splitAround_append h.no_star rfl
  have hbefore : Text.stripEnd '/' (d ++ ['/']) = d := by
    conv_rhs => rw [← h.stripEnd_eq]
    simp [Text.stripEnd]
  rw [isMatch, hslash, hstars, hbegins, hsplit]
  simp [hbefore]

/-- `**/F` looks for what stands behind the stars. -/
theorem isMatch_behind (text : List Char) :
    isMatch ("**/".toList ++ d) text = matchesAround [] d text := by
  have hslash : ("**/".toList ++ d).contains '/' = true := by simp
  have hstars : Text.occursIn "**".toList ("**/".toList ++ d) = true := rfl
  have hends : ends "/**".toList ("**/".toList ++ d) = false := by
    obtain ⟨init, last, rfl⟩ := List.eq_nil_or_concat d |>.resolve_left h.ne_nil
    rw [Bool.eq_false_iff, ne_eq, ends_iff]
    rintro ⟨u, hu⟩
    have hlast : '*' = last := by
      have hend := congrArg List.getLast? hu
      rw [List.concat_eq_append, ← List.append_assoc, List.getLast?_concat,
        List.getLast?_append_of_ne_nil _ (by simp)] at hend
      exact Option.some.inj hend
    exact h.no_star (hlast ▸ by simp)
  have hsplit : Text.splitAround "**".toList ("**/".toList ++ d) = [[], '/' :: d] := by
    have hnone : Text.splitAround ['*', '*'] ('/' :: d ++ []) = ['/' :: d ++ []] :=
      Text.splitAround_append (by simpa using h.no_star) rfl
    rw [List.append_nil] at hnone
    exact congrArg ([] :: ·) hnone
  rw [isMatch, hslash, hstars, hends, hsplit]
  simp [h.dropWhile_eq, Text.stripEnd]

end Fragment

/-! ### What is matched -/

theorem occursIn_iff_infix {p text : List Char} : Text.occursIn p text = true ↔ p <:+: text := by
  rw [Text.occursIn_iff]
  exact ⟨fun ⟨u, v, h⟩ => ⟨u, v, h.symm⟩, fun ⟨u, v, h⟩ => ⟨u, v, h.symm⟩⟩

/-- With nothing behind the stars, what stands before them begins the text or is followed by a
slash. -/
theorem matchesAround_nil_right_iff {name text : List Char} (hname : name ≠ []) :
    matchesAround name [] text = true ↔ name <+: text ∨ name ++ ['/'] <:+: text := by
  obtain ⟨c, cs, rfl⟩ := List.exists_cons_of_ne_nil hname
  rw [matchesAround, Bool.or_eq_true, begins_iff, occursIn_iff_infix]
  simp

/-- A directory at the beginning of a text is one behind a slash when a slash is put in front. -/
theorem holdsDirectory_eq (d text : List Char) :
    holdsDirectory d text = Text.occursIn ('/' :: d ++ ['/']) ('/' :: text) := by
  rw [holdsDirectory, Bool.or_comm]
  rfl

/-- **Stars on both sides** match whole directories: the pieces of the fragment are a run of the
pieces of the text, and one more piece follows. -/
theorem isMatch_inside_iff {d : List Char} (h : Fragment d) (text : List Char) :
    isMatch ("**/".toList ++ d ++ "/**".toList) text = true ↔
      d.splitOn '/' <:+: (text.splitOn '/').dropLast := by
  rw [h.isMatch_inside, holdsDirectory_eq, occursIn_iff_infix, Text.between_infix_iff,
    Text.splitOn_cons_self, List.tail_cons]

/-- Two directories, one below the other, are found in a path with more around them, and a longer
name is another directory. -/
theorem isMatch_inside_iff_generated :
    Fragment "build/gen".toList ∧
    isMatch "**/build/gen/**".toList "/p/build/gen/A.kt".toList = true ∧
    isMatch "**/build/gen/**".toList "/p/rebuild/gen/build/gen".toList = false := by
  have hfragment : Fragment "build/gen".toList := by decide
  exact ⟨hfragment, (isMatch_inside_iff hfragment _).2 (by decide),
    Bool.eq_false_iff.2 (mt (isMatch_inside_iff hfragment _).1 (by decide))⟩

/-- **Stars on one side** match whole directories but for the outermost name.  `D/**` matches a text
that begins with `D`, whose last name may go on, and one that has the names of `D` with more below
them, the first of which may have begun before.  `**/F` matches a text that ends with `F`, whose
first name may have begun before, and one that has the names of `F` behind a slash, the last of
which may go on. -/
theorem isMatch_oneSided_iff {d f : List Char} (hd : Fragment d) (hf : Fragment f)
    (text : List Char) :
    (isMatch (d ++ "/**".toList) text = true ↔
      (∃ y, '/' ∉ y ∧ (d ++ y).splitOn '/' <+: text.splitOn '/') ∨
        ∃ x, '/' ∉ x ∧ (x ++ d).splitOn '/' <:+: (text.splitOn '/').dropLast) ∧
    (isMatch ("**/".toList ++ f) text = true ↔
      (∃ x, '/' ∉ x ∧ (x ++ f).splitOn '/' <:+ text.splitOn '/') ∨
        ∃ y, '/' ∉ y ∧ (f ++ y).splitOn '/' <:+: (text.splitOn '/').tail) := by
  rw [hd.isMatch_below, matchesAround_nil_right_iff hd.ne_nil, hf.isMatch_behind,
    matchesAround_nil_iff, occursIn_iff_infix, Text.prefix_iff_exists_pieces,
    Text.before_infix_iff_exists_pieces, Text.suffix_iff_exists_pieces,
    Text.behind_infix_iff_exists_pieces]
  exact ⟨Iff.rfl, Iff.rfl⟩

theorem isMatch_oneSided_iff_build :
    Fragment "build".toList ∧
    isMatch "build/**".toList "app/build/A.kt".toList = true ∧
    isMatch "**/build".toList "app/build".toList = true := by
  have hfragment : Fragment "build".toList := by decide
  have h := isMatch_oneSided_iff hfragment hfragment
  exact ⟨hfragment, (h "app/build/A.kt".toList).1.2 (.inr ⟨[], by decide, by decide⟩),
    (h "app/build".toList).2.2 (.inl ⟨[], by decide, by decide⟩)⟩

/-- Names that only begin or end with the fragment are matched, too. -/
theorem isMatch_oneSided_longer :
    Fragment "build".toList ∧
    isMatch "build/**".toList "buildSrc/A.kt".toList = true ∧
    ¬ "build".toList.splitOn '/' <:+: "buildSrc/A.kt".toList.splitOn '/' ∧
    isMatch "**/build".toList "app/rebuild".toList = true ∧
    ¬ "build".toList.splitOn '/' <:+: "app/rebuild".toList.splitOn '/' := by
  decide

end Crossref.Glob
