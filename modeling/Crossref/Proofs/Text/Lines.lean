import Crossref.Proofs.Text.Position

/-!
# Proofs — text — lines and columns

The lines of a text, joined by line feeds, are the text.  So every place between two characters lies
in one line, behind as many of its characters as its column says, and a line and a column lead to
one place.

* `offsetOf?_eq_some_iff`: the place at a line and column stands behind the lines above and the
  first characters of the line.
* `lineColumn?_eq_some_iff`: a place has a line and column exactly when they lead to it.
-/

namespace Crossref.Text

/-! ### The lines above a line -/

/-- The text above the line with index `i`. -/
def above (ls : List (List Char)) (i : Nat) : List Char := (ls.take i).flatMap (· ++ ['\n'])

@[simp] theorem above_zero (ls : List (List Char)) : above ls 0 = [] := rfl

@[simp] theorem above_cons_succ (l : List Char) (ls : List (List Char)) (i : Nat) :
    above (l :: ls) (i + 1) = l ++ '\n' :: above ls i := by
  simp [above]

@[simp] theorem lineStart_zero (ls : List (List Char)) : lineStart ls 0 = 0 := rfl

@[simp] theorem lineStart_cons_succ (l : List Char) (ls : List (List Char)) (i : Nat) :
    lineStart (l :: ls) (i + 1) = byteSize l + 1 + lineStart ls i := rfl

theorem byteSize_cons (c : Char) (cs : List Char) :
    byteSize (c :: cs) = c.utf8Size + byteSize cs := rfl

theorem utf8Size_lineFeed : '\n'.utf8Size = 1 := rfl

/-- A line starts behind the text above it. -/
theorem byteSize_above (ls : List (List Char)) (i : Nat) :
    byteSize (above ls i) = lineStart ls i := by
  induction ls generalizing i with
  | nil => cases i <;> rfl
  | cons l ls ih =>
      cases i with
      | zero => rfl
      | succ i =>
          rw [above_cons_succ, byteSize_append, byteSize_cons, utf8Size_lineFeed, ih,
            lineStart_cons_succ, Nat.add_assoc]

/-- Above a line there are as many line feeds as lines. -/
theorem count_above {ls : List (List Char)} (hfree : ∀ l ∈ ls, '\n' ∉ l) {i : Nat}
    (hi : i ≤ ls.length) : (above ls i).count '\n' = i := by
  induction ls generalizing i with
  | nil => simp_all [above]
  | cons l ls ih =>
      cases i with
      | zero => rfl
      | succ i =>
          have hl : l.count '\n' = 0 := List.count_eq_zero.2 (hfree l List.mem_cons_self)
          have hrest := ih (fun m hm => hfree m (List.mem_cons_of_mem l hm))
            (Nat.le_of_succ_le_succ hi)
          rw [above_cons_succ, List.count_append, hl, List.count_cons_self, hrest, Nat.zero_add]

theorem above_eq_nil_or_getLast? (ls : List (List Char)) (i : Nat) :
    above ls i = [] ∨ (above ls i).getLast? = some '\n' := by
  induction ls generalizing i with
  | nil => exact .inl (by simp [above])
  | cons l ls ih =>
      cases i with
      | zero => exact .inl rfl
      | succ i =>
          right
          rcases ih i with h | h <;> simp [List.getLast?_cons, h]

/-! ### A text as its lines -/

theorem intercalate_cons (l : List Char) {ls : List (List Char)} (h : ls ≠ []) :
    ['\n'].intercalate (l :: ls) = l ++ '\n' :: ['\n'].intercalate ls := by
  rw [List.intercalate_cons_of_ne_nil h]
  simp

/-- A line stands behind the text above it. -/
theorem exists_rest_of_getElem? {ls : List (List Char)} {i : Nat} {l : List Char}
    (h : ls[i]? = some l) : ∃ rest, ['\n'].intercalate ls = above ls i ++ (l ++ rest) := by
  induction ls generalizing i with
  | nil => cases h
  | cons m ls ih =>
      cases i with
      | zero =>
          obtain rfl : m = l := by simpa using h
          by_cases hls : ls = []
          · subst hls
            exact ⟨[], by simp⟩
          · exact ⟨_, intercalate_cons m hls⟩
      | succ i =>
          have h : ls[i]? = some l := by simpa using h
          have hls : ls ≠ [] := List.ne_nil_of_mem (List.mem_of_getElem? h)
          obtain ⟨rest, hrest⟩ := ih h
          exact ⟨rest, by rw [intercalate_cons m hls, hrest, above_cons_succ]; simp⟩

/-- Behind the last line there is nothing. -/
theorem intercalate_eq_of_last {ls : List (List Char)} {i : Nat} {l : List Char}
    (h : ls[i]? = some l) (hlast : ls.length ≤ i + 1) :
    ['\n'].intercalate ls = above ls i ++ l := by
  induction ls generalizing i with
  | nil => cases h
  | cons m ls ih =>
      cases i with
      | zero =>
          obtain rfl : m = l := by simpa using h
          obtain rfl : ls = [] := List.length_eq_zero_iff.1 (by simpa using hlast)
          simp
      | succ i =>
          have h : ls[i]? = some l := by simpa using h
          have hls : ls ≠ [] := List.ne_nil_of_mem (List.mem_of_getElem? h)
          rw [intercalate_cons m hls, ih h (by simpa using hlast), above_cons_succ]
          simp

/-- A beginning of a text ends in one of its lines. -/
theorem exists_line_of_prefix {ls : List (List Char)} (hls : ls ≠ []) {before : List Char}
    (h : before <+: ['\n'].intercalate ls) :
    ∃ (i : Nat) (l : List Char) (k : Nat),
      ls[i]? = some l ∧ k ≤ l.length ∧ before = above ls i ++ l.take k := by
  induction ls generalizing before with
  | nil => exact absurd rfl hls
  | cons l ls ih =>
      have inFirst (h : before <+: l) : ∃ (i : Nat) (m : List Char) (k : Nat),
          (l :: ls)[i]? = some m ∧ k ≤ m.length ∧ before = above (l :: ls) i ++ m.take k :=
        ⟨0, l, before.length, rfl, h.length_le, List.prefix_iff_eq_take.1 h⟩
      by_cases hnil : ls = []
      · subst hnil
        exact inFirst (by simpa using h)
      · rw [intercalate_cons l hnil] at h
        rcases List.prefix_or_prefix_of_prefix h (List.prefix_append _ _) with hl | ⟨tail, rfl⟩
        · exact inFirst hl
        · -- what goes beyond the first line begins with its line feed
          have htail := (List.prefix_append_right_inj l).1 h
          cases tail with
          | nil => exact inFirst (by simp)
          | cons c tail =>
              obtain ⟨rfl, hpre⟩ := List.cons_prefix_cons.1 htail
              obtain ⟨i, m, k, hm, hk, rfl⟩ := ih hnil hpre
              exact ⟨i + 1, m, k, by simpa using hm, hk, by simp⟩

theorem lines_ne_nil (s : String) : lines s ≠ [] := List.splitOn_ne_nil _ _

theorem intercalate_lines (s : String) : ['\n'].intercalate (lines s) = s.toList :=
  List.intercalate_splitOn _

/-- No line holds a line feed. -/
theorem lineFeed_notMem_of_mem_splitOn (cs : List Char) :
    ∀ l ∈ cs.splitOn '\n', '\n' ∉ l := by
  induction cs with
  | nil => simp [List.splitOn_nil]
  | cons c cs ih =>
      rw [List.splitOn_cons_eq_if_modifyHead]
      by_cases hc : c = '\n'
      · simpa [hc] using ih
      · obtain ⟨l, ls, hls⟩ := List.exists_cons_of_ne_nil (List.splitOn_ne_nil '\n' cs)
        rw [hls] at ih ⊢
        simpa [hc, Ne.symm hc] using ih

theorem lineFeed_notMem (s : String) : ∀ l ∈ lines s, '\n' ∉ l :=
  lineFeed_notMem_of_mem_splitOn s.toList

/-! ### Lines and columns -/

section Lines

variable {s : String} {b i k : Nat} {l : List Char}

/-- Behind the first characters of a line there is a place between characters. -/
theorem stands_in_line (h : (lines s)[i]? = some l) (k : Nat) :
    ∃ after, Stands s (byteSize (above (lines s) i ++ l.take k))
      (above (lines s) i ++ l.take k) after := by
  obtain ⟨rest, hrest⟩ := exists_rest_of_getElem? h
  refine ⟨l.drop k ++ rest, ?_, rfl⟩
  rw [← intercalate_lines, hrest, List.append_assoc, ← List.append_assoc (l.take k),
    List.take_append_drop]

/-- Every place between characters is one behind the first characters of a line. -/
theorem OnBoundary.exists_line (h : OnBoundary s b) :
    ∃ i l k, (lines s)[i]? = some l ∧ k ≤ l.length ∧
      b = byteSize (above (lines s) i ++ l.take k) := by
  obtain ⟨before, after, hs, rfl⟩ := h
  have hpre : before <+: ['\n'].intercalate (lines s) := by
    rw [intercalate_lines, hs]
    exact List.prefix_append before after
  obtain ⟨i, l, k, hl, hk, rfl⟩ := exists_line_of_prefix (lines_ne_nil s) hpre
  exact ⟨i, l, k, hl, hk, rfl⟩

/-- **The place behind the first characters of a line has the line's number**, and the column after
as many characters. -/
theorem lineColumn?_in_line (h : (lines s)[i]? = some l) (hk : k ≤ l.length) :
    lineColumn? s (byteSize (above (lines s) i ++ l.take k)) = some (i + 1, k + 1) := by
  obtain ⟨after, hstands⟩ := stands_in_line h k
  have hi : i ≤ (lines s).length := Nat.le_of_lt (List.getElem?_eq_some_iff.1 h).1
  have hfree : '\n' ∉ l.take k := fun hm =>
    lineFeed_notMem s l (List.mem_of_getElem? h) (List.mem_of_mem_take hm)
  have hcount : (above (lines s) i ++ l.take k).count '\n' = i := by
    rw [List.count_append, count_above (lineFeed_notMem s) hi, List.count_eq_zero.2 hfree,
      Nat.add_zero]
  have hline : ∀ c ∈ (l.take k).reverse, (c != '\n') = true := fun c hc =>
    bne_iff_ne.2 fun e => hfree (e ▸ List.mem_reverse.1 hc)
  have hstop : (above (lines s) i).reverse.takeWhile (· != '\n') = [] := by
    rcases above_eq_nil_or_getLast? (lines s) i with ha | ha
    · rw [ha]; rfl
    · rw [← List.head?_reverse] at ha
      obtain ⟨cs, hcs⟩ := List.head?_eq_some_iff.1 ha
      rw [hcs]; rfl
  have hlen : ((above (lines s) i ++ l.take k).reverse.takeWhile (· != '\n')).length = k := by
    rw [List.reverse_append, List.takeWhile_append_of_pos hline, hstop, List.append_nil,
      List.length_reverse, List.length_take, Nat.min_eq_left hk]
  rw [lineColumn?, hstands.takeBytes?, Option.map_some, hcount, hlen]

/-- **The place at a line and column** stands behind the lines above and the first characters of the
line. -/
theorem offsetOf?_eq_some_iff {line column : Nat} :
    offsetOf? s line column = some b ↔ ∃ i l k, line = i + 1 ∧ column = k + 1 ∧
      (lines s)[i]? = some l ∧ k ≤ l.length ∧ b = byteSize (above (lines s) i ++ l.take k) := by
  unfold offsetOf?
  constructor
  · intro h
    obtain ⟨hpos, h⟩ := Option.ite_none_left_eq_some.1 h
    split at h
    · next l hl =>
      obtain ⟨hk, h⟩ := Option.ite_none_right_eq_some.1 h
      refine ⟨line - 1, l, column - 1, by omega, by omega, hl, hk, ?_⟩
      rw [byteSize_append, byteSize_above]
      exact (Option.some.inj h).symm
    · cases h
  · rintro ⟨i, l, k, rfl, rfl, hl, hk, rfl⟩
    simp [hl, hk, byteSize_append, byteSize_above]

/-- **A place has a line and a column exactly when they lead to it.** -/
theorem lineColumn?_eq_some_iff {line column : Nat} :
    lineColumn? s b = some (line, column) ↔ offsetOf? s line column = some b := by
  rw [offsetOf?_eq_some_iff]
  constructor
  · intro h
    obtain ⟨before, hbefore, -⟩ := Option.map_eq_some_iff.1 h
    obtain ⟨i, l, k, hl, hk, rfl⟩ :=
      OnBoundary.exists_line (onBoundary_iff.2 (Option.isSome_of_eq_some hbefore))
    rw [lineColumn?_in_line hl hk] at h
    cases h
    exact ⟨i, l, k, rfl, rfl, hl, hk, rfl⟩
  · rintro ⟨i, l, k, rfl, rfl, hl, hk, rfl⟩
    exact lineColumn?_in_line hl hk

/-- Exactly the places between characters have a line and a column. -/
theorem isSome_lineColumn?_iff : (lineColumn? s b).isSome = true ↔ OnBoundary s b := by
  rw [onBoundary_iff, lineColumn?, Option.isSome_map]

/-- Exactly the lines of the text lead to a place, with a column for each of their characters and
one behind them. -/
theorem isSome_offsetOf?_iff {line column : Nat} :
    (offsetOf? s line column).isSome = true ↔
      1 ≤ line ∧ 1 ≤ column ∧ ∃ l, (lines s)[line - 1]? = some l ∧ column ≤ l.length + 1 := by
  rw [Option.isSome_iff_exists]
  simp only [offsetOf?_eq_some_iff]
  constructor
  · rintro ⟨b, i, l, k, rfl, rfl, hl, hk, -⟩
    exact ⟨by omega, by omega, l, hl, by omega⟩
  · rintro ⟨hline, hcolumn, l, hl, hk⟩
    exact ⟨_, line - 1, l, column - 1, by omega, by omega, hl, by omega, rfl⟩

end Lines

/-! ### Counting characters -/

theorem charOffset?_eq_some_iff {s : String} {b n : Nat} :
    charOffset? s b = some n ↔ byteOffset? s n = some b := by
  unfold charOffset? byteOffset?
  constructor
  · intro h
    obtain ⟨before, hbefore, rfl⟩ := Option.map_eq_some_iff.1 h
    obtain ⟨rfl, hpre⟩ := byteSize_of_takeBytes? hbefore
    rw [if_pos hpre.length_le, ← List.prefix_iff_eq_take.1 hpre]
  · intro h
    obtain ⟨hn, h⟩ := Option.ite_none_right_eq_some.1 h
    have hsplit := takeBytes?_append (s.toList.take n) (s.toList.drop n)
    rw [List.take_append_drop, Option.some.inj h] at hsplit
    rw [hsplit, Option.map_some, List.length_take, Nat.min_eq_left hn]

theorem isSome_byteOffset?_iff {s : String} {n : Nat} :
    (byteOffset? s n).isSome = true ↔ n ≤ s.toList.length := by
  unfold byteOffset?
  split <;> simp_all

end Crossref.Text
