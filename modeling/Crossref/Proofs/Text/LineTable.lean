import Crossref.Proofs.Text.Lines

/-!
# Proofs — text — a table of line starts

Lines and columns are looked up in a table of the bytes at which the lines start, made in one pass
over the bytes of the text.  The steps of a look-up may leave their range: an entry of the table, a
subtraction, a piece of the text between two bytes.  Here every such step is checked, and fails when
it does.

* `starts_ofText`: the table has the starts of all lines.
* `lineColumn_ofText`, `offsetOf_ofText`: no step of a look-up fails, for any arguments, and the
  answers are those that the lines of the text give.
* `charsBefore_ofText`: nor does the way from a line and column to a number of characters.
-/

namespace Crossref.Text

/-! ### Steps that may leave their range -/

/-- A step that left its range. -/
inductive Fault where
  /-- There is no entry with the index. -/
  | index (i : Nat)
  /-- There is less than is taken away. -/
  | subtraction (a b : Nat)
  /-- One of the bytes lies within a character or behind the text, or they stand the other way
  round. -/
  | slice (start stop : Nat)
  deriving DecidableEq

namespace Checked

/-- The entry with the index. -/
def entry (xs : List Nat) (i : Nat) : Except Fault Nat :=
  match xs[i]? with
  | some x => .ok x
  | none => .error (.index i)

def sub (a b : Nat) : Except Fault Nat := if b ≤ a then .ok (a - b) else .error (.subtraction a b)

/-- The characters between two bytes of the text. -/
def slice (s : String) (start stop : Nat) : Except Fault (List Char) :=
  match slice? s start stop with
  | some t => .ok t.toList
  | none => .error (.slice start stop)

theorem entry_of_getElem? {xs : List Nat} {i x : Nat} (h : xs[i]? = some x) :
    entry xs i = .ok x := by
  simp [entry, h]

theorem sub_add_left (a b : Nat) : sub (a + b) b = .ok a := by simp [sub]

/-- Between two places of a text there is what stands between them. -/
theorem slice_of_stands {s : String} {start stop : Nat} {before cs after : List Char}
    (h₁ : Stands s start before (cs ++ after)) (h₂ : Stands s stop (before ++ cs) after) :
    slice s start stop = .ok cs := by
  have h : slice? s start stop = some (String.ofList cs) :=
    slice?_eq_some_iff.2 ⟨before, after, by simpa using h₁, by simpa using h₂⟩
  simp [slice, h]

end Checked

/-! ### The table -/

/-- The bytes at which the lines of a text start, and the number of its bytes. -/
structure LineTable where
  starts : List Nat
  size : Nat

/-- The characters in UTF-8. -/
def bytesOf (cs : List Char) : List UInt8 := cs.flatMap String.utf8EncodeChar

/-- The places behind the line feeds among the bytes, which begin at place `i`. -/
def behindFeeds : Nat → List UInt8 → List Nat
  | _, [] => []
  | i, byte :: bytes =>
    if byte = 10 then (i + 1) :: behindFeeds (i + 1) bytes else behindFeeds (i + 1) bytes

namespace LineTable

/-- The table of a text. -/
def ofText (s : String) : LineTable where
  starts := 0 :: behindFeeds 0 (bytesOf s.toList)
  size := Text.size s

/-- The index of a byte among the starts, or else the one where it would have to be put in. -/
def find (t : LineTable) (b : Nat) : Except Nat Nat :=
  match t.starts.idxOf? b with
  | some i => .ok i
  | none => .error (t.starts.takeWhile (· < b)).length

/-- The index of the line that a byte lies in. -/
def lineOf (t : LineTable) (b : Nat) : Except Fault Nat :=
  match t.find b with
  | .ok i => .ok i
  | .error i => Checked.sub i 1

/-- The line and column of byte `b`, for a place between characters. -/
def lineColumn (t : LineTable) (s : String) (b : Nat) : Except Fault (Option (Nat × Nat)) :=
  if t.size < b ∨ ¬ OnBoundary s b then .ok none
  else do
    let line ← t.lineOf b
    let start ← Checked.entry t.starts line
    let before ← Checked.slice s start b
    return some (line + 1, before.length + 1)

/-- The byte at which the line before the one with index `line` ends. -/
def stopBefore (t : LineTable) (line : Nat) : Except Fault Nat :=
  match t.starts[line]? with
  | some next => Checked.sub next 1
  | none => .ok t.size

/-- The byte at a line and column. -/
def offsetOf (t : LineTable) (s : String) (line column : Nat) : Except Fault (Option Nat) :=
  if line = 0 ∨ column = 0 then .ok none
  else do
    let i ← Checked.sub line 1
    match t.starts[i]? with
    | none => return none
    | some start =>
      let stop ← t.stopBefore line
      let cs ← Checked.slice s start stop
      let k ← Checked.sub column 1
      if k = cs.length then return some stop
      else if k < cs.length then return some (start + byteSize (cs.take k))
      else return none

/-- The number of characters before a line and column. -/
def charsBefore (t : LineTable) (s : String) (line column : Nat) : Except Fault (Option Nat) := do
  match ← t.offsetOf s line column with
  | none => return none
  | some b => return some (← Checked.slice s 0 b).length

end LineTable

/-! ### The starts of the lines -/

theorem ofNat_ne_lineFeed {n : Nat} (h₁ : 128 ≤ n) (h₂ : n < 256) : UInt8.ofNat n ≠ 10 := by
  intro h
  have h := congrArg UInt8.toNat h
  rw [UInt8.toNat_ofNat', Nat.mod_eq_of_lt h₂] at h
  change n = 10 at h
  omega

/-- Only a line feed has the byte of a line feed: the bytes of a longer character have their highest
bit set. -/
theorem eq_lineFeed_of_mem {c : Char} (h : (10 : UInt8) ∈ String.utf8EncodeChar c) : c = '\n' := by
  have high {n : Nat} (h₁ : 128 ≤ n) (h₂ : n < 256) : ¬ (10 : UInt8) = UInt8.ofNat n :=
    fun h => ofNat_ne_lineFeed h₁ h₂ h.symm
  simp only [String.utf8EncodeChar] at h
  split at h
  · have h := congrArg UInt8.toNat (List.mem_singleton.1 h)
    rw [UInt8.toNat_ofNat', Nat.mod_eq_of_lt (by omega)] at h
    exact Char.ext (UInt32.toNat_inj.1 h.symm)
  · exfalso
    revert h
    (repeat' split) <;> simp only [List.mem_cons, List.not_mem_nil, or_false, not_or, imp_false]
    · exact ⟨high (by omega) (by omega), high (by omega) (by omega)⟩
    · exact ⟨high (by omega) (by omega), high (by omega) (by omega), high (by omega) (by omega)⟩
    · exact ⟨high (by omega) (by omega), high (by omega) (by omega), high (by omega) (by omega),
        high (by omega) (by omega)⟩

theorem length_bytesOf (cs : List Char) : (bytesOf cs).length = byteSize cs := by
  induction cs with
  | nil => rfl
  | cons c cs ih =>
      rw [byteSize_cons, ← ih, bytesOf, List.flatMap_cons, List.length_append,
        String.length_utf8EncodeChar]
      rfl

theorem bytesOf_append (cs ds : List Char) : bytesOf (cs ++ ds) = bytesOf cs ++ bytesOf ds := by
  rw [bytesOf, List.flatMap_append]
  rfl

theorem bytesOf_lineFeed (cs : List Char) : bytesOf ('\n' :: cs) = 10 :: bytesOf cs := rfl

/-- What begins lines in the second of two pieces does so further on. -/
theorem behindFeeds_append (i : Nat) (bytes others : List UInt8) :
    behindFeeds i (bytes ++ others) =
      behindFeeds i bytes ++ behindFeeds (i + bytes.length) others := by
  induction bytes generalizing i with
  | nil => rfl
  | cons byte bytes ih =>
      have hplace : i + (byte :: bytes).length = i + 1 + bytes.length := by
        rw [List.length_cons]; omega
      rw [List.cons_append, behindFeeds, behindFeeds, ih, hplace]
      split <;> rfl

/-- Without a line feed there is no place behind one. -/
theorem behindFeeds_of_notMem (i : Nat) {bytes : List UInt8} (h : (10 : UInt8) ∉ bytes) :
    behindFeeds i bytes = [] := by
  induction bytes generalizing i with
  | nil => rfl
  | cons byte bytes ih =>
      obtain ⟨hne, hrest⟩ := not_or.1 fun hor => h (List.mem_cons.2 hor)
      rw [behindFeeds, if_neg (Ne.symm hne), ih (i + 1) hrest]

/-- In a line there is no start of another one. -/
theorem behindFeeds_line (i : Nat) {l : List Char} (h : '\n' ∉ l) :
    behindFeeds i (bytesOf l) = [] := by
  refine behindFeeds_of_notMem i fun hmem => h ?_
  obtain ⟨c, hc, hbyte⟩ := List.mem_flatMap.1 hmem
  exact eq_lineFeed_of_mem hbyte ▸ hc

/-- The starts of the lines behind the first one. -/
theorem behindFeeds_intercalate {l : List Char} {ls : List (List Char)}
    (hfree : ∀ m ∈ l :: ls, '\n' ∉ m) (i : Nat) :
    behindFeeds i (bytesOf (['\n'].intercalate (l :: ls))) =
      (List.range ls.length).map fun j => i + lineStart (l :: ls) (j + 1) := by
  induction ls generalizing l i with
  | nil =>
      rw [List.intercalate_singleton, behindFeeds_line i (hfree l List.mem_cons_self)]
      rfl
  | cons m ls ih =>
      have hrest := ih (fun n hn => hfree n (List.mem_cons_of_mem l hn)) (i + byteSize l + 1)
      rw [intercalate_cons l (List.cons_ne_nil m ls), bytesOf_append, behindFeeds_append,
        behindFeeds_line i (hfree l List.mem_cons_self), bytesOf_lineFeed, length_bytesOf,
        List.nil_append, behindFeeds, if_pos rfl, hrest, List.length_cons, List.range_succ_eq_map,
        List.map_cons, List.map_map]
      refine List.cons_eq_cons.2 ⟨by simp; omega, List.map_congr_left fun j _ => ?_⟩
      simp only [Function.comp, lineStart_cons_succ]
      omega

/-- **The table has the starts of all lines.** -/
theorem starts_ofText (s : String) :
    (LineTable.ofText s).starts = (List.range (lines s).length).map (lineStart (lines s)) := by
  obtain ⟨l, ls, hls⟩ := List.exists_cons_of_ne_nil (lines_ne_nil s)
  have hfree := lineFeed_notMem s
  have htext := intercalate_lines s
  rw [hls] at hfree htext ⊢
  change 0 :: behindFeeds 0 (bytesOf s.toList) = _
  rw [← htext, behindFeeds_intercalate hfree, List.length_cons, List.range_succ_eq_map,
    List.map_cons, List.map_map]
  refine List.cons_eq_cons.2 ⟨rfl, List.map_congr_left fun j _ => ?_⟩
  simp [Function.comp]

theorem getElem?_starts {s : String} {i : Nat} :
    (LineTable.ofText s).starts[i]? =
      if i < (lines s).length then some (lineStart (lines s) i) else none := by
  rw [starts_ofText, List.getElem?_map]
  split <;> simp_all

/-! ### Looking up -/

section LookUp

variable {s : String} {b i k : Nat} {l : List Char}

/-- A line begins one byte after the end of the one before, which is its line feed. -/
theorem lineStart_succ {ls : List (List Char)} (h : ls[i]? = some l) :
    lineStart ls (i + 1) = lineStart ls i + byteSize l + 1 := by
  induction ls generalizing i with
  | nil => cases h
  | cons m ls ih =>
      cases i with
      | zero =>
          obtain rfl : m = l := by simpa using h
          simp
      | succ i =>
          rw [lineStart_cons_succ, ih (by simpa using h), lineStart_cons_succ]
          omega

theorem lineStart_lt {ls : List (List Char)} {j : Nat} (hij : i < j) (hj : j < ls.length) :
    lineStart ls i < lineStart ls j := by
  induction j with
  | zero => exact absurd hij (Nat.not_lt_zero i)
  | succ j ih =>
      have hstep := lineStart_succ (List.getElem?_eq_getElem (Nat.lt_of_succ_lt hj))
      rcases Nat.lt_succ_iff_lt_or_eq.1 hij with h | rfl
      · have := ih h (Nat.lt_of_succ_lt hj)
        omega
      · omega

/-- The starts of the lines ascend. -/
theorem pairwise_starts (s : String) : (LineTable.ofText s).starts.Pairwise (· < ·) := by
  rw [starts_ofText, List.pairwise_map]
  refine List.pairwise_lt_range.imp_of_mem fun _ hj hij => lineStart_lt hij (List.mem_range.1 hj)

section Ascending

variable {xs : List Nat} {start x : Nat} (hasc : xs.Pairwise (· < ·)) (hi : xs[i]? = some start)
include hasc hi

theorem lt_of_mem_take (hx : x ∈ xs.take i) : x < start := by
  obtain ⟨hlt, rfl⟩ := List.getElem?_eq_some_iff.1 hi
  obtain ⟨j, hj, rfl⟩ := List.getElem_of_mem hx
  rw [List.length_take] at hj
  rw [List.getElem_take]
  exact List.pairwise_iff_getElem.1 hasc j i (by omega) hlt (by omega)

theorem idxOf?_of_ascending : xs.idxOf? start = some i := by
  obtain ⟨hlt, hget⟩ := List.getElem?_eq_some_iff.1 hi
  refine List.idxOf?_eq_some_iff.2 ⟨hlt, hget, fun j hj => Nat.ne_of_lt ?_⟩
  exact hget ▸ List.pairwise_iff_getElem.1 hasc j i (by omega) hlt hj

/-- What is smaller than a number between two neighbours ends with the first of them. -/
theorem takeWhile_lt_of_between (hlt : start < b)
    (hnext : ∀ next, xs[i + 1]? = some next → b < next) :
    xs.takeWhile (· < b) = xs.take (i + 1) := by
  obtain ⟨hin, hget⟩ := List.getElem?_eq_some_iff.1 hi
  have hall : ∀ x ∈ xs.take (i + 1), decide (x < b) = true := by
    intro x hx
    rw [List.take_succ_eq_append_getElem hin, hget, List.mem_append, List.mem_singleton] at hx
    rcases hx with hx | rfl
    · exact decide_eq_true (Nat.lt_trans (lt_of_mem_take hasc hi hx) hlt)
    · exact decide_eq_true hlt
  have hstop : (xs.drop (i + 1)).takeWhile (· < b) = [] := by
    cases hdrop : xs.drop (i + 1) with
    | nil => rfl
    | cons next rest =>
        have hb : b < next := hnext next (by rw [← List.head?_drop, hdrop]; rfl)
        exact List.takeWhile_cons_of_neg (by simpa using Nat.le_of_lt hb)
  calc xs.takeWhile (· < b)
      = (xs.take (i + 1) ++ xs.drop (i + 1)).takeWhile (· < b) := by rw [List.take_append_drop]
    _ = xs.take (i + 1) := by rw [List.takeWhile_append_of_pos hall, hstop, List.append_nil]

/-- What lies strictly between two neighbours of an ascending list is not in it. -/
theorem idxOf?_of_between (hlt : start < b)
    (hnext : ∀ next, xs[i + 1]? = some next → b < next) : xs.idxOf? b = none := by
  refine List.idxOf?_eq_none_iff.2 fun hmem => ?_
  obtain ⟨j, hj⟩ := List.mem_iff_getElem?.1 hmem
  obtain ⟨hjlt, hjget⟩ := List.getElem?_eq_some_iff.1 hj
  obtain ⟨hin, hget⟩ := List.getElem?_eq_some_iff.1 hi
  have hmono := List.pairwise_iff_getElem.1 hasc
  rcases Nat.lt_trichotomy j i with h | rfl | h
  · have := hmono j i hjlt hin h
    omega
  · omega
  · have hb : b < xs[i + 1] := hnext _ (List.getElem?_eq_getElem (by omega))
    rcases Nat.eq_or_lt_of_le h with rfl | h
    · exact Nat.lt_irrefl b (hjget ▸ hb)
    · have := hmono (i + 1) j (by omega) hjlt h
      omega

end Ascending

/-- Among numbers that ascend a byte is found at its index, or behind the last that is smaller. -/
theorem LineTable.find_eq {t : LineTable} (ht : t.starts.Pairwise (· < ·)) {start : Nat}
    (hi : t.starts[i]? = some start) (hle : start ≤ b)
    (hnext : ∀ next, t.starts[i + 1]? = some next → b < next) :
    t.find b = if b = start then .ok i else .error (i + 1) := by
  unfold find
  by_cases hb : b = start
  · subst hb
    simp [idxOf?_of_ascending ht hi]
  · have hlt : start < b := by omega
    have hin : i < t.starts.length := (List.getElem?_eq_some_iff.1 hi).1
    rw [idxOf?_of_between ht hi hlt hnext, takeWhile_lt_of_between ht hi hlt hnext,
      List.length_take, Nat.min_eq_left hin, if_neg hb]

/-- A byte is on the last line that begins at it or before. -/
theorem LineTable.lineOf_eq {t : LineTable} (ht : t.starts.Pairwise (· < ·)) {start : Nat}
    (hi : t.starts[i]? = some start) (hle : start ≤ b)
    (hnext : ∀ next, t.starts[i + 1]? = some next → b < next) : t.lineOf b = .ok i := by
  rw [lineOf, find_eq ht hi hle hnext]
  by_cases hb : b = start
  · rw [if_pos hb]
  · rw [if_neg hb]
    exact Checked.sub_add_left i 1

theorem byteSize_take_le (l : List Char) (k : Nat) : byteSize (l.take k) ≤ byteSize l := by
  have hsplit : byteSize l = byteSize (l.take k) + byteSize (l.drop k) := by
    rw [← byteSize_append, List.take_append_drop]
  omega

theorem getElem?_starts_of_line (hl : (lines s)[i]? = some l) :
    (LineTable.ofText s).starts[i]? = some (lineStart (lines s) i) := by
  rw [getElem?_starts, if_pos (List.getElem?_eq_some_iff.1 hl).1]

/-- The line that the table gives for a place is the one it stands in. -/
theorem lineOf_ofText (hl : (lines s)[i]? = some l) (k : Nat) :
    (LineTable.ofText s).lineOf (byteSize (above (lines s) i ++ l.take k)) = .ok i := by
  refine LineTable.lineOf_eq (pairwise_starts s) (getElem?_starts_of_line hl) ?_ ?_
  · rw [byteSize_append, byteSize_above]
    exact Nat.le_add_right _ _
  · intro next hnext
    rw [getElem?_starts] at hnext
    obtain ⟨-, hnext⟩ := Option.ite_none_right_eq_some.1 hnext
    rw [byteSize_append, byteSize_above, ← Option.some.inj hnext, lineStart_succ hl]
    have := byteSize_take_le l k
    omega

/-- The piece of the text from the start of a line on. -/
theorem slice_line (hl : (lines s)[i]? = some l) (k : Nat) :
    Checked.slice s (lineStart (lines s) i) (byteSize (above (lines s) i ++ l.take k)) =
      .ok (l.take k) := by
  obtain ⟨after, hstands⟩ := stands_in_line hl k
  have hstart : Stands s (lineStart (lines s) i) (above (lines s) i) (l.take k ++ after) :=
    ⟨by rw [hstands.split, List.append_assoc], byteSize_above _ _⟩
  exact Checked.slice_of_stands hstart hstands

/-- A line ends before the next one starts, and the last one with the text. -/
theorem stopBefore_ofText (hl : (lines s)[i]? = some l) :
    (LineTable.ofText s).stopBefore (i + 1) = .ok (byteSize (above (lines s) i ++ l)) := by
  have hstop : byteSize (above (lines s) i ++ l) = lineStart (lines s) i + byteSize l := by
    rw [byteSize_append, byteSize_above]
  rw [LineTable.stopBefore, getElem?_starts, hstop]
  by_cases hnext : i + 1 < (lines s).length
  · rw [if_pos hnext, lineStart_succ hl]
    exact Checked.sub_add_left _ 1
  · rw [if_neg hnext, ← hstop, ← intercalate_eq_of_last hl (Nat.le_of_not_lt hnext),
      intercalate_lines, byteSize_toList]
    rfl

/-- **No look-up of a line and column leaves its range**, and it answers as the lines of the text
do. -/
theorem lineColumn_ofText (s : String) (b : Nat) :
    (LineTable.ofText s).lineColumn s b = .ok (lineColumn? s b) := by
  unfold LineTable.lineColumn
  by_cases hb : OnBoundary s b
  · have hle : ¬ ((LineTable.ofText s).size < b ∨ ¬ OnBoundary s b) := by
      rintro (h | h)
      · exact Nat.not_lt_of_le hb.le_size h
      · exact h hb
    obtain ⟨i, l, k, hl, hk, rfl⟩ := hb.exists_line
    rw [if_neg hle, lineOf_ofText hl, lineColumn?_in_line hl hk]
    simp only [bind, Except.bind]
    rw [Checked.entry_of_getElem? (getElem?_starts_of_line hl)]
    dsimp only
    rw [slice_line hl]
    simp [hk, pure, Except.pure]
  · have hnone : lineColumn? s b = none := by
      rwa [← Option.not_isSome_iff_eq_none, isSome_lineColumn?_iff]
    rw [if_pos (.inr hb), hnone]

/-- **No look-up of the byte at a line and column leaves its range**, and it answers as the lines of
the text do. -/
theorem offsetOf_ofText (s : String) (line column : Nat) :
    (LineTable.ofText s).offsetOf s line column = .ok (offsetOf? s line column) := by
  unfold LineTable.offsetOf offsetOf?
  by_cases hzero : line = 0 ∨ column = 0
  · rw [if_pos hzero, if_pos hzero]
  · obtain ⟨i, rfl⟩ : ∃ i, line = i + 1 := ⟨line - 1, by omega⟩
    obtain ⟨k, rfl⟩ : ∃ k, column = k + 1 := ⟨column - 1, by omega⟩
    rw [if_neg hzero, if_neg hzero, Checked.sub_add_left, Checked.sub_add_left]
    simp only [bind, Except.bind, Nat.add_sub_cancel]
    cases hl : (lines s)[i]? with
    | none =>
        have hstart : (LineTable.ofText s).starts[i]? = none := by
          rw [getElem?_starts, if_neg (Nat.not_lt.2 (List.getElem?_eq_none_iff.1 hl))]
        rw [hstart]
        rfl
    | some l =>
        have hslice := slice_line hl l.length
        rw [List.take_length] at hslice
        rw [getElem?_starts_of_line hl]
        dsimp only
        rw [stopBefore_ofText hl]
        dsimp only
        rw [hslice]
        dsimp only
        rcases Nat.lt_trichotomy k l.length with hk | rfl | hk
        · rw [if_neg (Nat.ne_of_lt hk), if_pos hk, if_pos (Nat.le_of_lt hk)]
          rfl
        · rw [if_pos rfl, if_pos (Nat.le_refl _), List.take_length, byteSize_append, byteSize_above]
          rfl
        · rw [if_neg (Nat.ne_of_gt hk), if_neg (Nat.lt_asymm hk), if_neg (Nat.not_le_of_lt hk)]
          rfl

/-- **Nor does the way from a line and column to a number of characters.** -/
theorem charsBefore_ofText (s : String) (line column : Nat) :
    (LineTable.ofText s).charsBefore s line column =
      .ok ((offsetOf? s line column).bind (charOffset? s)) := by
  unfold LineTable.charsBefore
  rw [offsetOf_ofText]
  cases hb : offsetOf? s line column with
  | none => rfl
  | some b =>
      obtain ⟨i, l, k, rfl, rfl, hl, hk, rfl⟩ := offsetOf?_eq_some_iff.1 hb
      obtain ⟨after, hstands⟩ := stands_in_line hl k
      have htop : Stands s 0 [] ((above (lines s) i ++ l.take k) ++ after) :=
        ⟨hstands.split, rfl⟩
      have hslice : Checked.slice s 0 _ = .ok (above (lines s) i ++ l.take k) :=
        Checked.slice_of_stands htop hstands
      simp only [bind, Except.bind, hslice]
      rw [Option.bind_some, hstands.charOffset?_eq]
      rfl

end LookUp

end Crossref.Text
