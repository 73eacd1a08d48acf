import Crossref.Proofs.Text.Lines
import Crossref.Proofs.Text.Pieces
import Mathlib.Data.List.SplitBy

/-!
# Proofs — text — blocks of lines

Texts that each end in a line feed can be written one behind the other: the lines of the whole are
those of its parts.  When all parts end in the same line, the whole can be cut behind every line
that reads so.  The cuts fall between the parts exactly when no part has the line anywhere else.

* `endedLines_join`: the lines of the whole are those of its parts.
* `getElem?_lines_join_iff`: the lines that read so are the last lines of the parts.
* `blocks_join_iff`: to cut behind them gives the parts.
-/

namespace Crossref.Text

/-! ### Lists whose parts end alike -/

section Parts

variable {α : Type} {d : α} {l before : List α} {parts : List (List α)}

/-- The first `n` elements are those of the first parts, of one at least. -/
def EndsAt (parts : List (List α)) (n : Nat) : Prop :=
  ∃ k < parts.length, n = (parts.take (k + 1)).flatten.length

theorem endsAt_cons_iff {n : Nat} :
    EndsAt (l :: parts) n ↔ n = l.length ∨ ∃ m, EndsAt parts m ∧ n = l.length + m := by
  constructor
  · rintro ⟨_ | k, hk, rfl⟩
    · exact .inl (by simp)
    · exact .inr ⟨_, ⟨k, Nat.lt_of_succ_lt_succ hk, rfl⟩, by simp⟩
  · rintro (rfl | ⟨_, ⟨k, hk, rfl⟩, rfl⟩)
    · exact ⟨0, Nat.succ_pos _, by simp⟩
    · exact ⟨k + 1, Nat.succ_lt_succ hk, by simp⟩

/-- Within the first part nothing ends before its last element. -/
theorem endsAt_within_iff {i : Nat} (hi : i ≤ before.length) :
    EndsAt ((before ++ [d]) :: parts) (i + 1) ↔ i = before.length := by
  rw [endsAt_cons_iff, List.length_append, List.length_singleton]
  constructor
  · rintro (h | ⟨m, -, h⟩) <;> omega
  · exact fun h => .inl (by omega)

/-- Behind the first part the others end where they do by themselves. -/
theorem endsAt_behind_iff {j : Nat} :
    EndsAt ((before ++ [d]) :: parts) (before.length + 1 + j + 1) ↔ EndsAt parts (j + 1) := by
  rw [endsAt_cons_iff, List.length_append, List.length_singleton]
  constructor
  · rintro (h | ⟨m, hm, h⟩)
    · omega
    · obtain rfl : m = j + 1 := by omega
      exact hm
  · exact fun h => .inr ⟨j + 1, h, by omega⟩

/-- **The element that all parts end in is found at their ends only**, exactly when it is no other
element of them. -/
theorem getElem?_flatten_iff (hlast : ∀ l ∈ parts, l.getLast? = some d) :
    (∀ i, parts.flatten[i]? = some d ↔ EndsAt parts (i + 1)) ↔ ∀ l ∈ parts, d ∉ l.dropLast := by
  induction parts with
  | nil => simp [EndsAt]
  | cons l parts ih =>
      obtain ⟨hl, hparts⟩ := List.forall_mem_cons.1 hlast
      obtain ⟨before, rfl⟩ := List.getLast?_eq_some_iff.1 hl
      have hwithin {i : Nat} (hi : i < before.length) :
          ((before ++ [d]) :: parts).flatten[i]? = before[i]? := by
        rw [List.flatten_cons, List.append_assoc, List.getElem?_append_left hi]
      have hbehind (j : Nat) :
          ((before ++ [d]) :: parts).flatten[before.length + 1 + j]? = parts.flatten[j]? := by
        rw [List.flatten_cons, List.getElem?_append_right (by simp)]
        simp
      rw [List.forall_mem_cons, List.dropLast_concat, ← ih hparts]
      constructor
      · intro h
        refine ⟨fun hmem => ?_, fun j => by rw [← hbehind, h, endsAt_behind_iff]⟩
        obtain ⟨i, hi⟩ := List.getElem?_of_mem hmem
        have hlt := (List.getElem?_eq_some_iff.1 hi).1
        have hend := (h i).1 ((hwithin hlt).trans hi)
        exact Nat.ne_of_lt hlt ((endsAt_within_iff (Nat.le_of_lt hlt)).1 hend)
      · rintro ⟨hbefore, hrest⟩ i
        rcases Nat.lt_trichotomy i before.length with hi | rfl | hi
        · rw [hwithin hi, endsAt_within_iff (Nat.le_of_lt hi)]
          exact iff_of_false (fun hd => hbefore (List.mem_of_getElem? hd)) (Nat.ne_of_lt hi)
        · rw [endsAt_within_iff (Nat.le_refl _)]
          simp
        · obtain ⟨j, rfl⟩ := Nat.exists_eq_add_of_le hi
          rw [Nat.succ_eq_add_one, hbehind, endsAt_behind_iff, hrest]

variable [BEq α] [LawfulBEq α]

theorem isChain_concat_iff : (l ++ [d]).IsChain (fun a _ => (a != d) = true) ↔ d ∉ l := by
  induction l with
  | nil => simp
  | cons a l ih =>
      -- of two neighbours only the first one counts, so it does not matter what comes next
      obtain ⟨b, rest, hrest⟩ : ∃ b rest, l ++ [d] = b :: rest :=
        List.exists_cons_of_ne_nil (by simp)
      rw [List.cons_append, hrest, List.isChain_cons_cons, ← hrest, ih, List.mem_cons, not_or,
        bne_iff_ne, ne_comm]

/-- **A list is cut into its parts** behind each element that these end in, exactly when it is no
other element of them. -/
theorem splitBy_flatten_iff (hlast : ∀ l ∈ parts, l.getLast? = some d) :
    parts.flatten.splitBy (fun a _ => a != d) = parts ↔ ∀ l ∈ parts, d ∉ l.dropLast := by
  have hne : [] ∉ parts := fun hmem => by simpa using hlast [] hmem
  have hends : parts.IsChain fun a b =>
      ∃ (ha : a ≠ []) (_ : b ≠ []), (a.getLast ha != d) = false := by
    refine (List.pairwise_of_forall_mem_list fun a ha b hb => ?_).isChain
    have ha' : a ≠ [] := ne_of_mem_of_not_mem ha hne
    have hd := hlast a ha
    rw [List.getLast?_eq_some_getLast ha', Option.some.injEq] at hd
    exact ⟨ha', ne_of_mem_of_not_mem hb hne, by simp [hd]⟩
  have hchain : (∀ l ∈ parts, l.IsChain fun a _ => (a != d) = true) ↔
      ∀ l ∈ parts, d ∉ l.dropLast := by
    refine forall₂_congr fun l hl => ?_
    obtain ⟨before, rfl⟩ := List.getLast?_eq_some_iff.1 (hlast l hl)
    rw [isChain_concat_iff, List.dropLast_concat]
  rw [List.splitBy_eq_iff, hchain]
  exact ⟨fun h => h.2.2.1, fun h => ⟨rfl, hne, h, hends⟩⟩

end Parts

/-! ### Texts of whole lines -/

/-- The lines that a line feed ends; what stands behind the last line feed is left out. -/
def endedLines (s : String) : List (List Char) := (lines s).dropLast

/-- The text of the lines, each with a line feed behind it. -/
def ofLines (ls : List (List Char)) : String := String.ofList (ls.flatMap (· ++ ['\n']))

/-- The text in blocks: it is cut behind every line that reads `mark`. -/
def blocks (mark s : String) : List String :=
  ((endedLines s).splitBy fun l _ => l != mark.toList).map ofLines

variable {s t mark : String} {ss : List String} {ls : List (List Char)}

/-- What is written behind whole lines adds its own lines. -/
theorem lines_append (hs : s.toList.getLast? = some '\n') :
    lines (s ++ t) = endedLines s ++ lines t := by
  obtain ⟨cs, hcs⟩ := List.getLast?_eq_some_iff.1 hs
  have hended : endedLines s = cs.splitOn '\n' := by
    rw [endedLines, lines, hcs, splitOn_concat_self, List.dropLast_concat]
  rw [hended, lines, String.toList_append, hcs, List.append_assoc, List.singleton_append,
    List.splitOn_append_cons_self, lines]

theorem lines_join (hss : ∀ s ∈ ss, s.toList.getLast? = some '\n') :
    lines (String.join ss) = (ss.map endedLines).flatten ++ [[]] := by
  induction ss with
  | nil => rfl
  | cons s ss ih =>
      obtain ⟨hs, hrest⟩ := List.forall_mem_cons.1 hss
      rw [String.join_cons, lines_append hs, ih hrest, List.map_cons, List.flatten_cons,
        List.append_assoc]

theorem endedLines_join (hss : ∀ s ∈ ss, s.toList.getLast? = some '\n') :
    endedLines (String.join ss) = (ss.map endedLines).flatten := by
  rw [endedLines, lines_join hss, List.dropLast_concat]

/-- Behind the last line feed of a text of whole lines there is nothing. -/
theorem lines_eq_concat (hs : s.toList.getLast? = some '\n') :
    lines s = endedLines s ++ [[]] := by
  rw [← String.append_empty (s := s), lines_append hs, String.append_empty]
  rfl

theorem ofLines_endedLines (hs : s.toList.getLast? = some '\n') : ofLines (endedLines s) = s := by
  have hlast : (lines s)[(endedLines s).length]? = some [] := by
    rw [lines_eq_concat hs, List.getElem?_concat_length]
  have hjoin := intercalate_eq_of_last hlast (by simp [lines_eq_concat hs])
  rw [intercalate_lines, List.append_nil, above, lines_eq_concat hs, List.take_left] at hjoin
  rw [ofLines, ← hjoin, String.ofList_toList]

theorem lineFeed_notMem_endedLines {l : List Char} (hl : l ∈ endedLines s) : '\n' ∉ l :=
  lineFeed_notMem s l (List.dropLast_subset _ hl)

/-- A line by itself, with its line feed. -/
theorem endedLines_ofList {l : List Char} (hl : '\n' ∉ l) :
    endedLines (String.ofList (l ++ ['\n'])) = [l] := by
  rw [endedLines, lines, String.toList_ofList, splitOn_concat_self, List.dropLast_concat,
    List.splitOn_eq_singleton hl]

theorem ofLines_eq_join (ls : List (List Char)) :
    ofLines ls = String.join (ls.map fun l => String.ofList (l ++ ['\n'])) := by
  rw [← String.toList_inj, ofLines, String.toList_ofList, String.toList_join, List.flatMap_map]
  simp only [String.toList_ofList]

theorem endedLines_ofLines (hls : ∀ l ∈ ls, '\n' ∉ l) : endedLines (ofLines ls) = ls := by
  have hended : ∀ s ∈ ls.map fun l => String.ofList (l ++ ['\n']),
      s.toList.getLast? = some '\n' := by simp
  have hlines : ls.map (fun l => endedLines (String.ofList (l ++ ['\n']))) = ls.map fun l => [l] :=
    List.map_congr_left fun l hl => endedLines_ofList (hls l hl)
  rw [ofLines_eq_join, endedLines_join hended, List.map_map, Function.comp_def, hlines,
    ← List.flatMap_def, List.flatMap_singleton']

/-! ### Texts that end in the same line -/

section EndsIn

variable (hss : ∀ s ∈ ss, s.toList.getLast? = some '\n')
  (hlast : ∀ s ∈ ss, (endedLines s).getLast? = some mark.toList)
include hss hlast

/-- **The lines that read as the texts end are the last lines of the texts**, exactly when none of
the texts has such a line before its last one. -/
theorem getElem?_lines_join_iff (hmark : mark ≠ "") :
    (∀ i, (lines (String.join ss))[i]? = some mark.toList ↔
        ∃ k < ss.length, i + 1 = (endedLines (String.join (ss.take (k + 1)))).length) ↔
      ∀ s ∈ ss, mark.toList ∉ (endedLines s).dropLast := by
  have hended (k : Nat) : (endedLines (String.join (ss.take k))).length =
      ((ss.map endedLines).take k).flatten.length := by
    rw [endedLines_join fun s hs => hss s (List.mem_of_mem_take hs), List.map_take]
  -- the empty line behind the last line feed does not read so
  have hlines (i : Nat) : (lines (String.join ss))[i]? = some mark.toList ↔
      (ss.map endedLines).flatten[i]? = some mark.toList := by
    rw [lines_join hss, List.getElem?_append]
    split
    · rfl
    · next hi =>
      rw [List.getElem?_eq_none (Nat.le_of_not_lt hi), List.getElem?_singleton]
      simp [hmark]
  have hparts := getElem?_flatten_iff (List.forall_mem_map.2 hlast)
  rw [List.forall_mem_map] at hparts
  simp only [← hparts, hlines, EndsAt, hended, List.length_map]

/-- **To cut behind the lines that read as the texts end gives the texts**, exactly when none of
them has such a line before its last one. -/
theorem blocks_join_iff :
    blocks mark (String.join ss) = ss ↔ ∀ s ∈ ss, mark.toList ∉ (endedLines s).dropLast := by
  have hparts := splitBy_flatten_iff (List.forall_mem_map.2 hlast)
  rw [List.forall_mem_map] at hparts
  rw [← hparts, blocks, endedLines_join hss]
  constructor
  · intro h
    -- the blocks hold lines of the texts, so their lines can be read back
    have hread : ∀ ls ∈ (ss.map endedLines).flatten.splitBy fun l _ => l != mark.toList,
        endedLines (ofLines ls) = ls := by
      refine fun ls hls => endedLines_ofLines fun l hl => ?_
      have hmem := List.mem_flatten_of_mem hls hl
      rw [List.flatten_splitBy, ← List.flatMap_def] at hmem
      obtain ⟨s, -, hs⟩ := List.mem_flatMap.1 hmem
      exact lineFeed_notMem_endedLines hs
    conv_rhs => rw [← h, List.map_map]
    exact ((List.map_congr_left hread).trans (List.map_id _)).symm
  · intro h
    rw [h, List.map_map]
    exact (List.map_congr_left fun s hs => ofLines_endedLines (hss s hs)).trans (List.map_id ss)

end EndsIn

end Crossref.Text
