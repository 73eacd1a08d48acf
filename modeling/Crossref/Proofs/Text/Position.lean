import Crossref.Text.Position

/-!
# Proofs — text — where bytes, characters and lines agree

A byte position between two characters splits the text in two.  The text between two such
positions, the number of characters before one, and its line and column are all read off that
split.

* `slice?_eq_some_iff`: the text between two positions is what stands between their splits.
* `Stands.lineColumn?_eq`: the line counts the line feeds before a position, the column the
  characters since the last of them.
-/

namespace Crossref.Text

/-! ### Bytes -/

theorem byteSize_append (u v : List Char) : byteSize (u ++ v) = byteSize u + byteSize v := by
  induction u with
  | nil => simp [byteSize]
  | cons c u ih => rw [List.cons_append, byteSize, byteSize, ih, Nat.add_assoc]

theorem byteSize_ofList (u : List Char) : (String.ofList u).utf8ByteSize = byteSize u := by
  induction u with
  | nil => rfl
  | cons c u ih =>
      rw [String.ofList_cons, String.utf8ByteSize_append, String.utf8ByteSize_singleton, ih,
        byteSize]

theorem byteSize_toList (s : String) : byteSize s.toList = size s := by
  rw [size, ← byteSize_ofList, String.ofList_toList]

/-- Only nothing takes no bytes. -/
theorem eq_nil_of_byteSize_eq_zero {u : List Char} (h : byteSize u = 0) : u = [] := by
  cases u with
  | nil => rfl
  | cons c u =>
      have := c.utf8Size_pos
      rw [byteSize] at h
      omega

/-- Of two beginnings of one text the one with fewer bytes begins the other. -/
theorem prefix_of_byteSize_le {cs u v : List Char} (hu : u <+: cs) (hv : v <+: cs)
    (h : byteSize u ≤ byteSize v) : u <+: v := by
  rcases List.prefix_or_prefix_of_prefix hu hv with huv | ⟨w, rfl⟩
  · exact huv
  · rw [byteSize_append] at h
    obtain rfl : w = [] := eq_nil_of_byteSize_eq_zero (by omega)
    exact ⟨[], by simp⟩

/-! ### Positions between characters -/

/-- Byte `b` of the text stands between the characters before it and those after it. -/
structure Stands (s : String) (b : Nat) (before after : List Char) : Prop where
  split : s.toList = before ++ after
  bytes : byteSize before = b

/-- Byte `b` stands between two characters of the text or at one of its ends. -/
def OnBoundary (s : String) (b : Nat) : Prop := ∃ before after, Stands s b before after

theorem Stands.takeBytes? {s : String} {b : Nat} {before after : List Char}
    (h : Stands s b before after) : takeBytes? s.toList b = some before := by
  rw [h.split, ← h.bytes]
  exact takeBytes?_append before after

theorem stands_of_takeBytes? {s : String} {b : Nat} {before : List Char}
    (h : takeBytes? s.toList b = some before) : ∃ after, Stands s b before after := by
  obtain ⟨hb, after, hs⟩ := byteSize_of_takeBytes? h
  exact ⟨after, hs.symm, hb⟩

theorem onBoundary_iff {s : String} {b : Nat} :
    OnBoundary s b ↔ (takeBytes? s.toList b).isSome = true := by
  constructor
  · rintro ⟨before, after, h⟩
    rw [h.takeBytes?]
    rfl
  · intro h
    obtain ⟨before, hb⟩ := Option.isSome_iff_exists.1 h
    exact ⟨before, stands_of_takeBytes? hb⟩

instance (s : String) (b : Nat) : Decidable (OnBoundary s b) :=
  decidable_of_iff _ onBoundary_iff.symm

theorem OnBoundary.le_size {s : String} {b : Nat} (h : OnBoundary s b) : b ≤ size s := by
  obtain ⟨before, after, hs, rfl⟩ := h
  rw [← byteSize_toList, hs, byteSize_append]
  exact Nat.le_add_right _ _

/-! ### Offset, line and column -/

section Stands

variable {s : String} {b : Nat} {before after : List Char}

theorem Stands.charOffset?_eq (h : Stands s b before after) :
    charOffset? s b = some before.length := by
  rw [charOffset?, h.takeBytes?]
  rfl

/-- **The line of a position counts the line feeds before it, the column the characters since the
last of them.** -/
theorem Stands.lineColumn?_eq (h : Stands s b before after) :
    ∃ lead line, before = lead ++ line ∧ (lead = [] ∨ lead.getLast? = some '\n') ∧ '\n' ∉ line ∧
      lineColumn? s b = some (lead.count '\n' + 1, line.length + 1) := by
  let line := (before.reverse.takeWhile (· != '\n')).reverse
  let lead := (before.reverse.dropWhile (· != '\n')).reverse
  have hsplit : before = lead ++ line := by
    rw [← List.reverse_append, List.takeWhile_append_dropWhile, List.reverse_reverse]
  have hline : '\n' ∉ line := by
    intro hmem
    have hne := List.all_eq_true.1 List.all_takeWhile _ (List.mem_reverse.1 hmem)
    simp at hne
  refine ⟨lead, line, hsplit, ?_, hline, ?_⟩
  · -- what is left of the way back begins with the line feed that stopped it
    rw [List.getLast?_reverse]
    cases hd : before.reverse.dropWhile (· != '\n') with
    | nil => exact .inl (by simp [lead, hd])
    | cons c cs =>
        have hc := List.head?_dropWhile_not (· != '\n') before.reverse
        rw [hd] at hc
        exact .inr (by simpa using hc)
  · have hcount : before.count '\n' = lead.count '\n' := by
      rw [hsplit, List.count_append, List.count_eq_zero.2 hline, Nat.add_zero]
    rw [lineColumn?, h.takeBytes?, Option.map_some, hcount, List.length_reverse]

end Stands

/-! ### The text between two positions -/

/-- **The text between two positions is what stands between their splits.** -/
theorem slice?_eq_some_iff {s : String} {start stop : Nat} {t : String} :
    slice? s start stop = some t ↔
      ∃ before after, Stands s start before (t.toList ++ after) ∧
        Stands s stop (before ++ t.toList) after := by
  constructor
  · intro h
    unfold slice? at h
    split at h
    · next before upTo hb hu =>
      obtain ⟨hle, h⟩ := Option.ite_none_right_eq_some.1 h
      cases h
      obtain ⟨rfl, hbp⟩ := byteSize_of_takeBytes? hb
      obtain ⟨rfl, hup⟩ := byteSize_of_takeBytes? hu
      -- the two beginnings of the text differ by the slice
      obtain ⟨mid, rfl⟩ := prefix_of_byteSize_le hbp hup hle
      obtain ⟨after, hs⟩ := hup
      refine ⟨before, after, ⟨?_, rfl⟩, ⟨?_, ?_⟩⟩ <;> simp [← hs]
    · cases h
  · rintro ⟨before, after, hb, hu⟩
    have hle : start ≤ stop := by
      rw [← hb.bytes, ← hu.bytes, byteSize_append]
      exact Nat.le_add_right _ _
    simp [slice?, hb.takeBytes?, hu.takeBytes?, hle]

/-- Between two positions that stand in order there is a text. -/
theorem exists_slice? {s : String} {start stop : Nat} (h₁ : OnBoundary s start)
    (h₂ : OnBoundary s stop) (hle : start ≤ stop) : ∃ t, slice? s start stop = some t := by
  obtain ⟨before, _, hb⟩ := h₁
  obtain ⟨upTo, _, hu⟩ := h₂
  exact ⟨String.ofList (upTo.drop before.length),
    by simp [slice?, hb.takeBytes?, hu.takeBytes?, hle]⟩

/-- Skipping the characters before a piece of the text and taking as many as it has gives the
piece. -/
theorem take_drop_of_stands {s t : String} {start : Nat} {before after : List Char}
    (h : Stands s start before (t.toList ++ after)) :
    (s.toList.drop before.length).take t.toList.length = t.toList := by
  rw [h.split, List.drop_left, List.take_left]

end Crossref.Text
