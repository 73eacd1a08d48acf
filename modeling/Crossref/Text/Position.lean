import Crossref.Text.Basic

/-!
# Text: positions

A position in a text is given in one of three ways: by the bytes before it (in UTF-8), by the
characters before it, or by a line and a column, both counted from one.  A byte position counts
only where a character begins or the text ends.

* `takeBytes?_append`: the first `byteSize u` bytes of `u ++ v` are `u`.
* `byteSize_of_takeBytes?`: the characters before a byte position take exactly that many bytes.
-/

namespace Crossref.Text

/-! ### Bytes and characters -/

/-- The number of bytes that the characters take in UTF-8. -/
def byteSize : List Char → Nat
  | [] => 0
  | c :: cs => c.utf8Size + byteSize cs

/-- The characters in the first `b` bytes, when `b` lies between two characters or at an end. -/
def takeBytes? : List Char → Nat → Option (List Char)
  | _, 0 => some []
  | [], _ + 1 => none
  | c :: cs, b + 1 =>
    if c.utf8Size ≤ b + 1 then (takeBytes? cs (b + 1 - c.utf8Size)).map (c :: ·) else none

theorem takeBytes?_zero (cs : List Char) : takeBytes? cs 0 = some [] := by
  cases cs <;> rfl

theorem takeBytes?_append (u v : List Char) : takeBytes? (u ++ v) (byteSize u) = some u := by
  induction u with
  | nil => exact takeBytes?_zero v
  | cons c u ih =>
    obtain ⟨k, hk⟩ : ∃ k, c.utf8Size + byteSize u = k + 1 :=
      ⟨c.utf8Size + byteSize u - 1, by have := c.utf8Size_pos; omega⟩
    have hle : c.utf8Size ≤ k + 1 := by omega
    have hsub : k + 1 - c.utf8Size = byteSize u := by omega
    simp [byteSize, takeBytes?, hk, hle, hsub, ih]

theorem byteSize_of_takeBytes? {cs u : List Char} {b : Nat} (h : takeBytes? cs b = some u) :
    byteSize u = b ∧ u <+: cs := by
  induction cs generalizing b u with
  | nil =>
    cases b with
    | zero => simp [takeBytes?] at h; subst h; exact ⟨rfl, List.nil_prefix⟩
    | succ b => simp [takeBytes?] at h
  | cons c cs ih =>
    cases b with
    | zero => simp [takeBytes?] at h; subst h; exact ⟨rfl, List.nil_prefix⟩
    | succ b =>
      rw [takeBytes?] at h
      split at h
      · obtain ⟨w, hw, rfl⟩ := Option.map_eq_some_iff.1 h
        obtain ⟨h₁, h₂⟩ := ih hw
        exact ⟨by simp only [byteSize]; omega, by simpa using h₂⟩
      · cases h

/-- The number of bytes of the text. -/
def size (s : String) : Nat := s.utf8ByteSize

/-- The number of characters before byte `b`. -/
def charOffset? (s : String) (b : Nat) : Option Nat :=
  (takeBytes? s.toList b).map List.length

/-- The number of bytes before the character numbered `n`; the text's end counts as one more
character. -/
def byteOffset? (s : String) (n : Nat) : Option Nat :=
  if n ≤ s.toList.length then some (byteSize (s.toList.take n)) else none

/-- The text between two byte positions. -/
def slice (s : String) (start stop : Nat) : String := String.Pos.Raw.extract s ⟨start⟩ ⟨stop⟩

/-- The text between two byte positions, when both count and stand in order. -/
def slice? (s : String) (start stop : Nat) : Option String :=
  match takeBytes? s.toList start, takeBytes? s.toList stop with
  | some before, some upTo =>
    if start ≤ stop then some (String.ofList (upTo.drop before.length)) else none
  | _, _ => none

/-! ### Lines and columns -/

/-- The lines of the text without their line feeds; a text that ends in a line feed has an empty
last line. -/
def lines (s : String) : List (List Char) := s.toList.splitOn '\n'

/-- The line and column of byte `b`: one more than the line feeds before it, and one more than the
characters since the last of them. -/
def lineColumn? (s : String) (b : Nat) : Option (Nat × Nat) :=
  (takeBytes? s.toList b).map fun before =>
    (before.count '\n' + 1, (before.reverse.takeWhile (· != '\n')).length + 1)

/-- The number of bytes before the line with index `i`: the lines above it and their line feeds. -/
def lineStart (ls : List (List Char)) (i : Nat) : Nat :=
  (ls.take i).foldr (fun l n => byteSize l + 1 + n) 0

/-- The byte at a line and column; a line has one column more than it has characters. -/
def offsetOf? (s : String) (line column : Nat) : Option Nat :=
  if line = 0 ∨ column = 0 then none
  else
    match (lines s)[line - 1]? with
    | some l =>
      if column - 1 ≤ l.length then
        some (lineStart (lines s) (line - 1) + byteSize (l.take (column - 1)))
      else none
    | none => none

end Crossref.Text
