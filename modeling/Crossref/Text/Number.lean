/-!
# Text: numbers

Numbers written with digits in a base, from two to sixteen.

* `digitsValue?_append`: a longer row of digits continues the value of a shorter one.
-/

namespace Crossref.Text

/-- The value of a digit, when it is one in the base. -/
def digitValue? (base : Nat) (c : Char) : Option Nat :=
  let value :=
    if c.isDigit then some (c.toNat - '0'.toNat)
    else if 'a' ≤ c ∧ c ≤ 'f' then some (c.toNat - 'a'.toNat + 10)
    else if 'A' ≤ c ∧ c ≤ 'F' then some (c.toNat - 'A'.toNat + 10)
    else none
  value.filter (· < base)

/-- The number that the digits write behind the number `n`. -/
def extendDigits? (base : Nat) (n : Nat) (digits : List Char) : Option Nat :=
  digits.foldlM (fun n c => (digitValue? base c).map (n * base + ·)) n

/-- The number that at least one digit in the base writes. -/
def digitsValue? (base : Nat) (digits : List Char) : Option Nat :=
  if digits = [] then none else extendDigits? base 0 digits

theorem digitsValue?_append {base n : Nat} {u v : List Char} (h : digitsValue? base u = some n) :
    digitsValue? base (u ++ v) = extendDigits? base n v := by
  unfold digitsValue? at h
  split at h
  · cases h
  · next hu => simp [digitsValue?, hu, extendDigits?, List.foldlM_append] at h ⊢; simp [h]

/-- The character whose number the digits write in base sixteen. -/
def hexChar? (digits : List Char) : Option Char :=
  (digitsValue? 16 digits).bind fun n => if n.isValidChar then some (Char.ofNat n) else none

/-- The numbers of a count are those of 64 bits. -/
def countLimit : Nat := Nat.pow 2 64

/-- The count that decimal digits write, behind a plus sign or none. -/
def count? (s : String) : Option Nat :=
  let body := if s.toList.head? = some '+' then s.toList.drop 1 else s.toList
  (digitsValue? 10 body).filter (· < countLimit)

end Crossref.Text
