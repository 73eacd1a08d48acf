import Crossref.Data.Yaml.Place
import Crossref.Text.Number

/-!
# YAML: scalars in flow style

Plain and quoted scalars.  Both may go on over several lines: the blanks and line ends between two
words are a gap, and a gap with line ends in it is folded.

* `foldGap_of_no_break`: inside a line blanks stand for themselves.
* `foldGap_break`: a single line feed stands for a space, whatever blanks are around it.
* `length_of_plainWord`: a word and what follows it are all that was there.
-/

namespace Crossref.Yaml

/-! ### Gaps -/

/-- What the blanks and line ends of a gap stand for.  Blanks at the ends of lines do not count; the
first line end is dropped when it is a line feed, with a space in its place if there is no other. -/
def foldGap (gap : List Char) : List Char :=
  match gap.filter isBreak with
  | [] => gap
  | '\n' :: [] => [' ']
  | '\n' :: more => more
  | breaks => breaks

theorem foldGap_of_no_break {gap : List Char} (h : ∀ c ∈ gap, isBreak c = false) :
    foldGap gap = gap := by
  have : gap.filter isBreak = [] := by simpa [List.filter_eq_nil_iff] using h
  simp [foldGap, this]

theorem foldGap_break {u v : List Char} (hu : ∀ c ∈ u, isBreak c = false)
    (hv : ∀ c ∈ v, isBreak c = false) : foldGap (u ++ '\n' :: v) = [' '] := by
  have hu' : u.filter isBreak = [] := by simpa [List.filter_eq_nil_iff] using hu
  have hv' : v.filter isBreak = [] := by simpa [List.filter_eq_nil_iff] using hv
  have hn : isBreak '\n' = true := by decide
  simp [foldGap, hu', hv', hn]

/-! ### Plain scalars -/

/-- The brackets and the comma of flow collections. -/
def isFlowIndicator (c : Char) : Bool := [',', '[', ']', '{', '}'].contains c

/-- A plain scalar may start with the character, in front of the given ones. -/
def startsPlain (inFlow : Bool) (c : Char) (ps : List Placed) : Bool :=
  if c = '-' then !endsWord ps
  else if c = '?' || c = ':' then !inFlow && !endsWord ps
  else
    !(isBlank c || isFlowIndicator c
      || ['#', '&', '*', '!', '|', '>', '\'', '"', '%', '@', '\x60'].contains c)

/-- The rest of a word, behind the characters in `done`, which are in reverse.  In flow collections
no colon stands directly in front of a bracket, a comma or a question mark. -/
def plainWord (inFlow : Bool) (done : List Char) : List Placed → Option (List Char × List Placed)
  | [] => some (done.reverse, [])
  | p :: ps =>
    let next := ps.head?.map Placed.char
    if isBlank p.char then some (done.reverse, p :: ps)
    else if inFlow && p.char = ':' && next.any (fun c => c = '?' || isFlowIndicator c) then none
    else if (p.char = ':' && endsWord ps) || (inFlow && isFlowIndicator p.char) then
      some (done.reverse, p :: ps)
    else plainWord inFlow (p.char :: done) ps

theorem length_of_plainWord {inFlow : Bool} {done word : List Char} {ps rest : List Placed}
    (h : plainWord inFlow done ps = some (word, rest)) :
    word.length + rest.length = done.length + ps.length := by
  fun_induction plainWord inFlow done ps with
  | case1 done => cases h; simp
  | case2 done p ps => cases h; simp
  | case3 => cases h
  | case4 done p ps => cases h; simp
  | case5 done p ps _ _ _ _ ih => have := ih h; simp at this ⊢; omega

/-- A tab stands left of the column `least` in a line that the gap goes on to. -/
def hasShallowTab (least : Nat) (gap : List Placed) : Bool :=
  (gap.dropWhile (!isBreak ·.char)).any fun p => p.char = '\t' && p.column < least

/-- The rest of a plain scalar, behind the text in `done`, which is in reverse, and a gap; the
gap counts only if a word follows.  Outside flow collections the scalar goes on in lines from column
`least` on.  The answer tells whether a line end stands in the gap behind the scalar. -/
def plainFrom (inFlow : Bool) (least : Nat) (done gap : List Char) (ps : List Placed) :
    Option (String × Bool × List Placed) :=
  let ended := some (String.ofList done.reverse, gap.any isBreak, ps)
  if isDocumentMarker ps || ps.head?.any (·.char = '#') then ended
  else
    match _h : plainWord inFlow [] ps with
    | none => none
    | some ([], _) => ended
    | some (c :: word, rest) =>
      let done := (c :: word).reverse ++ (foldGap gap).reverse ++ done
      let run := rest.takeWhile (isBlank ·.char)
      let next := rest.dropWhile (isBlank ·.char)
      let gap := run.map Placed.char
      if hasShallowTab least run then none
      else if !inFlow && next.head?.any (·.column < least) then
        some (String.ofList done.reverse, gap.any isBreak, next)
      else plainFrom inFlow least done gap next
termination_by ps.length
decreasing_by
  have hw := length_of_plainWord _h
  have hd := (List.dropWhile_sublist (fun p : Placed => isBlank p.char) (l := rest)).length_le
  simp at hw
  omega

/-- The text of a plain scalar, whether its line ends behind it, and what follows it. -/
def plain (inFlow : Bool) (least : Nat) (ps : List Placed) : Option (String × Bool × List Placed) :=
  plainFrom inFlow least [] [] ps

/-! ### Quoted scalars -/

/-- A piece of what is written between quotes. -/
inductive Piece where
  /-- A character that stands for itself, or belongs to a gap. -/
  | written (c : Char)
  | escaped (c : Char)
  /-- A line end that a backslash takes away, together with the blanks behind it. -/
  | joined
  deriving DecidableEq, Inhabited

/-- The characters that a letter behind a backslash stands for. -/
def escapes : List (Char × Char) :=
  [('0', '\x00'), ('a', '\x07'), ('b', '\x08'), ('t', '\t'), ('\t', '\t'), ('n', '\n'),
   ('v', '\x0b'), ('f', '\x0c'), ('r', '\r'), ('e', '\x1b'), (' ', ' '), ('"', '"'), ('/', '/'),
   ('\\', '\\'), ('N', '\u0085'), ('_', '\u00a0'), ('L', '\u2028'), ('P', '\u2029')]

/-- The number of digits behind a letter that announces the number of a character. -/
def digitCount? (c : Char) : Option Nat := [('x', 2), ('u', 4), ('U', 8)].lookup c

/-- The piece that is written with a backslash in front. -/
def escape? : List Placed → Option (Piece × List Placed)
  | [] => none
  | p :: ps =>
    if isBreak p.char then some (.joined, ps)
    else
      match digitCount? p.char with
      | some n =>
        let digits := (ps.take n).map Placed.char
        if digits.length < n then none
        else (Text.hexChar? digits).map fun c => (.escaped c, ps.drop n)
      | none => (escapes.lookup p.char).map fun c => (.escaped c, ps)

theorem length_of_escape? {ps rest : List Placed} {piece : Piece}
    (h : escape? ps = some (piece, rest)) : rest.length < ps.length := by
  cases ps with
  | nil => simp [escape?] at h
  | cons p ps =>
    simp only [escape?] at h
    split at h
    · cases h; simp
    · split at h
      · split at h
        · cases h
        · obtain ⟨c, _, hc⟩ := Option.map_eq_some_iff.1 h
          cases hc
          simp only [List.length_drop, List.length_cons]
          omega
      · obtain ⟨c, _, hc⟩ := Option.map_eq_some_iff.1 h
        cases hc
        simp

/-- The pieces up to the closing quote, behind those in `done`, which are in reverse.  A document
does not end between quotes. -/
def pieces (quote : Char) (done : List Piece) : List Placed → Option (List Piece × List Placed)
  | [] => none
  | p :: ps =>
    if isDocumentMarker (p :: ps) then none
    else if p.char = quote then
      if quote = '\'' && ps.head?.any (·.char = '\'') then
        pieces quote (.escaped '\'' :: done) (ps.drop 1)
      else some (done.reverse, ps)
    else if quote = '"' && p.char = '\\' then
      match _h : escape? ps with
      | none => none
      | some (piece, rest) => pieces quote (piece :: done) rest
    else pieces quote (.written p.char :: done) ps
termination_by ps => ps.length
decreasing_by
  · simp only [List.length_drop, List.length_cons]
    omega
  · have := length_of_escape? _h
    simp
    omega
  · simp

/-- The text that is sure so far, in reverse, and the gap behind it, in reverse too. -/
structure Folding where
  done : List Char := []
  gap : List Char := []
  /-- A line end was taken away in front of the gap. -/
  joined : Bool := false
  deriving Inhabited

/-- The text with its gap folded, in reverse.  Behind a line end that was taken away only the line
ends of the gap count. -/
def Folding.closed (f : Folding) : List Char :=
  (if f.joined then f.gap.filter isBreak else (foldGap f.gap.reverse).reverse) ++ f.done

def Folding.add (f : Folding) : Piece → Folding
  | .written c =>
    if isBlank c then { f with gap := c :: f.gap } else { done := c :: f.closed }
  | .escaped c => { done := c :: f.closed }
  | .joined => { done := f.closed, joined := true }

/-- The text of a scalar behind its opening quote, and what follows it. -/
def quoted (quote : Char) (ps : List Placed) : Option (String × List Placed) :=
  (pieces quote [] ps).map fun (found, rest) =>
    (String.ofList (found.foldl Folding.add {}).closed.reverse, rest)

end Crossref.Yaml
