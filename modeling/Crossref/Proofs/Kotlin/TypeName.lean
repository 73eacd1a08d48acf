import Crossref.Kotlin.TypeName
import Mathlib.Data.List.Infix

/-!
# Proofs — Kotlin — the name of a type as written

A type is written as a dotted path whose segments may carry type arguments, with a mark behind it
when it may be null.  Its name is what stands before the first arguments, whatever they are and
whatever follows: the mark, and every further segment.

* `simpleTypeName_append`: neither arguments nor the mark are part of the name.
* `simpleTypeName_typeText`: the name of a path is that of its segments up to the first arguments.
-/

namespace Crossref

namespace Text

/-! ### Trimming -/

/-- Behind a character that is not blank, only what follows it is trimmed. -/
theorem trimEndChars_append_cons {c : Char} (hc : isBlank c = false) (u v : List Char) :
    trimEndChars (u ++ c :: v) = u ++ c :: trimEndChars v := by
  have hreverse : (u ++ c :: v).reverse = v.reverse ++ c :: u.reverse := by simp
  rw [trimEndChars, hreverse, List.dropWhile_append, trimEndChars]
  split
  · next h => simp [List.isEmpty_iff.1 h, hc]
  · simp

theorem trimEndChars_eq_self {cs : List Char} (h : ∀ c ∈ cs.getLast?, isBlank c = false) :
    trimEndChars cs = cs := by
  rcases cs.eq_nil_or_concat with rfl | ⟨init, last, rfl⟩
  · rfl
  · rw [List.concat_eq_append] at h ⊢
    exact trimEndChars_append_cons (h last (by simp)) init []

theorem trimStartChars_eq_self {cs : List Char} (h : ∀ c ∈ cs.head?, isBlank c = false) :
    trimStartChars cs = cs := by
  rcases cs with _ | ⟨c, cs⟩
  · rfl
  · simp [trimStartChars, h c rfl]

theorem stripRepeated_eq_self {p cs : List Char} (h : ¬ p <+: cs) : stripRepeated p cs = cs := by
  rw [stripRepeated]
  cases cs.length with
  | zero => rfl
  | succ n => rw [stripRepeatedWith, if_neg (by rwa [List.isPrefixOf_iff_prefix])]

/-- A text that begins with a word begins with it before any character that the word lacks. -/
theorem prefix_of_prefix_append_cons {word p rest : List Char} {c : Char} (hc : c ∉ word)
    (h : word <+: p ++ c :: rest) : word <+: p := by
  rcases List.prefix_or_prefix_of_prefix h (List.prefix_append p (c :: rest)) with h' | ⟨t, rfl⟩
  · exact h'
  · rcases t with _ | ⟨d, t⟩
    · simp
    · have hd : d = c := (List.cons_prefix_cons.1 ((List.prefix_append_right_inj p).1 h)).1
      simp [hd] at hc

/-- A text with a character behind it that is not taken is taken as far as without. -/
theorem takeWhile_append_cons {test : Char → Bool} {c : Char} (hc : test c = false)
    (p rest : List Char) : (p ++ c :: rest).takeWhile test = p.takeWhile test := by
  rw [List.takeWhile_append]
  split
  · next h =>
    rw [List.takeWhile_cons_of_neg (by simp [hc]), List.append_nil]
    exact ((List.takeWhile_prefix test).eq_of_length h).symm
  · rfl

end Text

namespace Kotlin

/-! ### Names that need no trimming -/

/-- A text without blanks at its ends and without a variance keyword in front. -/
structure Plain (cs : List Char) : Prop where
  head : ∀ c ∈ cs.head?, Text.isBlank c = false
  last : ∀ c ∈ cs.getLast?, Text.isBlank c = false
  not_in : ¬ "in ".toList <+: cs
  not_out : ¬ "out ".toList <+: cs

/-- A name as it is written in a path: without blanks, or between backticks. -/
def IsName (name : List Char) : Prop :=
  (name ≠ [] ∧ ∀ c ∈ name, Text.isBlank c = false) ∨
    (name.head? = some '`' ∧ name.getLast? = some '`')

instance (name : List Char) : Decidable (IsName name) :=
  decidable_of_iff ((name ≠ [] ∧ name.all (fun c => !Text.isBlank c) = true) ∨
      (name.head? = some '`' ∧ name.getLast? = some '`'))
    (by simp [IsName])

theorem IsName.plain {name : List Char} (h : IsName name) : Plain name := by
  rcases h with ⟨-, hblank⟩ | ⟨hhead, hlast⟩
  · have hspace : ∀ word : List Char, ' ' ∈ word → ¬ word <+: name := by
      intro word hmem hbegins
      have := hblank ' ' (hbegins.subset hmem)
      simp [Text.isBlank, Text.blankRanges] at this
    exact ⟨fun c hc => hblank c (List.mem_of_mem_head? hc),
      fun c hc => hblank c (List.mem_of_mem_getLast? hc), hspace _ (by simp), hspace _ (by simp)⟩
  · have hquote : Text.isBlank '`' = false := by decide
    have hword : ∀ word : List Char, word.head? ≠ some '`' → word ≠ [] → ¬ word <+: name := by
      rintro word hhead' hne ⟨rest, rfl⟩
      rw [List.head?_append_of_ne_nil _ hne] at hhead
      exact hhead' hhead
    refine ⟨?_, ?_, hword _ (by simp) (by simp), hword _ (by simp) (by simp)⟩
    · rw [hhead]
      rintro c ⟨⟩
      exact hquote
    · rw [hlast]
      rintro c ⟨⟩
      exact hquote

/-- Two plain texts with a dot between them are plain. -/
theorem Plain.dot {name path : List Char} (hname : Plain name) (hpath : Plain path) :
    Plain (name ++ '.' :: path) where
  head := by
    rcases name with _ | ⟨c, name⟩
    · rintro c ⟨⟩
      decide
    · exact hname.head
  last := by
    rw [List.getLast?_append_cons]
    rcases path with _ | ⟨c, path⟩
    · rintro c ⟨⟩
      decide
    · simpa using hpath.last
  not_in h := hname.not_in (Text.prefix_of_prefix_append_cons (by decide) h)
  not_out h := hname.not_out (Text.prefix_of_prefix_append_cons (by decide) h)

/-! ### The name -/

/-- The text of a type between its keywords and its marks. -/
def bareText (cs : List Char) : List Char :=
  Text.trimChars (Text.stripRepeated "out ".toList
    (Text.stripRepeated "in ".toList (Text.trimChars cs)))

/-- Nothing is taken away from a plain text. -/
theorem Plain.bareText_eq {cs : List Char} (h : Plain cs) : bareText cs = cs := by
  have htrim : Text.trimChars cs = cs := by
    rw [Text.trimChars, Text.trimStartChars_eq_self h.head, Text.trimEndChars_eq_self h.last]
  rw [bareText, htrim, Text.stripRepeated_eq_self h.not_in, Text.stripRepeated_eq_self h.not_out,
    htrim]

/-- Behind a plain text and a character of no keyword, only blanks at the end are taken away. -/
theorem Plain.bareText_append {cs : List Char} (h : Plain cs) {c : Char}
    (hc : Text.isBlank c = false) (hin : c ∉ "in ".toList) (hout : c ∉ "out ".toList)
    (rest : List Char) :
    bareText (cs ++ c :: rest) = cs ++ c :: Text.trimEndChars (Text.trimEndChars rest) := by
  have htrim : ∀ rest, Text.trimChars (cs ++ c :: rest) = cs ++ c :: Text.trimEndChars rest := by
    intro rest
    have hhead : ∀ d ∈ (cs ++ c :: rest).head?, Text.isBlank d = false := by
      rcases cs with _ | ⟨d, cs⟩
      · rintro d ⟨⟩
        exact hc
      · exact h.head
    rw [Text.trimChars, Text.trimStartChars_eq_self hhead, Text.trimEndChars_append_cons hc]
  have hstrip : ∀ word rest, c ∉ word → ¬ word <+: cs →
      Text.stripRepeated word (cs ++ c :: rest) = cs ++ c :: rest := fun word rest hword hnot =>
    Text.stripRepeated_eq_self (mt (Text.prefix_of_prefix_append_cons hword) hnot)
  rw [bareText, htrim, hstrip _ _ hin h.not_in, hstrip _ _ hout h.not_out, htrim]

/-- The name in what is left of a text: what stands before arguments, without marks behind it. -/
def nameIn (cs : List Char) : List Char :=
  Text.trimChars (Text.stripEnd '!' (Text.stripEnd '?' (cs.takeWhile (· != '<'))))

theorem simpleTypeName_ofList (cs : List Char) :
    simpleTypeName (String.ofList cs) = String.ofList (nameIn (bareText cs)) := by
  simp only [simpleTypeName, String.toList_ofList, nameIn, bareText]

theorem nameIn_arguments (cs rest : List Char) : nameIn (cs ++ '<' :: rest) = nameIn cs := by
  rw [nameIn, Text.takeWhile_append_cons (by decide), nameIn]

theorem nameIn_mark (cs : List Char) : nameIn (cs ++ ['?']) = nameIn cs := by
  have hstrip : Text.stripEnd '?' ((cs ++ ['?']).takeWhile (· != '<')) =
      Text.stripEnd '?' (cs.takeWhile (· != '<')) := by
    rw [List.takeWhile_append]
    split
    · next h =>
      rw [(List.takeWhile_prefix _).eq_of_length h]
      simp [Text.stripEnd]
    · rfl
  rw [nameIn, hstrip, nameIn]

/-- **The name of a type** goes without arguments and without the mark behind it. -/
theorem simpleTypeName_append {cs rest : List Char} (h : Plain cs)
    (hrest : rest = [] ∨ rest = ['?'] ∨ rest.head? = some '<') :
    simpleTypeName (String.ofList (cs ++ rest)) = simpleTypeName (String.ofList cs) := by
  rw [simpleTypeName_ofList, simpleTypeName_ofList, h.bareText_eq]
  rcases hrest with rfl | rfl | hrest
  · rw [List.append_nil, h.bareText_eq]
  · rw [h.bareText_append (by decide) (by decide) (by decide)]
    exact congrArg String.ofList (nameIn_mark cs)
  · obtain ⟨rest, rfl⟩ := List.head?_eq_some_iff.1 hrest
    rw [h.bareText_append (by decide) (by decide) (by decide), nameIn_arguments]

/-! ### Paths with arguments -/

/-- A segment of a path with the text between the brackets of its arguments, if it has any. -/
structure Segment where
  name : List Char
  arguments : Option (List Char) := none
  deriving DecidableEq

/-- How a segment is written. -/
def Segment.written (s : Segment) : List Char :=
  match s.arguments with
  | none => s.name
  | some inner => s.name ++ '<' :: inner ++ ['>']

/-- The names of the segments with dots between them. -/
def pathText (path : List Segment) : String :=
  String.ofList (['.'].intercalate (path.map Segment.name))

/-- The path as a type is written, with the arguments, and with a mark if it may be null. -/
def typeText (path : List Segment) (nullable : Bool) : String :=
  String.ofList (['.'].intercalate (path.map Segment.written) ++ if nullable then ['?'] else [])

/-- The segments up to the first with arguments. -/
def upToArguments : List Segment → List Segment
  | [] => []
  | s :: rest => if s.arguments.isSome then [s] else s :: upToArguments rest

theorem upToArguments_ne_nil {path : List Segment} (h : path ≠ []) : upToArguments path ≠ [] := by
  cases path with
  | nil => exact absurd rfl h
  | cons s rest =>
      rw [upToArguments]
      split <;> simp

/-- With arguments behind the last segment at most, these are all segments. -/
theorem upToArguments_eq_self {path : List Segment}
    (h : ∀ s ∈ path.dropLast, s.arguments = none) : upToArguments path = path := by
  induction path with
  | nil => rfl
  | cons s rest ih =>
      rw [upToArguments]
      cases rest with
      | nil => simp [upToArguments]
      | cons s' rest =>
          rw [List.dropLast_cons_cons] at h
          rw [h s List.mem_cons_self, ih fun x hx => h x (List.mem_cons_of_mem _ hx)]
          rfl

theorem upToArguments_subset (path : List Segment) : upToArguments path ⊆ path := by
  induction path with
  | nil => simp [upToArguments]
  | cons s rest ih =>
      rw [upToArguments]
      split
      · simp
      · exact List.cons_subset_cons s ih

/-- A path is its first segment, a dot and the rest of the path. -/
theorem intercalate_map_cons (part : Segment → List Char) (s : Segment) {path : List Segment}
    (h : path ≠ []) : ['.'].intercalate ((s :: path).map part) =
      part s ++ '.' :: ['.'].intercalate (path.map part) := by
  obtain ⟨s', path, rfl⟩ := List.exists_cons_of_ne_nil h
  simp [List.intercalate_cons_cons]

/-- A path of names is plain. -/
theorem plain_intercalate {path : List Segment} (h : ∀ s ∈ path, IsName s.name) :
    Plain (['.'].intercalate (path.map Segment.name)) := by
  induction path with
  | nil => exact ⟨by simp, by simp, by decide, by decide⟩
  | cons s rest ih =>
      have hs := (h s List.mem_cons_self).plain
      rcases eq_or_ne rest [] with rfl | hrest
      · simpa using hs
      · rw [intercalate_map_cons _ _ hrest]
        exact hs.dot (ih fun x hx => h x (List.mem_cons_of_mem _ hx))

/-- What is written begins with the names up to the first arguments; if anything follows, these
do. -/
theorem exists_written_eq_append (path : List Segment) :
    ∃ rest, ['.'].intercalate (path.map Segment.written) =
        ['.'].intercalate ((upToArguments path).map Segment.name) ++ rest ∧
      (rest = [] ∨ rest.head? = some '<') := by
  induction path with
  | nil => exact ⟨[], rfl, .inl rfl⟩
  | cons s path ih =>
      obtain ⟨name, arguments⟩ := s
      cases arguments with
      | some inner =>
          -- the arguments follow, and behind them all other segments
          refine ⟨'<' :: inner ++ ['>'] ++
            if path = [] then [] else '.' :: ['.'].intercalate (path.map Segment.written), ?_,
            .inr rfl⟩
          rcases eq_or_ne path [] with rfl | hpath
          · simp [Segment.written, upToArguments]
          · rw [intercalate_map_cons _ _ hpath, if_neg hpath]
            simp [Segment.written, upToArguments]
      | none =>
          have hup :
              upToArguments (⟨name, none⟩ :: path) = ⟨name, none⟩ :: upToArguments path := rfl
          rcases eq_or_ne path [] with rfl | hpath
          · exact ⟨[], by simp [Segment.written, upToArguments], .inl rfl⟩
          · obtain ⟨rest, hrest, hcases⟩ := ih
            refine ⟨rest, ?_, hcases⟩
            rw [hup, intercalate_map_cons _ _ hpath, hrest,
              intercalate_map_cons _ _ (upToArguments_ne_nil hpath)]
            simp [Segment.written]

/-- **The name of a path as it is written** is that of its segments up to the first arguments. -/
theorem simpleTypeName_typeText {path : List Segment} (h : ∀ s ∈ path, IsName s.name)
    (nullable : Bool) :
    simpleTypeName (typeText path nullable) = simpleTypeName (pathText (upToArguments path)) := by
  obtain ⟨rest, hrest, hcases⟩ := exists_written_eq_append path
  rw [typeText, hrest, List.append_assoc, pathText]
  refine simpleTypeName_append
    (plain_intercalate fun s hs => h s (upToArguments_subset path hs)) ?_
  rcases hcases with rfl | hhead
  · cases nullable <;> simp
  · obtain ⟨rest, rfl⟩ := List.head?_eq_some_iff.1 hhead
    exact .inr (.inr rfl)

end Kotlin

end Crossref
