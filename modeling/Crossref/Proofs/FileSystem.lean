import Crossref.FileSystem
import Mathlib.Data.List.Basic
import Mathlib.Logic.Function.Basic

/-!
# What a change leaves of the files

A change is seen by what it makes of the bytes of every file, wherever the file is.  To make a
directory changes none of them, and to add to the file at a path changes exactly that one.

* `Entry.content?_put`: what was put somewhere is seen from there on, and nowhere else.
* `FileSystem.content?_makeParent`: the directories that are made hold no files.
* `FileSystem.exists_place_of_append`: a text is added to the file that its path leads to.
* `FileSystem.exists_room_of_append`: where there is no room for all of it, the front is.
* `FileSystem.place?_append`: where another path leads stays as it was.
-/

namespace Crossref

namespace Entry

variable {new e : Entry} {names place : List String} {entries : List (String × Entry)}

/-- The bytes of the file that the names lead to. -/
def content? (e : Entry) (names : List String) : Option ByteArray :=
  match e.at? names with
  | some (.file content) => some content
  | _ => none

theorem lookup_replace_of_ne {name other : String} (h : other ≠ name) :
    lookup (replace name new entries) other = lookup entries other := by
  induction entries with
  | nil => simp [replace, lookup, Ne.symm h]
  | cons old rest ih =>
      obtain ⟨first, old⟩ := old
      by_cases hfirst : first = name
      · subst hfirst
        simp [replace, lookup, Ne.symm h]
      · by_cases hother : first = other
        · subst hother
          simp [replace, lookup, hfirst]
        · simpa [replace, lookup, hfirst, hother] using ih

theorem at?_append (e : Entry) (names more : List String) :
    e.at? (names ++ more) = (e.at? names).bind (·.at? more) := by
  induction names generalizing e with
  | nil => cases e <;> rfl
  | cons name names ih =>
      cases e with
      | file content => rfl
      | directory entries =>
          simp only [List.cons_append, at?, Option.bind_assoc]
          exact Option.bind_congr fun e _ => ih e

theorem content?_empty (names : List String) : (directory []).content? names = none := by
  cases names <;> simp [content?, at?, lookup]

theorem content?_file_cons (content : ByteArray) (name : String) (names : List String) :
    (file content).content? (name :: names) = none := rfl

theorem content?_cons (name : String) (names : List String) :
    (directory entries).content? (name :: names) =
      ((lookup entries name).getD (.directory [])).content? names := by
  cases h : lookup entries name with
  | none =>
      rw [Option.getD_none, content?_empty]
      simp [content?, at?, h]
  | some e => simp [content?, at?, h]

/-- Below what was put somewhere there is what it holds, when it could be put; everywhere else there
is what there was. -/
theorem content?_put (new e : Entry) (names other : List String) :
    (put new names e).content? other =
      if names <+: other then
        if e.isOpen names then new.content? (other.drop names.length) else none
      else e.content? other := by
  induction names generalizing e other with
  | nil => cases e <;> simp [put, isOpen]
  | cons name names ih =>
      cases e with
      | file content => cases other <;> simp [put, isOpen, content?_file_cons]
      | directory entries =>
          cases other with
          | nil => simp [put, content?, at?]
          | cons first rest =>
              rw [put, content?_cons, content?_cons]
              by_cases h : first = name
              · subst h
                rw [lookup_replace, Option.getD_some, ih]
                cases hl : lookup entries first <;> simp [isOpen, hl, isOpen_empty]
              · simp [lookup_replace_of_ne h, Ne.symm h]

/-- Where there is no directory there are no files below. -/
theorem content?_append_eq_none (h : ∀ entries, e.at? names ≠ some (.directory entries))
    {more : List String} (hmore : more ≠ []) : e.content? (names ++ more) = none := by
  obtain ⟨name, more, rfl⟩ := List.exists_cons_of_ne_nil hmore
  rw [content?, at?_append]
  cases hat : e.at? names with
  | none => rfl
  | some found =>
      cases found with
      | file content => rfl
      | directory entries => exact absurd hat (h entries)

/-- To put a directory where nothing is changes no file. -/
theorem content?_put_directory (h : e.at? names = none) :
    (put (.directory []) names e).content? = e.content? := by
  funext other
  rw [content?_put]
  by_cases hprefix : names <+: other
  · obtain ⟨more, rfl⟩ := hprefix
    have hnone : e.content? (names ++ more) = none := by simp [content?, at?_append, h]
    simp [content?_empty, hnone]
  · rw [if_neg hprefix]

/-- To put a file where no directory is changes that file only. -/
theorem content?_put_file {content : ByteArray} (hopen : e.isOpen names = true)
    (h : ∀ entries, e.at? names ≠ some (.directory entries)) :
    (put (.file content) names e).content? =
      Function.update e.content? names (some content) := by
  funext other
  rw [content?_put, hopen, if_pos rfl]
  by_cases hprefix : names <+: other
  · obtain ⟨more, rfl⟩ := hprefix
    cases more with
    | nil => simp [content?, at?]
    | cons name more =>
        have hne : names ++ name :: more ≠ names := by simp
        rw [if_pos (List.prefix_append _ _), Function.update_of_ne hne, List.drop_left,
          content?_file_cons, content?_append_eq_none h (List.cons_ne_nil _ _)]
  · have hne : other ≠ names := fun heq => hprefix (heq ▸ List.prefix_refl _)
    rw [if_neg hprefix, Function.update_of_ne hne]

/-- In a directory that is there something can be put under every name. -/
theorem isOpen_concat (h : e.at? names = some (.directory entries)) (name : String) :
    e.isOpen (names ++ [name]) = true := by
  induction names generalizing e with
  | nil =>
      cases e with
      | file content => simp [at?] at h
      | directory entries =>
          cases hl : lookup entries name <;> simp [isOpen, hl]
  | cons first names ih =>
      cases e with
      | file content => simp [at?] at h
      | directory entries =>
          cases hl : lookup entries first with
          | none => simp [isOpen, hl]
          | some e =>
              rw [at?, hl, Option.bind_some] at h
              simpa [isOpen, hl] using ih h

/-- A directory that something is not put in place of, or above, is still there, with every name it
had. -/
theorem exists_directory_put (new : Entry) (h : e.at? place = some (.directory entries))
    (hplace : ¬ names <+: place) :
    ∃ entries', (put new names e).at? place = some (.directory entries') ∧
      ∀ name, (lookup entries name).isSome = true → (lookup entries' name).isSome = true := by
  induction names generalizing e place with
  | nil => exact absurd List.nil_prefix hplace
  | cons first names ih =>
      cases e with
      | file content => cases place <;> simp [at?] at h
      | directory entries₀ =>
          cases place with
          | nil =>
              cases h
              refine ⟨_, rfl, fun name hname => ?_⟩
              by_cases heq : name = first
              · rw [heq, lookup_replace]; rfl
              · rwa [lookup_replace_of_ne heq]
          | cons name place =>
              rw [at?] at h
              rw [put, at?]
              by_cases heq : name = first
              · subst heq
                obtain ⟨below, hbelow, hat⟩ := Option.bind_eq_some_iff.1 h
                rw [hbelow, lookup_replace, Option.getD_some, Option.bind_some]
                exact ih hat fun hprefix => hplace (List.cons_prefix_cons.2 ⟨rfl, hprefix⟩)
              · rw [lookup_replace_of_ne heq]
                exact ⟨entries, h, fun _ => id⟩

end Entry

namespace FileSystem
open Entry

variable {fs fs' : FileSystem} {p : Path} {place : List String}

/-- The bytes of the file at a place. -/
def content? (fs : FileSystem) (place : List String) : Option ByteArray := fs.top.content? place

section Directories

variable {P : FileSystem → Prop}
  (hput : ∀ fs place, fs.top.at? place = none → P fs → P (fs.putAt place (.directory [])))
include hput

theorem makeDirectoriesFrom_induction (h : P fs) (place : List String)
    (components : List Path.Component) : P (fs.makeDirectoriesFrom place components).1 := by
  induction components generalizing fs place with
  | nil => exact h
  | cons component rest ih =>
      cases component with
      | root => exact ih h []
      | here => exact ih h place
      | up => exact ih h place.dropLast
      | name n =>
          rw [makeDirectoriesFrom]
          split
          · exact ih h (place ++ [n])
          · exact h
          · next hnone => exact ih (hput _ _ hnone h) (place ++ [n])

/-- What stays true when a directory is put where nothing is stays true when the directories above a
path are made. -/
theorem makeParent_induction (h : P fs) (p : Path) : P (fs.makeParent p).1 := by
  rw [makeParent]
  split
  · split
    · exact h
    · exact makeDirectoriesFrom_induction hput h _ _
  · exact h

end Directories

theorem content?_makeParent (fs : FileSystem) (p : Path) :
    (fs.makeParent p).1.content? = fs.content? :=
  makeParent_induction (P := fun made => made.content? = fs.content?)
    (fun _ _ hnone h => (content?_put_directory hnone).trans h) rfl p

/-- There is as much room as before when directories are made. -/
theorem room?_makeParent (fs : FileSystem) (p : Path) :
    (fs.makeParent p).1.room? = fs.room? :=
  makeParent_induction (P := fun made => made.room? = fs.room?) (fun _ _ _ h => h) rfl p

/-! ### The place of a changed file -/

theorem follow_append (top : Entry) (place pieces more : List String) :
    follow top place (pieces ++ more) =
      (follow top place pieces).bind fun place => follow top place more := by
  induction pieces generalizing place with
  | nil => rfl
  | cons piece pieces ih =>
      simp only [List.cons_append, follow]
      split
      · split
        · exact ih place
        · split
          · exact ih place.dropLast
          · split
            · exact ih (place ++ [piece])
            · rfl
      · rfl

/-- A way through directories is still there when something is put where no directory is. -/
theorem follow_put {top new : Entry} {names pieces place target : List String}
    (h : ∀ entries, top.at? names ≠ some (.directory entries))
    (hfollow : follow top place pieces = some target) :
    follow (put new names top) place pieces = some target := by
  induction pieces generalizing place with
  | nil => exact hfollow
  | cons piece pieces ih =>
      rw [follow] at hfollow
      split at hfollow
      case h_2 => cases hfollow
      case h_1 entries hat =>
        have hplace : ¬ names <+: place := by
          rintro ⟨more, rfl⟩
          rw [at?_append] at hat
          cases hnames : top.at? names with
          | none => simp [hnames] at hat
          | some found =>
              cases found with
              | directory entries => exact h entries hnames
              | file content => cases more <;> simp [hnames, at?] at hat
        obtain ⟨entries', hat', hnames⟩ := exists_directory_put new hat hplace
        simp only [follow, hat']
        split at hfollow
        · next hstay => rw [if_pos hstay]; exact ih hfollow
        · next hstay =>
            rw [if_neg hstay]
            split at hfollow
            · next hup => rw [if_pos hup]; exact ih hfollow
            · next hup =>
                rw [if_neg hup]
                split at hfollow
                · next hthere => rw [if_pos (hnames _ hthere)]; exact ih hfollow
                · cases hfollow

/-- The place of a file is in a directory that is there, under the last piece of its path. -/
theorem exists_directory_of_filePlace? (h : fs.filePlace? p = some place) :
    ∃ pieces last directory entries, Text.splitOn p.text '/' = pieces ++ [last] ∧
      ¬ (last = "" ∨ last = "." ∨ last = "..") ∧
      follow fs.top (fs.start p) pieces = some directory ∧
      fs.top.at? directory = some (.directory entries) ∧ place = directory ++ [last] := by
  unfold filePlace? at h
  dsimp only at h
  split at h
  case h_1 => cases h
  case h_2 last hlast =>
    obtain ⟨pieces, hpieces⟩ := List.getLast?_eq_some_iff.1 hlast
    rw [hpieces, List.dropLast_concat] at h
    split at h
    · cases h
    · next hname =>
        split at h
        case h_1 => cases h
        case h_2 directory hdirectory =>
          split at h
          case h_2 => cases h
          case h_1 entries hentries =>
            cases h
            exact ⟨pieces, last, directory, entries, hpieces, hname, hdirectory, hentries, rfl⟩

/-- A file that is put where a path leads is found there. -/
theorem place?_putAt (h : fs.filePlace? p = some place)
    (hat : ∀ entries, fs.top.at? place ≠ some (.directory entries)) (content : ByteArray) :
    (fs.putAt place (.file content)).place? p = some place := by
  obtain ⟨pieces, last, directory, entries, hpieces, hname, hfollow, hdirectory, rfl⟩ :=
    exists_directory_of_filePlace? h
  have hempty : p.text ≠ "" := by
    intro hempty
    rw [hempty, show Text.splitOn "" '/' = [] ++ [""] from rfl] at hpieces
    exact hname (.inl (List.singleton_inj.1 (List.append_inj' hpieces rfl).2.symm))
  have hopen := isOpen_concat hdirectory last
  have hplace : ¬ directory ++ [last] <+: directory := by
    intro hprefix
    have hlength := hprefix.length_le
    rw [List.length_append, List.length_singleton] at hlength
    omega
  obtain ⟨entries', hdirectory', -⟩ :=
    exists_directory_put (.file content) hdirectory hplace
  have hlast : (lookup entries' last).isSome = true := by
    have hput : (put (.file content) (directory ++ [last]) fs.top).at? (directory ++ [last]) =
        some (.file content) := at?_put hopen
    rw [at?_append, hdirectory', Option.bind_some, at?] at hput
    cases hl : lookup entries' last with
    | none => simp [hl] at hput
    | some e => rfl
  rw [place?, if_neg hempty, hpieces, follow_append]
  refine Option.bind_eq_some_iff.2 ⟨directory, follow_put hat hfollow, ?_⟩
  simp only [not_or] at hname
  simp [follow, putAt, hdirectory', hname, hlast]

/-! ### What is added to a file -/

variable {content added : ByteArray} {text : String}

/-- The file at a path can be opened where its directory is there and it is none itself. -/
theorem opened?_eq_some_iff :
    fs.opened? p = some (place, content) ↔
      fs.filePlace? p = some place ∧
        (∀ entries, fs.top.at? place ≠ some (.directory entries)) ∧
        content = (fs.content? place).getD ByteArray.empty := by
  unfold opened?
  cases hplace : fs.filePlace? p with
  | none => simp
  | some target =>
      by_cases htarget : target = place
      · subst htarget
        cases hat : fs.top.at? target with
        | none => simp [content?, Entry.content?, hat, eq_comm]
        | some e => cases e <;> simp [content?, Entry.content?, hat, eq_comm]
      · dsimp only
        split <;> simp [htarget]

/-- What is put in the place of an opened file is found at its path, and no other file changes. -/
theorem putAt_of_opened? (h : fs.opened? p = some (place, content)) (new : ByteArray) :
    (fs.putAt place (.file new)).place? p = some place ∧
      (fs.putAt place (.file new)).content? =
        Function.update fs.content? place (some new) := by
  obtain ⟨hplace, hat, -⟩ := opened?_eq_some_iff.1 h
  obtain ⟨-, last, directory, entries, -, -, -, hdirectory, hlast⟩ :=
    exists_directory_of_filePlace? hplace
  have hopen : fs.top.isOpen place = true := hlast ▸ isOpen_concat hdirectory last
  exact ⟨place?_putAt hplace hat _, content?_put_file hopen hat⟩

/-- A file takes all of what is added, or the front that there is room for when it is not enough. -/
theorem taken_cases (fs : FileSystem) (place : List String) (content added : ByteArray) :
    fs.taken place content added = (added, true) ∨
      ∃ room < added.size, fs.room? place content.size = some room ∧
        fs.taken place content added = (added.extract 0 room, false) := by
  unfold taken
  cases hroom : fs.room? place content.size with
  | none => exact .inl rfl
  | some room =>
      rcases Nat.lt_or_ge room added.size with hless | henough
      · exact .inr ⟨room, hless, rfl, by simp [hless]⟩
      · have hall : added.extract 0 room = added :=
          Nat.max_eq_left henough ▸ ByteArray.extract_zero_max_size
        exact .inl (by simp [hall, henough])

theorem append_eq_some_iff {whole : Bool} :
    fs.append p text = some (fs', whole) ↔
      ∃ place content, fs.opened? p = some (place, content) ∧
        fs.putAt place (.file (content ++ (fs.taken place content text.toUTF8).1)) = fs' ∧
        (fs.taken place content text.toUTF8).2 = whole := by
  simp [append]

/-- **A text that was added whole stands behind what its file held**, nothing when it was not there;
the file is found at its path afterwards, and no other file changes. -/
theorem exists_place_of_append (h : fs.append p text = some (fs', true)) :
    ∃ place, fs'.place? p = some place ∧
      fs'.content? = Function.update fs.content? place
        (some ((fs.content? place).getD ByteArray.empty ++ text.toUTF8)) := by
  obtain ⟨place, content, hopened, rfl, hwhole⟩ := append_eq_some_iff.1 h
  obtain ⟨-, -, rfl⟩ := opened?_eq_some_iff.1 hopened
  rcases fs.taken_cases place ((fs.content? place).getD ByteArray.empty) text.toUTF8 with
    htaken | ⟨room, -, -, htaken⟩
  · exact ⟨place, htaken ▸ putAt_of_opened? hopened _⟩
  · rw [htaken] at hwhole
    cases hwhole

/-- **Of a text that was not added whole the front stands behind what its file held**, as much as
there was room for. -/
theorem exists_room_of_append (h : fs.append p text = some (fs', false)) :
    ∃ place room, fs'.place? p = some place ∧ room < text.toUTF8.size ∧
      fs.room? place ((fs.content? place).getD ByteArray.empty).size = some room ∧
      fs'.content? = Function.update fs.content? place
        (some ((fs.content? place).getD ByteArray.empty ++ text.toUTF8.extract 0 room)) := by
  obtain ⟨place, content, hopened, rfl, hwhole⟩ := append_eq_some_iff.1 h
  obtain ⟨-, -, rfl⟩ := opened?_eq_some_iff.1 hopened
  rcases fs.taken_cases place ((fs.content? place).getD ByteArray.empty) text.toUTF8 with
    htaken | ⟨room, hless, hroom, htaken⟩
  · rw [htaken] at hwhole
    cases hwhole
  · obtain ⟨hplace, hcontent⟩ := putAt_of_opened? hopened _
    exact ⟨place, room, hplace, hless, hroom, htaken ▸ hcontent⟩

/-! ### Paths that stay -/

section Stay

variable (h : fs.place? p = some place)
include h

/-- To put something where no directory is leaves the way of a path. -/
theorem place?_putAt_of_place? {other : List String}
    (hat : ∀ entries, fs.top.at? other ≠ some (.directory entries)) (new : Entry) :
    (fs.putAt other new).place? p = some place := by
  unfold place? at h ⊢
  split at h
  · cases h
  · next hne =>
    rw [if_neg hne]
    exact follow_put hat h

theorem place?_makeParent (q : Path) : (fs.makeParent q).1.place? p = some place :=
  makeParent_induction (P := fun made => made.place? p = some place)
    (fun _ _ hnone hplace => place?_putAt_of_place? hplace (by simp [hnone]) _) h q

theorem place?_append {q : Path} {whole : Bool} (happend : fs.append q text = some (fs', whole)) :
    fs'.place? p = some place := by
  obtain ⟨other, content, hopened, rfl, -⟩ := append_eq_some_iff.1 happend
  exact place?_putAt_of_place? h (opened?_eq_some_iff.1 hopened).2.1 _

end Stay
end FileSystem

end Crossref
