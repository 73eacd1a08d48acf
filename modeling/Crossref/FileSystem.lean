import Crossref.Path

/-!
# File systems

A tree of directories and files, and the directory that relative paths start from.  A path is
followed piece by piece as it was written: an empty piece and `.` stay where they are, `..` goes up,
and all of them ask that there is a directory to stand in.  A file may have room for some bytes
only; a text that is added to it is then cut off.

* `at?_put`: what was put somewhere is found there.
* `append_eq_none_of_absent`: nothing is appended to a path whose directory is not there.
-/

namespace Crossref

/-- A file with its bytes, or a directory with what it holds by name. -/
inductive Entry where
  | file (content : ByteArray)
  | directory (entries : List (String × Entry))
  deriving Inhabited

namespace Entry

/-- What a name stands for in a list of entries. -/
def lookup (entries : List (String × Entry)) (name : String) : Option Entry :=
  (entries.find? fun e => e.1 == name).map Prod.snd

/-- Replaces what a name stands for, or adds the name at the end. -/
def replace (name : String) (new : Entry) : List (String × Entry) → List (String × Entry)
  | [] => [(name, new)]
  | (other, e) :: rest =>
    if other == name then (name, new) :: rest else (other, e) :: replace name new rest

theorem lookup_replace (name : String) (new : Entry) (entries : List (String × Entry)) :
    lookup (replace name new entries) name = some new := by
  induction entries with
  | nil => simp [replace, lookup]
  | cons e rest ih =>
    obtain ⟨other, old⟩ := e
    by_cases h : (other == name) = true
    · simp [replace, lookup, h]
    · simpa [replace, lookup, h] using ih

/-- The entry that is reached by the names, one below the other. -/
def at? : Entry → List String → Option Entry
  | e, [] => some e
  | .directory entries, name :: names => (lookup entries name).bind (at? · names)
  | .file _, _ :: _ => none

/-- Puts an entry where the names lead; a missing directory on the way is made, and below a file
nothing can be put. -/
def put (new : Entry) : List String → Entry → Entry
  | [], _ => new
  | _ :: _, .file content => .file content
  | name :: names, .directory entries =>
    .directory
      (replace name (put new names ((lookup entries name).getD (.directory []))) entries)

/-- Only directories stand on the way that the names lead. -/
def isOpen : Entry → List String → Bool
  | _, [] => true
  | .file _, _ :: _ => false
  | .directory entries, name :: names =>
    match lookup entries name with
    | some e => isOpen e names
    | none => true

theorem isOpen_empty (names : List String) : isOpen (.directory []) names = true := by
  cases names <;> simp [isOpen, lookup]

theorem at?_put {new : Entry} {names : List String} {e : Entry} (h : e.isOpen names = true) :
    (put new names e).at? names = some new := by
  induction names generalizing e with
  | nil => cases e <;> rfl
  | cons name names ih =>
    cases e with
    | file content => simp [isOpen] at h
    | directory entries =>
      simp only [put, at?, lookup_replace, Option.bind_some]
      refine ih ?_
      cases hl : lookup entries name with
      | none => exact isOpen_empty names
      | some e' => simpa [isOpen, hl] using h

/-- A name that is left out when directories are searched. -/
def isHidden (name : String) : Bool := Text.startsWith name "."

mutual

/-- The names that lead to each file at or below an entry, hidden names left out. -/
def visible : Entry → List (List String)
  | .file _ => [[]]
  | .directory entries => visibleIn entries

def visibleIn : List (String × Entry) → List (List String)
  | [] => []
  | (name, e) :: rest =>
    (if isHidden name then [] else (visible e).map (name :: ·)) ++ visibleIn rest

end

end Entry

/-- Everything there is, the names that lead to the working directory, and the room for more. -/
structure FileSystem where
  top : Entry
  here : List String
  /-- How many more bytes can be added to the file at a place when it has so many; any number of
  them when nothing is said. -/
  room? : List String → Nat → Option Nat := fun _ _ => none
  deriving Inhabited

namespace FileSystem

/-- An empty file system, but for the working directory. -/
def empty (here : List String) : FileSystem :=
  { top := Entry.put (.directory []) here (.directory []), here }

/-! ### Following a path -/

/-- The place that the pieces of a path lead to. -/
def follow (top : Entry) (place : List String) : List String → Option (List String)
  | [] => some place
  | piece :: pieces =>
    match top.at? place with
    | some (.directory entries) =>
      if piece = "" ∨ piece = "." then follow top place pieces
      else if piece = ".." then follow top place.dropLast pieces
      else if (Entry.lookup entries piece).isSome then follow top (place ++ [piece]) pieces
      else none
    | _ => none

/-- The place where a path starts. -/
def start (fs : FileSystem) (p : Path) : List String := if p.isAbsolute then [] else fs.here

/-- The place of what a path names, when it is there. -/
def place? (fs : FileSystem) (p : Path) : Option (List String) :=
  if p.text = "" then none else follow fs.top (fs.start p) (Text.splitOn p.text '/')

/-- What a path names. -/
def entry? (fs : FileSystem) (p : Path) : Option Entry := (fs.place? p).bind fs.top.at?

/-- There is something at the path. -/
def holds (fs : FileSystem) (p : Path) : Bool := (fs.entry? p).isSome

/-- The path from the top to what a path names, without detours. -/
def canonical? (fs : FileSystem) (p : Path) : Option Path :=
  (fs.place? p).map fun names => ⟨"/" ++ "/".intercalate names⟩

/-- The bytes of the file at a path. -/
def read? (fs : FileSystem) (p : Path) : Option ByteArray :=
  match fs.entry? p with
  | some (.file content) => some content
  | _ => none

/-- The text of the file at a path, when its bytes are the UTF-8 of one. -/
def readText? (fs : FileSystem) (p : Path) : Option String := (fs.read? p).bind String.fromUTF8?

/-! ### Changing files -/

/-- The file system with an entry put at a place. -/
def putAt (fs : FileSystem) (place : List String) (new : Entry) : FileSystem :=
  { fs with top := Entry.put new place fs.top }

/-- Makes the directories that are missing along the components, from the first to the last; `false`
when a file is in the way. -/
def makeDirectoriesFrom (fs : FileSystem) (place : List String) :
    List Path.Component → FileSystem × Bool
  | [] => (fs, true)
  | .root :: rest => makeDirectoriesFrom fs [] rest
  | .here :: rest => makeDirectoriesFrom fs place rest
  | .up :: rest => makeDirectoriesFrom fs place.dropLast rest
  | .name n :: rest =>
    match fs.top.at? (place ++ [n]) with
    | some (.directory _) => makeDirectoriesFrom fs (place ++ [n]) rest
    | some (.file _) => (fs, false)
    | none => makeDirectoriesFrom (fs.putAt (place ++ [n]) (.directory [])) (place ++ [n]) rest

/-- Makes the directory at a path and those above it. -/
def makeDirectories (fs : FileSystem) (p : Path) : FileSystem × Bool :=
  fs.makeDirectoriesFrom fs.here p.components

/-- Makes the directory that the path's last component would stand in. -/
def makeParent (fs : FileSystem) (p : Path) : FileSystem × Bool :=
  match p.parent? with
  | some q => if q.text = "" then (fs, true) else fs.makeDirectories q
  | none => (fs, true)

/-- The place of the file that a path names, there already or yet to be made: its directory must be
there, and the last piece must be a name. -/
def filePlace? (fs : FileSystem) (p : Path) : Option (List String) :=
  let pieces := Text.splitOn p.text '/'
  match pieces.getLast? with
  | none => none
  | some last =>
    if last = "" ∨ last = "." ∨ last = ".." then none
    else
      match follow fs.top (fs.start p) pieces.dropLast with
      | none => none
      | some place =>
        match fs.top.at? place with
        | some (.directory _) => some (place ++ [last])
        | _ => none

/-- The place of the file that a path names, and its bytes; there are none when it is yet to be
made. -/
def opened? (fs : FileSystem) (p : Path) : Option (List String × ByteArray) :=
  match fs.filePlace? p with
  | none => none
  | some place =>
    match fs.top.at? place with
    | some (.directory _) => none
    | some (.file content) => some (place, content)
    | none => some (place, ByteArray.empty)

/-- What there is room for of the bytes that are added to the file at a place; `false` when some are
left. -/
def taken (fs : FileSystem) (place : List String) (content added : ByteArray) : ByteArray × Bool :=
  match fs.room? place content.size with
  | none => (added, true)
  | some room => (added.extract 0 room, decide (added.size ≤ room))

/-- Adds a text to the end of the file at a path, as far as there is room. -/
def append (fs : FileSystem) (p : Path) (text : String) : Option (FileSystem × Bool) :=
  (fs.opened? p).map fun (place, content) =>
    let (taken, whole) := fs.taken place content text.toUTF8
    (fs.putAt place (.file (content ++ taken)), whole)

/-- Writes the bytes of a file, and makes the directories above it. -/
def write (fs : FileSystem) (p : Path) (content : ByteArray) : Option FileSystem :=
  let made := (fs.makeParent p).1
  (made.opened? p).map fun (place, _) => made.putAt place (.file content)

theorem append_eq_none_of_absent {fs : FileSystem} {p : Path} {text : String}
    (h : fs.filePlace? p = none) : fs.append p text = none := by
  simp [append, opened?, h]

end FileSystem

end Crossref
