import Crossref.Project
import Crossref.Usage.Aggregate
import Crossref.Usage.Collect

/-!
# Payloads

The result of looking at one declaration: the declaration with the head of its file, and every
declaration that it uses with the ways it is used in.

* `build_of_cancelled`: a run that is cancelled at its end has no payload.
* `extract_of_not_ready`: before the index is ready the payload holds only a warning.
-/

namespace Crossref

/-- The declaration that was looked at, and the head of its file. -/
structure Payload.Target where
  packageDirective : Option String
  imports : List String
  slice : Slice
  deriving DecidableEq, Inhabited

/-- What one extraction finds. -/
structure Payload where
  target : Option Payload.Target
  referencedSymbols : List Usage.Referenced
  warning : Option String
  deriving DecidableEq, Inhabited

/-- The settings of one extraction. -/
structure ExtractOptions where
  maxUsages : Nat := 1000
  includeLocalReads : Bool := false
  projectOnly : Bool := false
  cancelCheckInterval : Nat := 64
  deriving DecidableEq, Inhabited

/-- The settings that a configuration asks for. -/
def ExtractOptions.ofConfig (c : Config) : ExtractOptions where
  maxUsages := c.collector.maxUsages
  includeLocalReads := c.collector.includeLocalReads
  projectOnly := c.aggregation.projectOnly
  cancelCheckInterval := c.collector.cancelCheckInterval

/-- A cancellation flag in a world that moves on at every question of a run. -/
structure Token (σ : Type) where
  cancelled : σ → Bool
  tick : σ → σ

/-- A flag that never changes. -/
def Token.fixed (cancelled : Bool) : Token Unit := ⟨fun _ => cancelled, id⟩

namespace Payload

/-- The payload of a run that could not start. -/
def ofWarning (text : String) : Payload := ⟨none, [], some text⟩

/-- The origin of a declaration: that of the first symbol it introduces, or else its file's. -/
def originAt (index : Index) (f : SourceFile) (key : DeclKey) : Origin :=
  match index.symbolsAt key with
  | s :: _ => s.origin
  | [] => f.origin

/-- The payload of the declaration at a node, from the usages in it. -/
def ofUsages (index : Index) (f : SourceFile) (n : Node) (projectOnly : Bool)
    (usages : List Usage) : Payload where
  target := some
    { packageDirective := f.package.map ("package " ++ ·)
      imports := f.imports.map fun i => "import " ++ i.render
      slice := Slice.ofNode index f n (originAt index f (f.keyOf n)) }
  referencedSymbols :=
    Usage.aggregate index { projectOnly := projectOnly, excluding := some (f.keyOf n) } usages
  warning := none

/-- The payload of the declaration at a node. -/
def build {σ : Type} (index : Index) (f : SourceFile) (n : Node) (options : ExtractOptions)
    (token : Token σ) : StateM σ (Except ExtractError Payload) := fun s =>
  let session := Session.ofAnswers f (.ofIndex index f) token.tick
  let limits : Usage.Limits := ⟨options.maxUsages, options.includeLocalReads⟩
  match Usage.collect session limits ⟨token.cancelled, options.cancelCheckInterval⟩ n s with
  | (.error e, s') => (.error e, s')
  | (.ok usages, s') =>
    if token.cancelled s' then (.error .cancelled, s')
    else (.ok (ofUsages index f n options.projectOnly usages), s')

theorem build_of_cancelled {σ : Type} {index : Index} {f : SourceFile} {n : Node}
    {options : ExtractOptions} {token : Token σ} {s : σ}
    (h : token.cancelled (build index f n options token s).2 = true) :
    ∃ e, (build index f n options token s).1 = .error e := by
  revert h
  unfold build
  dsimp only
  split
  · exact fun _ => ⟨_, rfl⟩
  · next s' _ =>
    intro h
    by_cases hs : token.cancelled s' = true
    · simp [hs]
    · simp [hs] at h

/-- What is shown in place of a payload while the index is not ready. -/
def notReadyWarning : String := "Project index is not ready; no symbols were analyzed"

/-- The payload of the declaration at the character numbered `offset` of a project's file. -/
def extract {σ : Type} (p : Project) (path : Path) (offset : Nat) (options : ExtractOptions)
    (token : Token σ) : StateM σ (Except ExtractError Payload) := fun s =>
  if Language.ofPath? path ≠ some .kotlin then (.error (.unsupportedLanguage path), s)
  else if p.isReady = false then (.ok (ofWarning notReadyWarning), s)
  else
    match p.index.fileForPath? path with
    | none => (.error (.fileNotIndexed path), s)
    | some f =>
      match Text.byteOffset? f.text offset with
      | none => (.error (.caretOutOfRange offset f.text.toList.length), s)
      | some b =>
        match f.declarationAt? b with
        | none => (.error .noDeclarationAtCaret, s)
        | some n => build p.index f n options token s

theorem extract_of_not_ready {σ : Type} {p : Project} {path : Path} {offset : Nat}
    {options : ExtractOptions} {token : Token σ} {s : σ}
    (hl : Language.ofPath? path = some .kotlin) (hp : p.isReady = false) :
    extract p path offset options token s = (.ok (ofWarning notReadyWarning), s) := by
  simp [extract, hl, hp]

end Payload

end Crossref
