import Crossref.Indexing
import Crossref.Proofs.Discovery
import Crossref.Proofs.Index.Updates

/-!
# Proofs — indexing — updates during a run in the background

A run in the background reads the files of a project, publishes the index that they make, and then
the project is ready.  What is published takes the place of the whole index.  So of the updates
during the run only those behind the publication are left, although all of them succeed.

The induction is on the events.  It carries, stage by stage, what the index is made of: before the
publication what was read is all that counts, and afterwards every update adds to it.

* `Follows.step`, `Follows.runAll`: what one event preserves, and what a list of them leads to.
* `updates_kept_iff`: which updates a project that is ready holds.
-/

namespace Crossref.Indexing

open Project

/-! ### Events -/

namespace Event

/-- The file that is updated, if one is. -/
def given? : Event → Option ParsedText
  | .advance => none
  | .update given => some given

/-- How many stages the run goes on by. -/
def stages : Event → Nat
  | .advance => 1
  | .update _ => 0

end Event

/-- The files that are updated, in their order. -/
def given (events : List Event) : List ParsedText := events.filterMap Event.given?

/-- The events behind the next `n` stages of a run. -/
def behind : Nat → List Event → List Event
  | 0, events => events
  | _ + 1, [] => []
  | n + 1, e :: events => behind (n + 1 - e.stages) events

theorem behind_suffix (n : Nat) (events : List Event) : behind n events <:+ events := by
  induction events generalizing n with
  | nil => cases n <;> exact List.suffix_refl []
  | cons e events ih =>
      cases n with
      | zero => exact List.suffix_refl _
      | succ n => exact (ih _).trans (List.suffix_cons e events)

/-- How many stages a run has to go until its index is published. -/
def Stage.unpublished : Stage → Nat
  | .begun => 2
  | .collected _ => 1
  | .published | .finished => 0

/-! ### What a run holds -/

section Run

/-- The run has come from the files that it reads: before the publication nothing else counts, and
afterwards the index is what `seen` tells, the files and the updates behind the publication. -/
inductive Follows (root : Path) (config : Config) (files : List ParsedText) :
    List ParsedText → Indexing → Prop
  | begun {p : Project} (hroot : p.root = root) (hconfig : p.config = config)
      (hstate : p.isReady = false) : Follows root config files files ⟨p, .begun⟩
  | collected {p : Project} (hroot : p.root = root) (hconfig : p.config = config)
      (hstate : p.isReady = false) :
      Follows root config files files ⟨p, .collected (indexOf root config files)⟩
  | published {p : Project} {seen : List ParsedText} (h : Carried root config seen p)
      (hstate : p.isReady = false) : Follows root config files seen ⟨p, .published⟩
  | finished {p : Project} {seen : List ParsedText} (h : Carried root config seen p) :
      Follows root config files seen ⟨p, .finished⟩

variable {root : Path} {config : Config} {files seen : List ParsedText} {run : Indexing}
  {p : Project}

/-- An update changes nothing but the index. -/
theorem exists_index_attempt (p : Project) (given : ParsedText) :
    ∃ index, p.attempt given = { p with index := index } := by
  cases h : Language.ofPath? given.path with
  | none => exact ⟨p.index, attempt_of_none h⟩
  | some language => exact ⟨_, attempt_of_language h⟩

theorem update_eq (run : Indexing) (given : ParsedText) :
    run.update given = ⟨run.project.attempt given, run.stage⟩ := by
  unfold update Project.attempt
  cases run.project.update given <;> rfl

theorem unpublished_step (files : List ParsedText) (run : Indexing) (e : Event) :
    (run.step files e).stage.unpublished = run.stage.unpublished - e.stages := by
  cases e with
  | update given => rw [step, update_eq]; rfl
  | advance => obtain ⟨p, _ | _ | _ | _⟩ := run <;> rfl

/-- The files that are updated behind the publication, when one event more comes first. -/
theorem given_behind_cons (n : Nat) (e : Event) (events : List Event) :
    given (behind n (e :: events)) =
      (if n = 0 then e.given?.toList else []) ++ given (behind (n - e.stages) events) := by
  cases n with
  | zero => cases e <;> simp [behind, given, Event.given?, List.filterMap_cons]
  | succ n => simp [behind]

namespace Follows

theorem advance (h : Follows root config files seen run)
    (hpaths : files.Pairwise fun a b => ¬ a.path.Same b.path) :
    Follows root config files seen (run.advance files) := by
  cases h with
  | begun hroot hconfig hstate =>
      subst hroot hconfig
      exact .collected rfl rfl (by simp [isReady])
  | collected hroot hconfig hstate =>
      refine .published ?_ hstate
      exact { carried_ofSources hpaths with atRoot := hroot, settings := hconfig }
  | published h hstate => exact .finished { h with }
  | finished h => exact .finished h

theorem update (h : Follows root config files seen run) (g : ParsedText) :
    Follows root config files (seen ++ if run.stage.unpublished = 0 then [g] else [])
      (run.update g) := by
  obtain ⟨index, hindex⟩ := exists_index_attempt run.project g
  rw [update_eq]
  cases h with
  | begun hroot hconfig hstate =>
      rw [hindex]
      exact (List.append_nil files).symm ▸ .begun hroot hconfig hstate
  | collected hroot hconfig hstate =>
      rw [hindex]
      exact (List.append_nil files).symm ▸ .collected hroot hconfig hstate
  | published h hstate =>
      refine .published (h.attempt g) ?_
      rw [hindex]
      exact hstate
  | finished h => exact .finished (h.attempt g)

/-- One event of a run: an update counts when the index has been published. -/
theorem step (h : Follows root config files seen run)
    (hpaths : files.Pairwise fun a b => ¬ a.path.Same b.path) (e : Event) :
    Follows root config files
      (seen ++ if run.stage.unpublished = 0 then e.given?.toList else []) (run.step files e) := by
  cases e with
  | update g => exact h.update g
  | advance =>
      simp only [Event.given?, Option.toList_none, ite_self, List.append_nil]
      exact h.advance hpaths

/-- **What a run comes to**: the files that were read, and the updates behind the publication. -/
theorem runAll (h : Follows root config files seen run)
    (hpaths : files.Pairwise fun a b => ¬ a.path.Same b.path) (events : List Event) :
    Follows root config files (seen ++ given (behind run.stage.unpublished events))
      (runAll files run events) := by
  induction events generalizing seen run with
  | nil =>
      have hnone : behind run.stage.unpublished [] = [] := by
        cases run.stage.unpublished <;> rfl
      rw [hnone]
      exact (List.append_nil seen).symm ▸ h
  | cons e events ih =>
      rw [given_behind_cons, ← List.append_assoc, ← unpublished_step files]
      exact ih (h.step hpaths e)

/-- A project that is ready holds what was carried to the end. -/
theorem carried_of_isReady (h : Follows root config files seen run)
    (hready : run.project.isReady = true) : Carried root config seen run.project := by
  cases h with
  | begun _ _ hstate | collected _ _ hstate | published _ hstate =>
      rw [hstate] at hready
      cases hready
  | finished h => exact h

end Follows

theorem follows_begin (p : Project) (files : List ParsedText) :
    Follows p.root p.config files files (begin p) := .begun rfl rfl (by simp [isReady])

/-- **What a project holds that is ready** after a run in the background: the files that were read
and the updates behind the publication. -/
theorem mirrors_of_isReady {events : List Event}
    (hpaths : files.Pairwise fun a b => ¬ a.path.Same b.path)
    (hready : (Indexing.runAll files (begin p) events).project.isReady = true) :
    Mirrors p.root p.config (files ++ given (behind 2 events))
      (Indexing.runAll files (begin p) events).project :=
  (((follows_begin p files).runAll hpaths events).carried_of_isReady hready).mirrors

/-! ### What is left of an update -/

/-- An update behind a place is still the last one of its path when the events before it count,
too. -/
theorem latest?_given_of_behind {n : Nat} {events : List Event} {path : Path} {g : ParsedText}
    (h : latest? (given (behind n events)) path = some g) :
    latest? (given events) path = some g := by
  obtain ⟨before, hbefore⟩ := (behind_suffix n events).filterMap Event.given?
  rw [given] at h ⊢
  rw [← hbefore, latest?_append, h, Option.some_or]

end Run

/-- **Which updates outlast a run in the background.**  A run is begun, and in any interleaving with
its stages files are updated.  When the project is ready it holds, in every respect, the files that
were read and then the updates behind the publication.  So the text of the last update of a path is
there exactly when the path was updated behind the publication, or the file that was read at the
path had the same text anyway: every other update is lost, although it succeeded. -/
theorem updates_kept_iff (fs : FileSystem) (parse : Path → String → Tree) (p : Project)
    (events : List Event) :
    let files := Discovery.sources fs parse p.config p.root
    let q := (runAll files (begin p) events).project
    q.isReady = true →
      Mirrors p.root p.config (files ++ given (behind 2 events)) q ∧
      ∀ path g, latest? (given events) path = some g →
        ((q.index.fileForPath? path).map (·.text) = some g.text ↔
          (∃ again ∈ sources (given (behind 2 events)), again.path.Same path) ∨
          ∃ found ∈ sources files, found.path.Same path ∧ found.text = g.text) := by
  intro files q hready
  have hpaths := Discovery.pairwise_sources fs parse p.config p.root
  have hmirrors := mirrors_of_isReady hpaths hready
  refine ⟨hmirrors, fun path g hlast => ?_⟩
  rw [hmirrors.text, latest?_append]
  cases hbehind : latest? (given (behind 2 events)) path with
  | some again =>
      -- the path was updated behind the publication, and by that update last
      obtain rfl : again = g :=
        Option.some.inj ((latest?_given_of_behind hbehind).symm.trans hlast)
      exact iff_of_true rfl (.inl ⟨again, of_latest? hbehind⟩)
  | none =>
      have hnone : ¬ ∃ again ∈ sources (given (behind 2 events)), again.path.Same path :=
        fun ⟨again, hagain, hsame⟩ => latest?_eq_none_iff.1 hbehind again hagain hsame
      rw [or_iff_right hnone, Option.none_or, Option.map_eq_some_iff]
      simp only [latest?_eq_some_iff hpaths, and_assoc, files]

/-! ### Updates that a run overtakes -/

namespace Overtaken

/-- The tree of a function whose name is a letter, whose value is a digit and which takes
nothing. -/
def tree : Tree :=
  .named "source_file" 0 11
    [.named "function_declaration" 0 11
      [.token "fun" 0 3, .named "simple_identifier" 4 5 [],
       .named "function_value_parameters" 5 7 [.token "(" 5 6, .token ")" 6 7],
       .named "function_body" 8 11 [.token "=" 8 9, .named "integer_literal" 10 11 []]]]

def file (path text : String) : ParsedText := ⟨⟨path⟩, text, tree⟩

def disk : FileSystem where
  top := .directory [("p", .directory [("a.kt", .file "fun a() = 1".toUTF8)])]
  here := []

/-- A project of which nothing has been read. -/
def unread : Project := .pending ⟨"/p"⟩ {}

/-- What is read of the disk. -/
def files : List ParsedText := Discovery.sources disk (fun _ _ => tree) unread.config unread.root

def edited : ParsedText := file "/p/a.kt" "fun a() = 2"

def added : ParsedText := file "/p/b.kt" "fun b() = 3"

theorem files_eq : files = [file "/p/a.kt" "fun a() = 1"] := by
  have hfind : Discovery.find disk unread.config unread.root = [⟨⟨"/p/a.kt"⟩, .kotlin⟩] := by
    decide +kernel
  have htext : disk.readText? ⟨"/p/a.kt"⟩ = some "fun a() = 1" := by decide +kernel
  simp [files, Discovery.sources, Discovery.texts, hfind, htext, file]

end Overtaken

open Overtaken in
/-- Of two updates, one before the reading and one behind the publication, the second is kept. -/
theorem updates_kept_iff_overtaken :
    let events := [.update edited, .advance, .advance, .update added, .advance]
    let q := (runAll files (begin unread) events).project
    q.isReady = true ∧ (q.index.fileForPath? ⟨"/p/a.kt"⟩).map (·.text) ≠ some "fun a() = 2" ∧
      (q.index.fileForPath? ⟨"/p/b.kt"⟩).map (·.text) = some "fun b() = 3" := by
  intro events q
  have hready : q.isReady = true := by rfl
  obtain ⟨-, hkept⟩ := updates_kept_iff disk (fun _ _ => tree) unread events hready
  have hbehind : sources (given (behind 2 events)) = [added] := rfl
  refine ⟨hready, fun htext => ?_, (hkept ⟨"/p/b.kt"⟩ added rfl).2 (.inl ⟨added, ?_, rfl⟩)⟩
  · rcases (hkept ⟨"/p/a.kt"⟩ edited rfl).1 htext with
      ⟨again, hagain, hsame⟩ | ⟨found, hfound, -, hsame⟩
    · obtain rfl := List.mem_singleton.1 (hbehind ▸ hagain)
      exact absurd hsame (by decide)
    · have hfiles : sources files = [file "/p/a.kt" "fun a() = 1"] := by rw [files_eq]; rfl
      obtain rfl := List.mem_singleton.1 (hfiles ▸ hfound)
      exact absurd hsame (by decide)
  · exact hbehind ▸ List.mem_singleton_self added

open Overtaken in
/-- A file is edited before the reading, and one is added between the reading and the publication:
neither is left. -/
theorem updates_lost_overtaken :
    let events := [.update edited, .advance, .update added, .advance, .advance]
    let q := (runAll files (begin unread) events).project
    q.isReady = true ∧
      latest? (given events) ⟨"/p/a.kt"⟩ = some edited ∧
      (q.index.fileForPath? ⟨"/p/a.kt"⟩).map (·.text) = some "fun a() = 1" ∧
      latest? (given events) ⟨"/p/b.kt"⟩ = some added ∧
      q.index.fileForPath? ⟨"/p/b.kt"⟩ = none := by
  intro events q
  have hready : q.isReady = true := by rfl
  have hmirrors : Mirrors unread.root unread.config (files ++ given (behind 2 events)) q :=
    mirrors_of_isReady (Discovery.pairwise_sources disk _ _ _) hready
  rw [files_eq] at hmirrors
  exact ⟨hready, rfl, hmirrors.text _, rfl, hmirrors.missing _ rfl⟩

end Crossref.Indexing
