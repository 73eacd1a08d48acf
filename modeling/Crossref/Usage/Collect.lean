import Crossref.ExtractError
import Crossref.Usage.Record

/-!
# Usages: collecting

A run over the itinerary of a declaration.  It keeps the usages that pass the filter until the cap
is reached, and looks for cancellation before the first visit, at every visit whose number the
interval divides, and after the last one.

* `extend_length_le`: no more usages than the cap allows are kept.
* `collect_of_cancelled`: a run that was cancelled before it starts collects nothing.
-/

namespace Crossref.Usage

/-- How much a run keeps. -/
structure Limits where
  /-- The greatest number of usages. -/
  cap : Nat
  /-- Reads of locals, parameters and constructor properties are kept. -/
  keepLocalReads : Bool
  deriving DecidableEq, Inhabited

/-- The usage passes the filter. -/
def Limits.keeps (l : Limits) (u : Usage) : Bool := l.keepLocalReads || !u.isLowSignal

/-- How a run learns that it was cancelled. -/
structure Watch (σ : Type) where
  cancelled : σ → Bool
  /-- The number of visits between two looks; zero counts as one. -/
  interval : Nat

/-- The watch of a run that nobody can cancel. -/
def Watch.none {σ : Type} : Watch σ := ⟨fun _ => false, 1⟩

/-- It is time to look at the visit with this number. -/
def Watch.isDue {σ : Type} (w : Watch σ) (visit : Nat) : Bool := visit % max w.interval 1 == 0

/-- The usages kept so far, and those of the new ones that pass the filter and still fit. -/
def extend (l : Limits) (kept new : List Usage) : List Usage :=
  kept ++ (new.filter l.keeps).take (l.cap - kept.length)

theorem extend_length_le {l : Limits} {kept new : List Usage} (h : kept.length ≤ l.cap) :
    (extend l kept new).length ≤ l.cap := by
  simp only [extend, List.length_append, List.length_take]
  omega

variable {σ : Type}

/-- The usages kept after the remaining visits, or nothing when the run is found cancelled; a full
run makes no more visits. -/
def run (session : Session σ) (l : Limits) (w : Watch σ) :
    List Visit → Nat → List Usage → StateM σ (Option (List Usage))
  | [], _, kept => pure (some kept)
  | v :: vs, visited, kept =>
    if l.cap ≤ kept.length then pure (some kept)
    else fun s =>
      if w.isDue (visited + 1) && w.cancelled s then (none, s)
      else
        let (new, s') := record session v s
        run session l w vs (visited + 1) (extend l kept new) s'

/-- The usages in the declaration at a node, in the order of the itinerary. -/
def collect (session : Session σ) (l : Limits) (w : Watch σ) (n : Node) :
    StateM σ (Except ExtractError (List Usage)) := fun s =>
  if w.cancelled s then (.error .cancelled, s)
  else
    match run session l w (itinerary n) 0 [] s with
    | (none, s') => (.error .cancelled, s')
    | (some kept, s') => if w.cancelled s' then (.error .cancelled, s') else (.ok kept, s')

theorem collect_of_cancelled {session : Session σ} {l : Limits} {w : Watch σ} {n : Node} {s : σ}
    (h : w.cancelled s = true) : collect session l w n s = (.error .cancelled, s) := by
  simp [collect, h]

end Crossref.Usage
