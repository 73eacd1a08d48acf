import Crossref.Report.Json
import Crossref.Report.Text

/-!
# Formats of reports

The formats that a report can be written in, by name.

* `ofName?_eq_error_iff`: a name is refused exactly when it is none of the two, in any case.
-/

namespace Crossref.Report

/-- How a report is written. -/
inductive Format where
  | text
  | json
  deriving DecidableEq, Inhabited

/-- A format that is not known, by its name in lower case. -/
structure FormatError where
  name : String
  deriving DecidableEq, Inhabited

def FormatError.message (e : FormatError) : String :=
  "Unknown report format '" ++ e.name ++ "' (expected text or json)"

namespace Format

/-- The format with a name; the letters `A` to `Z` count as lower-case. -/
def ofName? (name : String) : Except FormatError Format :=
  let lower := Text.asciiLower name
  if lower = "text" then .ok .text
  else if lower = "json" then .ok .json
  else .error ⟨lower⟩

theorem ofName?_eq_error_iff {name : String} :
    (∃ e, ofName? name = .error e) ↔
      Text.asciiLower name ≠ "text" ∧ Text.asciiLower name ≠ "json" := by
  unfold ofName?
  dsimp only
  split
  · next h => simp [h]
  · split
    · next h => simp [h]
    · next h₁ h₂ => exact ⟨fun _ => ⟨h₁, h₂⟩, fun _ => ⟨_, rfl⟩⟩

end Format

/-- The report of a payload in a format. -/
def render (format : Format) (p : Payload) : String :=
  match format with
  | .text => Text.render p
  | .json => Json.render p

end Crossref.Report
