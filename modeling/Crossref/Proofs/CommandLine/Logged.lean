import Crossref.CommandLine
import Crossref.Proofs.FileSystem

/-!
# Reports and their log

A report is added to its log before it is printed, whole and with nothing around it, since every
report ends its last line itself.  Where no report is made, or the log cannot be opened, no file
changes; at most the directories above the log are made.  A report that cannot be written to its
end is not taken back: its front stays in the log, and nothing is printed.

* `Report.asLines_render`: nothing is added to a report for the log.
* `Report.exists_place_of_emit`: an emitted report stands at the end of its log.
* `Report.emit_eq_error`: what a report that cannot be emitted leaves in its log.
* `report_and_log_agree`: a use of the program changes its log and prints, or does neither, unless
  the log has no room for all of the report.
-/

namespace Crossref.Report

theorem Text.render_getLast? (p : Payload) : (Text.render p).toList.getLast? = some '\n' := by
  rw [Text.render, Text.pieces, String.toList_join]
  simp [Text.line_endsLine]

/-- **A report ends in a line feed**, in every format. -/
theorem render_getLast? (format : Format) (p : Payload) :
    (render format p).toList.getLast? = some '\n' := by
  cases format with
  | text => exact Text.render_getLast? p
  | json => simp [render, Json.render]

theorem asLines_render (format : Format) (p : Payload) :
    asLines (render format p) = render format p := by
  rw [asLines, if_pos]
  rw [Crossref.Text.endsWithChar, render_getLast?, beq_self_eq_true]

/-! ### The log -/

variable {fs fs' : FileSystem} {format : Format} {path : Path} {log : Option Path} {p : Payload}

/-- Only the front of a text was added to the log at a path, as much as there was room for; no other
file is changed. -/
def CutOff (fs fs' : FileSystem) (path : Path) (text : String) : Prop :=
  ∃ place room, fs'.place? path = some place ∧ room < text.toUTF8.size ∧
    fs.room? place ((fs.content? place).getD ByteArray.empty).size = some room ∧
    fs'.content? = Function.update fs.content? place
      (some ((fs.content? place).getD ByteArray.empty ++ text.toUTF8.extract 0 room))

/-- A text is added to a log behind the making of the directories above. -/
theorem appendLog_eq_ok_iff {text : String} :
    appendLog fs path text = (fs', .ok ()) ↔
      ∃ made, fs.makeParent path = (made, true) ∧
        made.append path (asLines text) = some (fs', true) := by
  unfold appendLog
  rcases fs.makeParent path with ⟨made, _ | _⟩
  · simp
  · rcases happend : made.append path (asLines text) with _ | ⟨added, _ | _⟩ <;> simp [happend]

/-- When a text cannot be added to a log, no file changes or the text is cut off. -/
theorem appendLog_error {text : String} {e : LogError}
    (h : appendLog fs path text = (fs', .error e)) :
    fs'.content? = fs.content? ∨ e = .unwritten path ∧ CutOff fs fs' path (asLines text) := by
  have hcontent := fs.content?_makeParent path
  have hroom := fs.room?_makeParent path
  unfold appendLog at h
  rcases hmade : fs.makeParent path with ⟨made, _ | _⟩ <;>
    simp only [hmade] at h hcontent hroom
  · exact .inl ((Prod.mk.inj h).1 ▸ hcontent)
  · rcases happend : made.append path (asLines text) with _ | ⟨added, _ | _⟩ <;>
      simp only [happend, Prod.mk.injEq, reduceCtorEq, and_false, Except.error.injEq] at h
    · exact .inl (h.1 ▸ hcontent)
    · obtain ⟨rfl, rfl⟩ := h
      have hcut := FileSystem.exists_room_of_append happend
      rw [hcontent, hroom] at hcut
      exact .inr ⟨rfl, hcut⟩

theorem emit_eq_error {e : LogError} (h : emit fs format log p = (fs', .error e)) :
    fs'.content? = fs.content? ∨
      ∃ path, log = some path ∧ e = .unwritten path ∧
        CutOff fs fs' path (render format p) := by
  unfold emit at h
  cases log with
  | none => simp at h
  | some path =>
      rcases happend : appendLog fs path (render format p) with ⟨added, failure | done⟩
      · simp only [happend, Prod.mk.injEq, Except.error.injEq] at h
        obtain ⟨rfl, rfl⟩ := h
        refine (appendLog_error happend).imp_right fun hcut => ⟨path, rfl, ?_⟩
        rwa [asLines_render] at hcut
      · simp [happend] at h

/-- A report is added to its log behind the making of the directories above. -/
theorem exists_append_of_emit {report : String}
    (h : emit fs format (some path) p = (fs', .ok report)) :
    ∃ made, fs.makeParent path = (made, true) ∧
      made.append path (render format p) = some (fs', true) := by
  unfold emit at h
  rcases happend : appendLog fs path (render format p) with ⟨added, failure | done⟩
  · simp [happend] at h
  · simp only [happend, Prod.mk.injEq] at h
    rw [h.1, appendLog_eq_ok_iff, asLines_render] at happend
    exact happend

/-- The bytes of a log are followed by those of the report that was emitted. -/
theorem exists_place_of_emit {report : String}
    (h : emit fs format (some path) p = (fs', .ok report)) :
    ∃ place, fs'.place? path = some place ∧
      fs'.content? = Function.update fs.content? place
        (some ((fs.content? place).getD ByteArray.empty ++ (render format p).toUTF8)) := by
  obtain ⟨made, hmade, happend⟩ := exists_append_of_emit h
  have hcontent := fs.content?_makeParent path
  rw [hmade] at hcontent
  exact hcontent ▸ FileSystem.exists_place_of_append happend

end Crossref.Report

namespace Crossref.CommandLine

variable {fs : FileSystem} {arguments : List String}
  {find : Plan → Except ExtractError Payload}

/-! ### Any result of an extraction -/

/-- The outcome of a plan whose extraction came to a result. -/
def conclude (fs : FileSystem) (plan : Plan) : Except ExtractError Payload → Outcome
  | .ok p => deliver fs plan p
  | .error .cancelled => .plain 0 "" "" fs
  | .error e => .plain 0 (if plan.notes then e.message ++ "\n" else "") "" fs

/-- The outcome of the program with the given arguments, when the extraction that a plan asks for
comes to what is given: the index may be ready in time or not. -/
def respondWith (find : Plan → Except ExtractError Payload) (fs : FileSystem)
    (arguments : List String) : Outcome :=
  match read arguments with
  | .error e => .plain 2 "" ("error: " ++ e.message ++ "\n") fs
  | .ok .help => .plain 0 helpText "" fs
  | .ok .version => .plain 0 versionText "" fs
  | .ok (.report i) =>
    match plan fs i with
    | .ok plan => conclude fs plan (find plan)
    | .error e => .plain 1 "" (e.message ++ "\n") fs

theorem respond_eq (fs : FileSystem) (parse : Path → String → Tree) (arguments : List String) :
    respond fs parse arguments = respondWith (extract fs parse) fs arguments := by
  have hexecute (plan : Plan) :
      execute fs parse plan = conclude fs plan (extract fs parse plan) := by
    unfold execute
    rcases extract fs parse plan with e | p
    · cases e <;> rfl
    · rfl
  unfold respond respondWith
  rcases read arguments with e | request
  · rfl
  · cases request with
    | help => rfl
    | version => rfl
    | report i =>
        simp only [run]
        rcases plan fs i with e | plan
        · rfl
        · exact hexecute plan

/-! ### Plans -/

/-- The arguments come to a plan. -/
def Planned (fs : FileSystem) (arguments : List String) (plan : Plan) : Prop :=
  ∃ i, read arguments = .ok (.report i) ∧ CommandLine.plan fs i = .ok plan

theorem Planned.respondWith_eq {plan : Plan} (h : Planned fs arguments plan) :
    respondWith find fs arguments = conclude fs plan (find plan) := by
  obtain ⟨i, hread, hplan⟩ := h
  simp only [respondWith, hread, hplan]

/-- Without a plan no extraction is asked for. -/
theorem respondWith_of_unplanned (find : Plan → Except ExtractError Payload)
    (h : ∀ plan, ¬ Planned fs arguments plan) :
    ∃ code printed remark, respondWith find fs arguments = .plain code printed remark fs := by
  unfold respondWith
  rcases hread : read arguments with e | request
  · exact ⟨_, _, _, rfl⟩
  · cases request with
    | help => exact ⟨_, _, _, rfl⟩
    | version => exact ⟨_, _, _, rfl⟩
    | report i =>
        rcases hplan : plan fs i with e | plan
        · simp only [hplan]
          exact ⟨_, _, _, rfl⟩
        · exact absurd ⟨i, hread, hplan⟩ (h plan)

/-- What succeeds in steps succeeds in each of them. -/
theorem exists_of_bind_eq_ok {ε α β : Type} {x : Except ε α} {f : α → Except ε β} {b : β}
    (h : x >>= f = .ok b) : ∃ a, x = .ok a ∧ f a = .ok b := by
  cases x with
  | error e => cases h
  | ok a => exact ⟨a, rfl, h⟩

theorem plan_log {i : Invocation} {p : Plan} (h : plan fs i = .ok p) :
    p.log = if i.has .noLog then none else some (p.root.join p.config.report.logFile) := by
  obtain ⟨root, -, h⟩ := exists_of_bind_eq_ok h
  obtain ⟨config, -, h⟩ := exists_of_bind_eq_ok h
  obtain ⟨file, -, h⟩ := exists_of_bind_eq_ok h
  obtain ⟨offset, -, h⟩ := exists_of_bind_eq_ok h
  obtain ⟨format, -, h⟩ := exists_of_bind_eq_ok h
  cases h
  rfl

/-- Where no log is wanted the plan has none. -/
theorem Planned.log_eq_none {p : Plan} {i : Invocation}
    (h : Planned fs arguments p) (hread : read arguments = .ok (.report i))
    (hlog : i.has .noLog = true) : p.log = none := by
  obtain ⟨j, hj, hplan⟩ := h
  obtain rfl : i = j := by
    rw [hread] at hj
    cases hj
    rfl
  rw [plan_log hplan, hlog, if_pos rfl]

/-! ### What a use leaves behind -/

namespace Outcome

/-- No file is changed, and nothing is added to a log. -/
structure Keeps (o : Outcome) (fs : FileSystem) : Prop where
  content : o.files.content? = fs.content?
  logged : o.logged = none

/-- The log at a path, and no other file, is changed: its bytes are followed by those of a text. -/
structure AddsTo (o : Outcome) (fs : FileSystem) (log : Path) (text : String) : Prop where
  content : ∃ place, o.files.place? log = some place ∧
    o.files.content? = Function.update fs.content? place
      (some ((fs.content? place).getD ByteArray.empty ++ text.toUTF8))
  logged : o.logged = some (log, text)

/-- The use fails when there is no room in the log at a path for all of a text: the front of the
text follows the bytes of the log, nothing is printed, and no other file is changed. -/
structure CutsOff (o : Outcome) (fs : FileSystem) (log : Path) (text : String) : Prop where
  content : Report.CutOff fs o.files log text
  code : o.code = 1
  printed : o.printed = ""
  remark : o.remark = "Failed to write log file " ++ log.text ++ "\n"
  logged : o.logged = none

theorem keeps_plain (code : Nat) (printed remark : String) (fs : FileSystem) :
    (plain code printed remark fs).Keeps fs := ⟨rfl, rfl⟩

end Outcome

/-- A report that is made is added to its log and then printed, if it is to be printed; or the use
fails and prints nothing, and no file is changed or the log holds the front of the report. -/
theorem deliver_cases (fs : FileSystem) (plan : Plan) (p : Payload) :
    ((deliver fs plan p).code = 1 ∧ (deliver fs plan p).printed = "" ∧
      ((deliver fs plan p).Keeps fs ∨ ∃ log, plan.log = some log ∧
        (deliver fs plan p).CutsOff fs log (Report.render plan.format p))) ∨
    ((deliver fs plan p).code = 0 ∧
      (deliver fs plan p).printed = (if plan.echo then Report.render plan.format p else "") ∧
      (plan.log = none → (deliver fs plan p).Keeps fs) ∧
      ∀ log, plan.log = some log →
        (deliver fs plan p).AddsTo fs log (Report.render plan.format p)) := by
  unfold deliver
  rcases hemit : Report.emit fs plan.format plan.log p with ⟨fs', e | report⟩
  · refine .inl ⟨rfl, rfl, ?_⟩
    rcases Report.emit_eq_error hemit with hkept | ⟨log, hlog, rfl, hcut⟩
    · exact .inl ⟨hkept, rfl⟩
    · exact .inr ⟨log, hlog, hcut, rfl, rfl, rfl, rfl⟩
  · obtain rfl := Report.emit_eq_ok hemit
    refine .inr ⟨rfl, rfl, ?_, ?_⟩
    · intro hlog
      rw [hlog, Report.emit_without_log] at hemit
      cases hemit
      exact ⟨rfl, by simp [hlog]⟩
    · intro log hlog
      rw [hlog] at hemit
      exact ⟨Report.exists_place_of_emit hemit, by simp [hlog, Report.asLines_render]⟩

/-- An extraction that ends without a payload leaves a note at most. -/
theorem conclude_error (fs : FileSystem) (plan : Plan) (e : ExtractError) :
    ∃ printed, conclude fs plan (.error e) = .plain 0 printed "" fs := by
  cases e <;> exact ⟨_, rfl⟩

theorem Planned.keeps_of_error {plan : Plan} {e : ExtractError} (h : Planned fs arguments plan)
    (hfind : find plan = .error e) : (respondWith find fs arguments).Keeps fs := by
  obtain ⟨printed, hprinted⟩ := conclude_error fs plan e
  rw [h.respondWith_eq, hfind, hprinted]
  exact Outcome.keeps_plain _ _ _ _

theorem Planned.respondWith_of_payload {plan : Plan} {p : Payload} (h : Planned fs arguments plan)
    (hfind : find plan = .ok p) : respondWith find fs arguments = deliver fs plan p := by
  rw [h.respondWith_eq, hfind]
  rfl

/-- Only a use that comes to a report changes a file: it succeeds, or there was no room for all of
the report. -/
theorem keeps_or_changes (find : Plan → Except ExtractError Payload) (fs : FileSystem)
    (arguments : List String) :
    (respondWith find fs arguments).Keeps fs ∨
      ∃ plan p log, Planned fs arguments plan ∧ find plan = .ok p ∧ plan.log = some log ∧
        ((respondWith find fs arguments).code = 0 ∧
            (respondWith find fs arguments).AddsTo fs log (Report.render plan.format p) ∨
          (respondWith find fs arguments).CutsOff fs log (Report.render plan.format p)) := by
  by_cases hplanned : ∃ plan, Planned fs arguments plan
  case neg =>
    obtain ⟨code, printed, remark, ho⟩ :=
      respondWith_of_unplanned find (not_exists.1 hplanned)
    exact .inl (ho ▸ Outcome.keeps_plain code printed remark fs)
  case pos =>
    obtain ⟨plan, hplan⟩ := hplanned
    cases hfind : find plan with
    | error e => exact .inl (hplan.keeps_of_error hfind)
    | ok p =>
        rw [hplan.respondWith_of_payload hfind]
        rcases deliver_cases fs plan p with
          ⟨-, -, hkeeps | ⟨log, hlog, hcut⟩⟩ | ⟨hcode, -, hkeeps, hadds⟩
        · exact .inl hkeeps
        · exact .inr ⟨plan, p, log, hplan, hfind, hlog, .inr hcut⟩
        · cases hlog : plan.log with
          | none => exact .inl (hkeeps hlog)
          | some log => exact .inr ⟨plan, p, log, hplan, hfind, hlog, .inl ⟨hcode, hadds log hlog⟩⟩

/-- **A report and its log agree, unless there is no room for the report.**  Whatever the arguments
are and whatever an extraction comes to, a use of the program leaves every file as it was, or there
is a report and it follows, as it is, what the log held, in the one file that changes; when there is
no room in the log for all of the report, the front of it does, and the use fails.  No file changes
when the use fails in another way, when the extraction ends without a payload, and when no log is
wanted.  Of a use that comes to a report either it fails and nothing is printed, or what is printed,
if anything is to be printed at all, is the text that the log was given before. -/
theorem report_and_log_agree (fs : FileSystem) (arguments : List String) :
    (∀ parse, respond fs parse arguments = respondWith (extract fs parse) fs arguments) ∧
    ∀ find : Plan → Except ExtractError Payload,
      let o := respondWith find fs arguments
      (o.Keeps fs ∨ ∃ plan p log, Planned fs arguments plan ∧ find plan = .ok p ∧
        plan.log = some log ∧ (o.AddsTo fs log (Report.render plan.format p) ∨
          o.CutsOff fs log (Report.render plan.format p))) ∧
      (o.code ≠ 0 → o.Keeps fs ∨ ∃ plan p log, Planned fs arguments plan ∧
        find plan = .ok p ∧ plan.log = some log ∧
          o.CutsOff fs log (Report.render plan.format p)) ∧
      (∀ plan e, Planned fs arguments plan → find plan = .error e → o.Keeps fs) ∧
      (∀ i, read arguments = .ok (.report i) → i.has .noLog = true → o.Keeps fs) ∧
      ∀ plan p, Planned fs arguments plan → find plan = .ok p →
        (o.code ≠ 0 ∧ o.printed = "") ∨
        (o.code = 0 ∧ o.printed = (if plan.echo then Report.render plan.format p else "") ∧
          ∀ log, plan.log = some log → o.AddsTo fs log (Report.render plan.format p)) := by
  refine ⟨fun parse => respond_eq fs parse arguments, fun find => ?_⟩
  have hcases := keeps_or_changes find fs arguments
  refine ⟨?_, ?_, fun plan e hplan hfind => hplan.keeps_of_error hfind, ?_, ?_⟩
  · refine hcases.imp_right ?_
    rintro ⟨plan, p, log, hplan, hfind, hlog, hchange⟩
    exact ⟨plan, p, log, hplan, hfind, hlog, hchange.imp_left And.right⟩
  · intro hcode
    refine hcases.imp_right ?_
    rintro ⟨plan, p, log, hplan, hfind, hlog, hchange⟩
    exact ⟨plan, p, log, hplan, hfind, hlog, hchange.resolve_left fun hadds => hcode hadds.1⟩
  · intro i hread hlog
    refine hcases.resolve_right ?_
    rintro ⟨plan, p, log, hplan, -, hsome, -⟩
    rw [hplan.log_eq_none hread hlog] at hsome
    cases hsome
  · intro plan p hplan hfind
    rw [hplan.respondWith_of_payload hfind]
    rcases deliver_cases fs plan p with ⟨hcode, hprinted, -⟩ | ⟨hcode, hprinted, -, hadds⟩
    · exact .inl ⟨by simp [hcode], hprinted⟩
    · exact .inr ⟨hcode, hprinted, hadds⟩

/-! ### A report on an index that is not ready -/

namespace Waiting

/-- A source file, and a log with a report in it. -/
def files : FileSystem where
  top :=
    .directory
      [("A.kt", .file "fun a() \x7b\x7d\n".toUTF8), ("log", .file "=== EARLIER ===\n".toUTF8)]
  here := []

def given : List String := ["A.kt", "--offset", "4", "--log-file", "log"]

/-- What an extraction comes to whose index is not ready in time. -/
def payload : Payload := .ofWarning Payload.notReadyWarning

def outcome : Outcome := respondWith (fun _ => .ok payload) files given

/-- The use that is asked for. -/
def use : Invocation := { file := ⟨"A.kt"⟩, caret := .offset 4, logFile := some ⟨"log"⟩ }

theorem exists_plan : ∃ plan, Planned files given plan ∧ plan.log = some ⟨"/log"⟩ ∧
    plan.format = .text ∧ plan.echo = true := by
  have hread : read given = .ok (.report use) := by decide
  have hplan : ((plan files use).toOption.map fun p => (p.log, p.format, p.echo)) =
      some (some ⟨"/log"⟩, .text, true) := by decide +kernel
  rcases hp : plan files use with e | p
  · rw [hp] at hplan; cases hplan
  · rw [hp] at hplan
    simp only [Except.toOption, Option.map_some, Option.some.injEq, Prod.mk.injEq] at hplan
    exact ⟨p, ⟨use, hread, hp⟩, hplan⟩

end Waiting

open Waiting in
theorem report_and_log_agree_waiting :
    outcome.code = 0 ∧ outcome.printed = Report.render .text payload ∧
      outcome.logged = some (⟨"/log"⟩, outcome.printed) ∧
      outcome.files.content? ["log"] =
        some ("=== EARLIER ===\n".toUTF8 ++ outcome.printed.toUTF8) := by
  obtain ⟨plan, hplan, hlog, hformat, hecho⟩ := exists_plan
  obtain ⟨-, -, -, -, hmade⟩ := (report_and_log_agree files given).2 fun _ => .ok payload
  have hcode : outcome.code = 0 := by decide +kernel
  have hplace : outcome.files.place? ⟨"/log"⟩ = some ["log"] := by decide +kernel
  have hbefore : files.content? ["log"] = some "=== EARLIER ===\n".toUTF8 := by decide
  rcases hmade plan payload hplan rfl with ⟨hfailed, -⟩ | ⟨-, hprinted, hadds⟩
  · exact absurd hcode hfailed
  · have hreport : outcome.printed = Report.render .text payload := by
      rw [hecho, if_pos rfl, hformat] at hprinted
      exact hprinted
    obtain ⟨⟨place, hat, hcontent⟩, hlogged⟩ := hadds _ hlog
    rw [hformat] at hcontent hlogged
    obtain rfl : place = ["log"] := Option.some.inj (hat.symm.trans hplace)
    refine ⟨hcode, hreport, hreport ▸ hlogged, ?_⟩
    rw [hreport]
    refine (congrFun hcontent _).trans ?_
    rw [Function.update_self, hbefore]
    rfl

/-! ### A log without room for a report -/

namespace Crowded
open Waiting

/-- The files, with room for four more bytes in the log. -/
def files : FileSystem :=
  { Waiting.files with room? := fun place _ => if place = ["log"] then some 4 else none }

def outcome : Outcome := respondWith (fun _ => .ok payload) files given

theorem content?_log : outcome.files.content? ["log"] = some "=== EARLIER ===\n=== ".toUTF8 := by
  decide +kernel

end Crowded

open Crowded in
/-- Where a log has room for four more bytes, the use fails, and its log is neither what it was nor
what it was followed by the report. -/
theorem report_cut_off_crowded :
    (outcome.code = 1 ∧ outcome.printed = "" ∧
      outcome.remark = "Failed to write log file /log\n") ∧
    outcome.files.content? ["log"] = some "=== EARLIER ===\n=== ".toUTF8 ∧
    outcome.files.content? ["log"] ≠
      some ("=== EARLIER ===\n".toUTF8 ++ (Report.render .text Waiting.payload).toUTF8) ∧
    ¬ (outcome.Keeps files ∨ ∃ plan p log, Planned files Waiting.given plan ∧
      plan.log = some log ∧ outcome.AddsTo files log (Report.render plan.format p)) := by
  refine ⟨by decide +kernel, content?_log, ?_, ?_⟩
  · rw [content?_log]
    decide +kernel
  · rintro (hkeeps | ⟨plan, p, log, -, -, hadds⟩)
    · have hbefore : files.content? ["log"] = some "=== EARLIER ===\n".toUTF8 := by decide
      rw [← hkeeps.content, content?_log] at hbefore
      exact absurd hbefore (by decide)
    · have hlogged : outcome.logged = none := by decide +kernel
      exact absurd (hlogged.symm.trans hadds.logged) (Option.some_ne_none _).symm

end Crossref.CommandLine
