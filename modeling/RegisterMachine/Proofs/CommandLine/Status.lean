import RegisterMachine.CommandLine.Exit
import RegisterMachine.Proofs.Launch

/-!
# What comes of a command line

A command line that asks for a run comes to what a launch of its program comes to: the output, the exit
code, and as the text of its status what the log writes and after that the summary or the failure.

* **`Launch.records`**, **`Log.written`** — what a log is told of a launch, and what it writes.
* **`perform_eq_of_run`** — a command line that asks for a run is a launch whose events are logged.
* **`timeLine`**, **`failureLine`** — the texts of the last report.
* **`statusText_of_ok`**, **`statusText_of_error`** — the text of the status.
-/

namespace RegisterMachine

/-- What a log is told of a launch. -/
def Launch.records {μ : Type} (l : Launch μ) : List LogRecord :=
  l.events.toList.map Event.record

namespace Log

/-- What a log writes of records, and at first of its setting. -/
def written (log : Log) (records : List LogRecord) : String :=
  log.opening ++ String.join ((records.filter log.shows).map log.line)

/-- Events are logged as their records. -/
theorem toList_foldl_add (log : Log) (lines : Array String) (events : List Event) :
    (events.foldl log.add lines).toList =
      lines.toList ++ ((events.map Event.record).filter log.shows).map log.line := by
  induction events generalizing lines with
  | nil => simp
  | cons e events ih =>
    rw [List.foldl_cons, ih, add, List.map_cons, List.filter_cons]
    split <;> simp

end Log

namespace CommandLine

/-- The text of all reports of status, in order. -/
def Exit.statusText (e : Exit) : String :=
  String.join (e.status.map (StatusReport.text e.color))

/-- What comes of a request and a launch of its program whose events are logged. -/
def exitOf (request : RunRequest) (s : Surroundings) (l : Launch Unlimited) : Exit :=
  .ofLaunch request s (s.log request) ⟨l.result, l.sink, l.events.toList.foldl (s.log request).add #[]⟩

/-- **A command line that asks for a run** is a launch whose events are logged. -/
theorem perform_eq_of_run (budget : Nat) (s : Surroundings) {args : List String} {request : RunRequest}
    (h : s.arguments.invocation args = .run request) :
    perform budget s args =
      (launch budget s.sources request.input Unlimited.mk).map (exitOf request s) := by
  rw [perform, h]
  show (launchInto (s.log request).add #[] budget s.sources request.input Unlimited.mk).map _ = _
  rw [Launch.launchInto_eq_map_launch, Option.map_map]
  rfl

/-! ## The text of the status -/

/-- The last report is coloured: always, or if that is supported where it goes and nothing else was asked for. -/
def isColoured (request : RunRequest) (s : Surroundings) : Bool :=
  decide (request.color = .always ∨ request.color = .auto ∧ s.colors = true)

/-- The line that sums up a run; a bold blue tag, if it is coloured. -/
def timeLine (color : Bool) (steps : UInt64) (t : Elapsed) : String :=
  (if color then "\x1b[34;1mTIME\x1b[0m" else "TIME") ++ " " ++ toString steps.toNat ++
    " instructions in " ++ toString (t.seconds * 1000 + t.nanoseconds / 1000000) ++ " ms\n"

/-- The line that tells a failure; a bold red tag, if it is coloured. -/
def failureLine (color : Bool) (chain : List String) : String :=
  (if color then "\x1b[31;1merror:\x1b[0m" else "error:") ++ " " ++ ": ".intercalate chain ++ "\n"

theorem enabled_eq_isColoured (request : RunRequest) (s : Surroundings) :
    request.color.enabled s.colors = isColoured request s := by
  cases hcolor : request.color <;> cases hcolors : s.colors <;>
    simp [isColoured, ColorMode.enabled, hcolor, hcolors]

theorem text_time (color : Bool) (steps : UInt64) (t : Elapsed) :
    StatusReport.text color (.time steps t) = timeLine color steps t := by
  have hsummary : runSummary steps t = toString steps.toNat ++ " instructions in " ++
      toString (t.seconds * 1000 + t.nanoseconds / 1000000) ++ " ms" := rfl
  cases color <;> simp only [StatusReport.text, hsummary, timeLine, String.append_assoc] <;> rfl

theorem text_failure (color : Bool) (e : LaunchError) :
    StatusReport.text color (.failure e.message) = failureLine color e.chain := by
  cases color <;> rfl

/-- The status starts with what the log writes. -/
theorem statusText_exitOf (request : RunRequest) (s : Surroundings) (l : Launch Unlimited) :
    (exitOf request s l).statusText = (s.log request).written l.records ++
      String.join ((Exit.lastReport? request s.elapsed l.result).toList.map
        (StatusReport.text (isColoured request s))) := by
  have htexts (color : Bool) (lines : List String) :
      (lines.map StatusReport.written).map (StatusReport.text color) = lines := by
    rw [List.map_map]
    exact List.map_id' lines
  -- what the log writes stays as it is, coloured or not
  have hcolor : (exitOf request s l).color = isColoured request s := enabled_eq_isColoured request s
  rw [Exit.statusText, hcolor, exitOf, Exit.ofLaunch, List.map_append, List.map_cons, htexts,
    Log.toList_foldl_add, Log.written, Launch.records]
  simp [StatusReport.text, String.append_assoc]

theorem statusText_of_ok {request : RunRequest} (s : Surroundings) {l : Launch Unlimited} {steps : UInt64}
    (h : l.result = .ok steps) :
    (exitOf request s l).statusText = (s.log request).written l.records ++
      if request.time then timeLine (isColoured request s) steps s.elapsed else "" := by
  rw [statusText_exitOf, h, Exit.lastReport?]
  cases request.time <;> simp [text_time]

theorem statusText_of_error {request : RunRequest} (s : Surroundings) {l : Launch Unlimited}
    {chain : List String} (h : l.chain? = some chain) :
    (exitOf request s l).statusText =
      (s.log request).written l.records ++ failureLine (isColoured request s) chain := by
  obtain ⟨e, herror, rfl⟩ := Launch.chain?_eq_some_iff.mp h
  rw [statusText_exitOf, herror, Exit.lastReport?]
  simp [text_failure]

end CommandLine

end RegisterMachine
