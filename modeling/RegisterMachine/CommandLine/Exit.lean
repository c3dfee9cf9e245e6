import RegisterMachine.CommandLine.Invocation
import RegisterMachine.LogFilter
import RegisterMachine.Sink.Media

/-!
# Carrying out a command line

A command line is carried out against the sources of programs. What comes of it is an exit code, the
output, and reports of its status: first what the log writes, as the run goes on, and at last either the
summary of the run, if it was asked for, or the failure.
-/

namespace RegisterMachine.CommandLine

/-- A report of status. -/
inductive StatusReport where
  /-- a text that is written as it stands -/
  | written (text : String)
  /-- the summary of a run -/
  | time (steps : UInt64) (elapsed : Elapsed)
  | failure (message : String)
deriving DecidableEq, Repr

/-- A tag in the bold colour with the given code, or without any colour. -/
def coloured (enabled : Bool) (code tag : String) : String :=
  if enabled then "\x1b[" ++ code ++ ";1m" ++ tag ++ "\x1b[0m" else tag

/-- The text of a report: the tag of a failure is red, that of a summary blue. -/
def StatusReport.text (color : Bool) : StatusReport → String
  | written text => text
  | time steps elapsed => coloured color "34" "TIME" ++ " " ++ runSummary steps elapsed ++ "\n"
  | failure message => coloured color "31" "error:" ++ " " ++ message ++ "\n"

/-- What comes of a command line. -/
structure Exit where
  code : UInt8
  output : List UInt8 := []
  /-- the reports of status -/
  status : List StatusReport := []
  /-- the reports are coloured -/
  color : Bool := false
deriving DecidableEq

/-- What a command line is carried out against. -/
structure Surroundings where
  /-- where programs can be read from -/
  sources : Sources := {}
  /-- a setting of the log from outside -/
  logSetting : Option String := none
  /-- colours are supported where the last report goes -/
  colors : Bool := false
  /-- colours are supported where the log goes -/
  logColors : Bool := false
  /-- how long the run takes -/
  elapsed : Elapsed := ⟨0, 0⟩
  /-- how arguments are read -/
  arguments : ArgumentParser := .plain
  /-- what sets up the log -/
  logger : Logger := .plain

namespace Exit

/-- Something was to be told. -/
def told (text : String) : Exit :=
  { code := 0, output := Text.utf8 text }

/-- The command line cannot be understood. -/
def unusable (complaint : String) : Exit :=
  { code := 2, status := [.written complaint] }

/-- The last report of a run: its summary if that was asked for, or its failure. -/
def lastReport? (request : RunRequest) (elapsed : Elapsed) :
    Except LaunchError UInt64 → Option StatusReport
  | .ok steps => if request.time then some (.time steps elapsed) else none
  | .error e => some (.failure e.message)

/-- The exit code of a run. -/
def codeOf : Except LaunchError UInt64 → UInt8
  | .ok _ => 0
  | .error _ => 1

/-- What comes of a launch with a log. -/
def ofLaunch (request : RunRequest) (s : Surroundings) (log : Log)
    (l : RecordedLaunch Unlimited (Array String)) : Exit where
  code := codeOf l.result
  output := l.sink.stored.toList
  status :=
    .written log.opening :: l.events.toList.map .written ++
      (lastReport? request s.elapsed l.result).toList
  color := request.color.enabled s.colors

end Exit

/-- The log that a request is carried out with. -/
def Surroundings.log (s : Surroundings) (request : RunRequest) : Log :=
  s.logger.setUp s.logColors (request.logSetting s.logSetting)

/-- Carries out a command line, if its run ends within the budget. The log is written as events are
reported. -/
def perform (budget : Nat) (s : Surroundings) (args : List String) : Option Exit :=
  match s.arguments.invocation args with
  | .told text => some (.told text)
  | .unusable => some (.unusable (s.arguments.complaint args))
  | .run request =>
    let log := s.log request
    (launchInto log.add #[] budget s.sources request.input ({} : Unlimited)).map
      (Exit.ofLaunch request s log)

end RegisterMachine.CommandLine
