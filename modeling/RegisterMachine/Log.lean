import RegisterMachine.Event

/-!
# Logs

A log is set up with a setting, a text that tells which records to show. It may have something to say about
the setting at first; after that it writes a text for each record that it shows, as it gets it.
-/

namespace RegisterMachine

/-- A log that has been set up. -/
structure Log where
  /-- what is written at first -/
  opening : String
  /-- the record is shown -/
  shows : LogRecord → Bool
  /-- what is written of a record that is shown -/
  line : LogRecord → String

namespace Log

/-- Adds what is written of an event to the lines so far. -/
def add (log : Log) (lines : Array String) (e : Event) : Array String :=
  if log.shows e.record then lines.push (log.line e.record) else lines

end Log

/-- A way to set up logs. -/
structure Logger where
  /-- the log for a setting, given whether colours are supported where it goes -/
  setUp (colors : Bool) (setting : String) : Log

end RegisterMachine
