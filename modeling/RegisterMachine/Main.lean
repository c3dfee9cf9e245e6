import RegisterMachine.CommandLine.Exit

/-!
# The command line program

Carries out a command line against the real files and streams. Output and log lines appear as the
machine makes its attempts, so that a program whose run never ends is seen at work. The rounds of a run and
the phases of a launch are those of the library; here they are carried out by reading and writing.
-/

namespace RegisterMachine.CommandLine

/-- The text of a fault with a number given by the operating system, which some calls negate. -/
def numberedFault (code : UInt32) (details : String) : String :=
  match code.toInt32.toInt.natAbs with
  | 20 => FileFault.notADirectory.message
  | 21 => FileFault.isADirectory.message
  | n => details.capitalize ++ " (os error " ++ Text.decimal n ++ ")"

/-- The text of a fault of the operating system. -/
def faultText : IO.Error → String
  | .noFileOrDirectory .. => FileFault.notFound.message
  | .inappropriateType _ code details | .permissionDenied _ code details
  | .resourceExhausted _ code details | .resourceVanished code details
  | .otherError code details | .hardwareFault code details => numberedFault code details
  | e => toString e

/-- Runs an action and catches its fault. -/
def caught {α : Type} (action : IO α) : IO (Except Fault α) := do
  try
    return .ok (← action)
  catch e =>
    return .error (faultText e)

/-- Reads a stream to its end. -/
partial def readAll (stream : IO.FS.Stream) (seen : ByteArray) : IO ByteArray := do
  let bytes ← stream.read 65536
  if bytes.isEmpty then return seen
  readAll stream (seen ++ bytes)

/-- Reads the program of an input. -/
def readInput : Input → IO (Except Fault (List UInt8))
  | .stdin => caught do return (← readAll (← IO.getStdin) .empty).toList
  | .path name => caught do return (← IO.FS.readBinFile name).toList

/-- Writes bytes to standard output and flushes. -/
def writeOut (bytes : Array UInt8) : IO (Except Fault Unit) := caught do
  let out ← IO.getStdout
  out.write ⟨bytes⟩
  out.flush

/-- Writes an event to the log. -/
def report (log : Log) (e : Event) : IO Unit := do
  for line in log.add #[] e do IO.eprint line

/-- Makes an attempt. The bytes that the instruction prints go to standard output at once, and if they
cannot, the attempt has failed. -/
def attempt (m : Machine Unlimited) : IO (Except ExecutionError Status × Machine Unlimited) := do
  let (answer, m') := m.step
  if m'.sink.stored.isEmpty then return (answer, m')
  match ← writeOut m'.sink.stored with
  | .ok () => return (answer, { m' with sink := { medium := {} } })
  | .error fault => return (.error (.output fault), m)

/-- Makes rounds of a run up to the last one. -/
partial def finishRun (log : Log) (began : UInt64) (m : Machine Unlimited) :
    IO (Except ExecutionError UInt64 × Machine Unlimited) := do
  match ← m.round (report log) attempt began with
  | .going m' => finishRun log began m'
  | .ended result m' => return (result, m')

/-- The phases of a launch. The time that the run takes is kept in `elapsed`. -/
def phases (log : Log) (elapsed : IO.Ref Elapsed) : Phases IO Unlimited where
  read := readInput
  report := report log
  run m := do
    let began ← IO.monoNanosNow
    let ended ← finishRun log m.steps m
    elapsed.set ⟨0, (← IO.monoNanosNow) - began⟩
    return ended
  flush sink := return (← writeOut #[], sink)

/-- Writes what comes of a command line that runs nothing. -/
def finish (e : Exit) : IO UInt32 := do
  let out ← IO.getStdout
  out.write ⟨e.output.toArray⟩
  out.flush
  for r in e.status do IO.eprint (r.text e.color)
  return e.code.toUInt32

/-- Carries out a command line. -/
def runMain (args : List String) : IO UInt32 := do
  let terminal ← (← IO.getStderr).isTty
  let s : Surroundings :=
    { logSetting := ← IO.getEnv "RUST_LOG", colors := terminal, logColors := terminal }
  match s.arguments.invocation args with
  | .told text => finish (.told text)
  | .unusable => finish (.unusable (s.arguments.complaint args))
  | .run request =>
    let log := s.log request
    IO.eprint log.opening
    let elapsed ← IO.mkRef s.elapsed
    let (result, _) ← (phases log elapsed).launch request.input {}
    let color := request.color.enabled s.colors
    if let some r := Exit.lastReport? request (← elapsed.get) result then IO.eprint (r.text color)
    return (Exit.codeOf result).toUInt32

end RegisterMachine.CommandLine

/-- The entry point of the program. -/
def main (args : List String) : IO UInt32 :=
  RegisterMachine.CommandLine.runMain args
