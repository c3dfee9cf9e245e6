import RegisterMachine.FileTree
import RegisterMachine.Machine.Run

/-!
# Launching programs

A launch goes through four phases: the bytes of a program are read from a file or from standard input,
decoded, executed, and at the end the sink is flushed once more. The first phase that fails ends it,
and the failure names the phase and, but for the last one, the place the program came from. How the phases
follow each other is said once, for any way to carry them out.
-/

namespace RegisterMachine

/-- Where a program comes from. -/
inductive Input where
  /-- standard input -/
  | stdin
  | path (name : String)
deriving DecidableEq, Repr

namespace Input

/-- The input that an argument asks for: without one, or with a dash, it is standard input. -/
def ofArgument : Option String → Input
  | none => stdin
  | some name => if name = "-" then stdin else path name

/-- What an input is called in messages. -/
def name : Input → String
  | stdin => "<stdin>"
  | path name => name

end Input

/-- Standard input: its bytes, and the fault that reading ends with, if it does not just end. -/
structure StandardInput where
  /-- the bytes that can be read -/
  bytes : List UInt8 := []
  /-- the fault after these bytes -/
  fault : Option Fault := none
deriving DecidableEq, Repr

/-- All that programs can be read from. -/
structure Sources where
  /-- standard input -/
  stdin : StandardInput := {}
  files : FileSystem := .ofPaths [] []

/-- Reads a program, or answers the fault. Standard input is not touched for a file. -/
def Sources.read (s : Sources) : Input → Except Fault (List UInt8)
  | .stdin =>
    match s.stdin.fault with
    | some fault => .error fault
    | none => .ok s.stdin.bytes
  | .path name => s.files.read name

/-- The phase in which a launch failed. -/
inductive LaunchError where
  /-- the program could not be read -/
  | reading (input : Input) (fault : Fault)
  /-- the bytes are no program -/
  | decoding (input : Input) (e : DecodeError)
  /-- an instruction failed -/
  | executing (input : Input) (e : ExecutionError)
  /-- the last flush failed -/
  | flushing (fault : Fault)
deriving DecidableEq, Repr

namespace LaunchError

/-- What was being done when the launch failed. -/
def context : LaunchError → String
  | reading input _ => "reading program " ++ input.name
  | decoding input _ => "decoding " ++ input.name
  | executing input _ => "executing " ++ input.name
  | flushing _ => "flushing program output"

/-- The texts of the underlying error and of its causes. -/
def causes : LaunchError → List String
  | reading _ fault => fault.chain
  | decoding _ e => [e.message]
  | executing _ e => e.chain
  | flushing fault => fault.chain

/-- All texts of the failure, from the outside in. -/
def chain (e : LaunchError) : List String :=
  e.context :: e.causes

/-- The failure in one line. -/
def message (e : LaunchError) : String :=
  ": ".intercalate e.chain

end LaunchError

/-- A span of time. -/
structure Elapsed where
  /-- whole seconds -/
  seconds : Nat
  /-- nanoseconds beyond these -/
  nanoseconds : Nat
deriving DecidableEq, Repr

/-- A span of time in whole milliseconds, rounded down. -/
def Elapsed.milliseconds (t : Elapsed) : Nat :=
  t.seconds * 1000 + t.nanoseconds / 1000000

/-- The summary of a run: how many instructions it took, and how long. -/
def runSummary (steps : UInt64) (elapsed : Elapsed) : String :=
  Text.decimal steps.toNat ++ " instructions in " ++ Text.decimal elapsed.milliseconds ++ " ms"

/-- A launch that came to its end, and what was made of its reports. -/
structure RecordedLaunch (μ σ : Type) where
  /-- the number of instructions executed, or the failure -/
  result : Except LaunchError UInt64
  /-- the sink after the launch -/
  sink : Sink μ
  /-- what was reported on the way -/
  events : σ

/-- A launch that came to its end, with the events that it reported. -/
abbrev Launch (μ : Type) : Type :=
  RecordedLaunch μ (Array Event)

/-- A way to carry out the phases of a launch. -/
structure Phases (f : Type → Type) (μ : Type) where
  read : Input → f (Except Fault (List UInt8))
  report : Event → f Unit
  run : Machine μ → f (Except ExecutionError UInt64 × Machine μ)
  flush : Sink μ → f (Except Fault Unit × Sink μ)

namespace Phases

variable {μ : Type}

/-- Carries out one phase after the other, as long as none fails. The answer is the number of instructions
executed, or the failure, and the sink. -/
def launch {f : Type → Type} [Monad f] (p : Phases f μ) (input : Input) (medium : μ) :
    f (Except LaunchError UInt64 × Sink μ) := do
  match ← p.read input with
  | .error fault => return (.error (.reading input fault), { medium })
  | .ok bytes =>
    match Program.decode bytes with
    | .error e => return (.error (.decoding input e), { medium })
    | .ok program =>
      p.report (.decoded bytes.length program.size)
      p.report (.loaded input.name bytes.length program.size)
      match ← p.run (Machine.start program medium) with
      | (.error e, m) => return (.error (.executing input e), m.sink)
      | (.ok steps, m) =>
        match ← p.flush m.sink with
        | (.error fault, sink) => return (.error (.flushing fault), sink)
        | (.ok (), sink) => return (.ok steps, sink)

/-- The phases on given sources. What is reported is added to a state by `record`, and there is no answer if
the run does not end within the budget. -/
def within [Medium μ] {σ : Type} (record : σ → Event → σ) (budget : Nat) (sources : Sources) :
    Phases (StateT σ Option) μ where
  read input := pure (sources.read input)
  report e := modify (record · e)
  run m state := (m.runInto record state budget).map fun run => ((run.result, run.machine), run.events)
  flush sink := pure sink.flush

end Phases

section

variable {μ : Type} [Medium μ]

/-- Launches a program, if its run ends within the budget, and adds what is reported to `state`. -/
def launchInto {σ : Type} (record : σ → Event → σ) (state : σ) (budget : Nat) (sources : Sources)
    (input : Input) (medium : μ) : Option (RecordedLaunch μ σ) :=
  (((Phases.within record budget sources).launch input medium).run state).map
    fun ((result, sink), events) => ⟨result, sink, events⟩

/-- Launches a program, if its run ends within the budget. -/
def launch (budget : Nat) (sources : Sources) (input : Input) (medium : μ) : Option (Launch μ) :=
  launchInto Array.push #[] budget sources input medium

end

end RegisterMachine
