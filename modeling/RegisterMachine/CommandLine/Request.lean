import RegisterMachine.Launch

/-!
# Requests

What a command line can ask for. It says things before and after the word `run`; each setting that is met
changes a request, which at first asks for nothing. More detail can be asked for again and again, everything
else once on a side of `run`. What is said after `run` replaces what was said before it.

How arguments are written is the matter of an argument parser.
-/

namespace RegisterMachine.CommandLine

/-- When status lines are coloured. -/
inductive ColorMode where
  /-- where colours are supported -/
  | auto
  | always
  | never
deriving DecidableEq, Repr

namespace ColorMode

/-- The mode of a given name. -/
def ofName? : String → Option ColorMode
  | "auto" => some auto
  | "always" => some always
  | "never" => some never
  | _ => none

/-- Lines are coloured, given whether colours are supported where they go. -/
def enabled (supported : Bool) : ColorMode → Bool
  | auto => supported
  | always => true
  | never => false

end ColorMode

/-- What happens when an argument is met. -/
inductive ArgumentAction where
  | count
  | setTrue
  | set
deriving DecidableEq, Repr

/-- The arguments that there are. -/
inductive Argument where
  | verbose
  | quiet
  | color
  | time
  | program
deriving DecidableEq, Repr

/-- What is declared to happen when an argument is met. -/
def Argument.action : Argument → ArgumentAction
  | verbose => .count
  | quiet | time => .setTrue
  | color | program => .set

/-- What can be said on a side of `run`, in whatever way it is written. -/
inductive Setting where
  /-- more detail in the log -/
  | verbose
  | quiet
  /-- when to use colour, by the name of a mode -/
  | color (name : String)
  | time
  /-- the program to run -/
  | program (name : String)
deriving DecidableEq, Repr

namespace Setting

/-- The argument that says it. -/
def argument : Setting → Argument
  | verbose => .verbose
  | quiet => .quiet
  | color _ => .color
  | time => .time
  | program _ => .program

/-- The value that comes with it can be understood: a colour mode exists, and a program has a name. -/
def isValid : Setting → Bool
  | color name => (ColorMode.ofName? name).isSome
  | program name => name ≠ ""
  | _ => true

end Setting

/-- A run with all its options. -/
structure RunRequest where
  /-- how often more detail was asked for -/
  verbosity : UInt8 := 0
  quiet : Bool := false
  /-- when to use colour -/
  color : ColorMode := .auto
  time : Bool := false
  /-- the program to run, if it was named -/
  program : Option String := none
deriving DecidableEq, Repr

namespace RunRequest

/-- A count that has reached the largest byte stays there. -/
def counted (n : UInt8) : UInt8 :=
  if n = 255 then n else n + 1

/-- The request after a setting that is the first of its argument on a side of `run`. -/
def store (r : RunRequest) : Setting → RunRequest
  | .verbose => { r with verbosity := 1 }
  | .quiet => { r with quiet := true }
  | .color name => { r with color := (ColorMode.ofName? name).getD r.color }
  | .time => { r with time := true }
  | .program name => { r with program := some name }

/-- The request after one more setting, if that can be said after those before it on the same side. -/
def meet (seen : List Setting) (r : RunRequest) (x : Setting) : Option RunRequest :=
  if x.isValid then
    if seen.any (·.argument = x.argument) then
      match x.argument.action with
      | .count => some { r with verbosity := counted r.verbosity }
      | .setTrue | .set => none
    else some (r.store x)
  else none

/-- The request after several more settings. -/
def meetAll (seen : List Setting) (r : RunRequest) : List Setting → Option RunRequest
  | [] => some r
  | x :: xs => (r.meet seen x).bind fun r => r.meetAll (seen ++ [x]) xs

/-- Where the program comes from. -/
def input (r : RunRequest) : Input :=
  .ofArgument r.program

/-- The most detailed level that the options ask for. -/
def level (r : RunRequest) : Level :=
  if r.quiet then .error
  else
    match r.verbosity with
    | 0 => .warn
    | 1 => .info
    | 2 => .debug
    | _ => .trace

/-- The setting of the log: one from outside, or else that of the options. -/
def logSetting (r : RunRequest) (outside : Option String) : String :=
  outside.getD r.level.settingName

end RunRequest

/-- What a command line asks for. -/
inductive Invocation where
  | run (request : RunRequest)
  /-- tell something that can be told without a run -/
  | told (text : String)
  /-- nothing that can be understood -/
  | unusable
deriving DecidableEq, Repr

/-- A run is asked for, unless the settings cannot be said together. -/
def Invocation.ofRequest? : Option RunRequest → Invocation
  | some request => run request
  | none => unusable

/-- A way to read arguments. -/
structure ArgumentParser where
  /-- what arguments ask for -/
  invocation : List String → Invocation
  /-- what is said of arguments that cannot be understood -/
  complaint : List String → String

end RegisterMachine.CommandLine
