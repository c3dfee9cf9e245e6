import RegisterMachine.Instr

/-!
# Events

What a run reports about itself, in the order in which it happens: the program was decoded, it was
loaded, an instruction is about to be attempted, the machine halted. An event has a level, which
tells how detailed it is, and a target, which tells where it comes from. A log gets it as a record of
these two and of what the event says.
-/

namespace RegisterMachine

/-- How detailed an event is, from the least to the most. -/
inductive Level where
  | error
  | warn
  | info
  | debug
  | trace
deriving DecidableEq, Repr

namespace Level

/-- The levels, from the least to the most detailed. -/
def all : List Level :=
  [error, warn, info, debug, trace]

/-- The position of a level among all of them. -/
def rank : Level → Nat
  | error => 0
  | warn => 1
  | info => 2
  | debug => 3
  | trace => 4

/-- The name of a level. -/
def name : Level → String
  | error => "ERROR"
  | warn => "WARN"
  | info => "INFO"
  | debug => "DEBUG"
  | trace => "TRACE"

/-- How a level is written in the setting of a log. -/
def settingName : Level → String
  | error => "error"
  | warn => "warn"
  | info => "info"
  | debug => "debug"
  | trace => "trace"

/-- The name of a level, filled up with blanks to five columns. -/
def label (l : Level) : String :=
  l.name ++ String.ofList (List.replicate (5 - l.name.length) ' ')

end Level

/-- Something that happened in the course of a run. -/
inductive Event where
  /-- a byte string was decoded -/
  | decoded (bytes instructions : Nat)
  /-- the program called `name` is ready for execution -/
  | loaded (name : String) (bytes instructions : Nat)
  /-- the instruction at `pc` is about to be executed -/
  | attempt (pc : Nat) (instr : Instr)
  /-- the counter left the program -/
  | halted (steps : UInt64) (pc : Nat)
deriving DecidableEq, Repr

namespace Event

/-- How detailed an event is. -/
def level : Event → Level
  | decoded .. => .debug
  | loaded .. => .info
  | attempt .. => .trace
  | halted .. => .debug

/-- Where an event comes from. -/
def target : Event → String
  | decoded .. => "tubby_core::bytecode::program"
  | loaded .. => "tubby_cli"
  | attempt .. => "tubby_vm::machine"
  | halted .. => "tubby_vm::machine"

/-- What an event says. -/
def text : Event → String
  | decoded bytes instructions =>
    "program decoded bytes=" ++ Text.decimal bytes ++ " instructions=" ++ Text.decimal instructions
  | loaded name bytes instructions =>
    name ++ ": " ++ Text.decimal bytes ++ " bytes, " ++ Text.decimal instructions ++ " instructions"
  | attempt pc instr => "step pc=" ++ Text.decimal pc ++ " instr=" ++ instr.text
  | halted steps pc =>
    "halted steps=" ++ Text.decimal steps.toNat ++ " pc=" ++ Text.decimal pc

end Event

/-- What a log is told. -/
structure LogRecord where
  level : Level
  target : String
  text : String
deriving DecidableEq, Repr

/-- The record of an event. -/
def Event.record (e : Event) : LogRecord where
  level := e.level
  target := e.target
  text := e.text

end RegisterMachine
