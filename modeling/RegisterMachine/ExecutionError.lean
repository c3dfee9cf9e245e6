import RegisterMachine.Fault
import RegisterMachine.Program.DecodeError
import RegisterMachine.Word

/-!
# Execution errors

Why an instruction could not be executed, and the errors of decoding and execution taken together.
An error may rest on others, its causes; `chain` lists the texts from the outside in.
-/

namespace RegisterMachine

/-- The failure of one instruction. -/
inductive ExecutionError where
  /-- the sink failed -/
  | output (fault : Fault)
  /-- the instruction at `pc` was to print the character of `value`, and there is none -/
  | invalidCodePoint (value : Word) (pc : Nat)
deriving DecidableEq, Repr

namespace ExecutionError

/-- The text of the error. -/
def message : ExecutionError → String
  | output fault => "output error: " ++ fault.text
  | invalidCodePoint value pc =>
    "PRINTB at pc " ++ Text.decimal pc ++ ": " ++ value.decimal ++
      " is not a valid character code point"

/-- What the error rests on. -/
def sources : ExecutionError → List String
  | output fault => fault.chain
  | invalidCodePoint .. => []

/-- The nearest cause of the error. -/
def source? (e : ExecutionError) : Option String :=
  e.sources.head?

/-- The texts of the error and of its causes. -/
def chain (e : ExecutionError) : List String :=
  e.message :: e.sources

end ExecutionError

/-- The failure of a program given as bytes. -/
inductive Error where
  /-- the bytes are no program -/
  | decode (e : DecodeError)
  /-- an instruction failed -/
  | exec (e : ExecutionError)
deriving DecidableEq, Repr

namespace Error

/-- The text of the error that this one wraps. -/
def source : Error → String
  | decode e => e.message
  | exec e => e.message

/-- The text of the error: its phase, then the text of the error inside. -/
def message : Error → String
  | decode e => "decode: " ++ e.message
  | exec e => "exec: " ++ e.message

end Error

end RegisterMachine
