/-!
# Faults

What an operation outside of the machine fails with: reading a file or a stream, writing to a sink,
flushing it.
-/

namespace RegisterMachine

/-- The text of a failure, and the texts of the failures it rests on, from the nearest on. -/
@[ext]
structure Fault where
  /-- what is said of the failure itself -/
  text : String
  /-- what is said of its causes -/
  sources : List String := []
deriving DecidableEq, Repr

namespace Fault

/-- A fault without causes is given by its text. -/
instance : Coe String Fault where
  coe text := { text }

instance : Coe (Option String) (Option Fault) where
  coe text := text.map fun text => { text }

/-- All that is said of a fault, from the outside in. -/
def chain (f : Fault) : List String :=
  f.text :: f.sources

end Fault

end RegisterMachine
