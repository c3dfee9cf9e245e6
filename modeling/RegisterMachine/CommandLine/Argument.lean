import RegisterMachine.CommandLine.Request

/-!
# Arguments

How the arguments of a command line are read. An argument is the mark `--`, a long option with or
without a value, a cluster of short options, or a plain word; a single dash is a word. What an argument
says depends on the side of `run` it stands on: `scan` lists what a command line says in order, up to
the first thing that cannot be understood.
-/

namespace RegisterMachine.CommandLine

/-- A side of `run`. -/
inductive Side where
  | before
  | after
deriving DecidableEq, Repr

/-- The form of a single argument. -/
inductive ArgumentForm where
  /-- `--` -/
  | endOfOptions
  /-- `--name` or `--name=value` -/
  | long (name : List Char) (value : Option (List Char))
  /-- `-abc`, the short options `a`, `b` and `c` -/
  | cluster (names : List Char)
  /-- anything else -/
  | word
deriving DecidableEq, Repr

namespace ArgumentForm

/-- The form of an argument. -/
def of : List Char → ArgumentForm
  | ['-', '-'] => endOfOptions
  | '-' :: '-' :: rest =>
    match rest.dropWhile (· ≠ '=') with
    | [] => long rest none
    | _ :: value => long (rest.takeWhile (· ≠ '=')) (some value)
  | '-' :: c :: cs => cluster (c :: cs)
  | _ => word

end ArgumentForm

/-- One thing that a command line says. -/
inductive Item where
  | setting (x : Setting)
  /-- say how to use the program, or how to use the part of it on a side of `run` -/
  | help (side : Side)
  /-- say which version this is -/
  | version
  | run
  /-- something that cannot be understood -/
  | invalid
deriving DecidableEq, Repr

namespace Item

/-- A short option on a side. -/
def ofShort (s : Side) : Char → Item
  | 'v' => setting .verbose
  | 'q' => setting .quiet
  | 'h' => help s
  | 'V' => if s = .before then version else invalid
  | _ => invalid

/-- A long option on a side, other than the choice of colour. -/
def ofLong (s : Side) (name : List Char) : Item :=
  if name = "verbose".toList then setting .verbose
  else if name = "quiet".toList then setting .quiet
  else if name = "help".toList then help s
  else
    match s with
    | .before => if name = "version".toList then version else invalid
    | .after => if name = "time".toList then setting .time else invalid

/-- The word `help` before `run`, with the words behind it. -/
def ofHelp : List String → Item
  | [] => help .before
  | ["run"] => help .after
  | _ => invalid

end Item

/-- What the arguments on a side of `run` say, and those behind them. The only words before `run` are `run`
itself and `help`. -/
def scan (s : Side) : List String → List Item
  | [] => []
  | arg :: rest =>
    match ArgumentForm.of arg.toList with
    | .endOfOptions =>
      match s with
      | .before => [.invalid]
      | .after => rest.map fun word => .setting (.program word)
    | .word =>
      match s with
      | .before =>
        if arg = "run" then .run :: scan .after rest
        else if arg = "help" then [.ofHelp rest]
        else [.invalid]
      | .after => .setting (.program arg) :: scan .after rest
    | .cluster names => names.map (Item.ofShort s) ++ scan s rest
    | .long name (some value) =>
      if name = "color".toList then .setting (.color (String.ofList value)) :: scan s rest
      else [.invalid]
    | .long name none =>
      if name = "color".toList then
        match rest with
        | [] => [.invalid]
        | value :: rest => .setting (.color value) :: scan s rest
      else .ofLong s name :: scan s rest

end RegisterMachine.CommandLine
