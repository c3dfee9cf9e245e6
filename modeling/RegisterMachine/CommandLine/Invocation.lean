import RegisterMachine.CommandLine.Argument

/-!
# Invocations

What a command line asks for, from what its arguments say. They are taken in as they come: help and the
version end the command line at once, and so does anything that cannot be understood.
-/

namespace RegisterMachine.CommandLine

/-- How to use the program, or the part of it on a side of `run`. -/
def Side.help : Side → String
  | before =>
    "Tubby VM: decode and execute Tubby bytecode\n\n" ++
    "Usage: tubby [OPTIONS] <COMMAND>\n\n" ++
    "Commands:\n" ++
    "  run   Execute a bytecode file until the program counter leaves the program\n" ++
    "  help  Print this message or the help of the given subcommand(s)\n\n" ++
    "Options:\n" ++
    "  -v, --verbose...     More log output (-v, -vv, -vvv)\n" ++
    "  -q, --quiet          Errors only\n" ++
    "      --color <COLOR>  Colour for status lines on stderr [default: auto] " ++
      "[possible values: auto, always, never]\n" ++
    "  -h, --help           Print help\n" ++
    "  -V, --version        Print version\n"
  | after =>
    "Execute a bytecode file until the program counter leaves the program\n\n" ++
    "Usage: tubby run [OPTIONS] [PROGRAM]\n\n" ++
    "Arguments:\n" ++
    "  [PROGRAM]  Bytecode file (or - for stdin)\n\n" ++
    "Options:\n" ++
    "      --time           Report execution time and instruction count on stderr\n" ++
    "  -v, --verbose...     More log output (-v, -vv, -vvv)\n" ++
    "  -q, --quiet          Errors only\n" ++
    "      --color <COLOR>  Colour for status lines on stderr [default: auto] " ++
      "[possible values: auto, always, never]\n" ++
    "  -h, --help           Print help\n"

/-- The line that tells the version. -/
def versionLine : String := "tubby 0.1.0\n"

namespace Invocation

/-- Takes in what is said on a side of `run` and behind it, given the request so far and what was said on
this side. A command line that ends before `run` asks for nothing. -/
def ofItems (s : Side) (seen : List Setting) (r : RunRequest) : List Item → Invocation
  | [] =>
    match s with
    | .before => unusable
    | .after => run r
  | .setting x :: items =>
    match r.meet seen x with
    | some r => ofItems s (seen ++ [x]) r items
    | none => unusable
  | .run :: items => ofItems .after [] r items
  | .help side :: _ => told side.help
  | .version :: _ => told versionLine
  | .invalid :: _ => unusable

/-- What the arguments of a command line ask for. -/
def ofArguments (args : List String) : Invocation :=
  ofItems .before [] {} (scan .before args)

end Invocation

/-- Reads arguments in the usual way. -/
def ArgumentParser.plain : ArgumentParser where
  invocation := Invocation.ofArguments
  complaint _ := "error: unusable command line\n"

end RegisterMachine.CommandLine
