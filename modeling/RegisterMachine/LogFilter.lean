import RegisterMachine.Log
import RegisterMachine.Text.Visible

/-!
# Log filters

Which records of a log are shown. A filter is a list of directives, each with a greatest level for the
records whose target starts with a given name, and possibly a text that must stand in what a record says.
Of the directives that apply to a record the one with the longest name decides; a record to which none
applies is not shown.

A filter is written as directives with commas between: `level`, `target=level`, or `target` alone
for all levels. Levels are read without regard to case, and `off` shows nothing. A slash after the
directives leads to the text that must stand in a record. Parts that cannot be read are left out, and
`LogFilter.faults` names them.

`Logger.plain` sets up logs with filters that are written in this way.
-/

namespace RegisterMachine

/-- A greatest level for the records with certain targets. -/
structure Directive where
  /-- what the target starts with; without a name the directive applies to all records -/
  name : Option (List Char)
  /-- the most detailed level that is shown, if any is -/
  ceiling : Option Level
deriving DecidableEq, Repr

namespace Directive

/-- The directive applies to records with this target. -/
def appliesTo (d : Directive) (target : List Char) : Bool :=
  d.name.all (·.isPrefixOf target)

/-- How narrow a directive is. -/
def width (d : Directive) : Nat :=
  d.name.elim 0 List.length

/-- Records of this level are shown. -/
def admits (d : Directive) (level : Level) : Bool :=
  d.ceiling.any fun ceiling => level.rank ≤ ceiling.rank

/-- The greatest level of a given name, in upper or lower case: `off` or that of a level. -/
def ceiling? (name : List Char) : Option (Option Level) :=
  let name := name.map Char.toUpper
  if name = "OFF".toList then some none
  else (Level.all.find? fun l => l.name.toList = name).map some

/-- Reads a directive. An unknown level and a text with several equality signs are refused; the answer
is then the part at fault. -/
def read (cs : List Char) : Except (List Char) Directive :=
  match Text.fields '=' cs with
  | [word] =>
    match ceiling? word with
    | some ceiling => .ok ⟨none, ceiling⟩
    | none => .ok ⟨some word, some .trace⟩
  | [name, level] =>
    match Text.trim level with
    | [] => .ok ⟨some name, some .trace⟩
    | level => (ceiling? level).elim (.error level) fun ceiling => .ok ⟨some name, ceiling⟩
  | _ => .error cs

/-- Reads directives with commas between; blank ones do not count. -/
def readAll (cs : List Char) : List (Except (List Char) Directive) :=
  (((Text.fields ',' cs).map Text.trim).filter (· ≠ [])).map read

end Directive

/-- Which records are shown. -/
structure LogFilter where
  /-- the directives, no two for the same name -/
  directives : List Directive := []
  /-- what must stand in the text of a record -/
  pattern : Option (List Char) := none
deriving DecidableEq, Repr

/-- A part of a written filter that is left out. -/
inductive LogFilterFault where
  /-- a directive that cannot be read -/
  | invalid (part : List Char)
  /-- a filter with several slashes -/
  | severalSlashes (text : List Char)
deriving DecidableEq, Repr

/-- The text of a fault. -/
def LogFilterFault.message : LogFilterFault → String
  | invalid part => "invalid logging spec '" ++ String.ofList part ++ "'"
  | severalSlashes text => "invalid logging spec '" ++ String.ofList text ++ "' (too many '/'s)"

namespace LogFilter

/-- Adds a directive; one for the same name is replaced where it stands. -/
def insert (ds : List Directive) (d : Directive) : List Directive :=
  if ds.any (·.name = d.name) then ds.map fun d' => if d'.name = d.name then d else d' else ds ++ [d]

/-- The directives that could be read. -/
def directivesOf (cs : List Char) : List Directive :=
  ((Directive.readAll cs).filterMap Except.toOption).foldl insert []

/-- Reads a filter. One with several slashes shows nothing. -/
def ofText (text : String) : LogFilter :=
  match Text.fields '/' text.toList with
  | [directives] => ⟨directivesOf directives, none⟩
  | [directives, pattern] => ⟨directivesOf directives, some pattern⟩
  | _ => {}

/-- The fault of a directive, if it could not be read. -/
def faultOf? : Except (List Char) Directive → Option LogFilterFault
  | .ok _ => none
  | .error part => some (.invalid part)

/-- The parts of a written filter that are left out, in order. -/
def faults (text : String) : List LogFilterFault :=
  match Text.fields '/' text.toList with
  | [directives] | [directives, _] => (Directive.readAll directives).filterMap faultOf?
  | _ => [.severalSlashes text.toList]

/-- The directive that decides on records with this target: of those with the longest name the last. -/
def decisive? (f : LogFilter) (target : List Char) : Option Directive :=
  (f.directives.filter (·.appliesTo target)).foldl
    (fun best d => if best.all (·.width ≤ d.width) then some d else best) none

/-- The record is shown. -/
def shows (f : LogFilter) (r : LogRecord) : Bool :=
  (f.decisive? r.target.toList).any (·.admits r.level) &&
    f.pattern.all fun part => Text.contains part r.text.toList

end LogFilter

namespace Logger

/-- The line of a record. Only its visible text is written, so what a program is called cannot change what
a terminal does. -/
def plainLine (r : LogRecord) : String :=
  Text.visible ("[" ++ r.level.label ++ " " ++ r.target ++ "] " ++ Text.indented r.text ++ "\n")

/-- Sets up a log with a filter, after a warning for each part of it that is left out. Records are written
without colour. -/
def plain : Logger where
  setUp _ setting :=
    let filter := LogFilter.ofText setting
    { opening := String.join ((LogFilter.faults setting).map fun fault =>
        "warning: " ++ fault.message ++ ", ignoring it\n")
      shows := filter.shows
      line := plainLine }

end Logger

end RegisterMachine
