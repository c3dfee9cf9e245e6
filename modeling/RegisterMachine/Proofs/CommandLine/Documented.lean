import RegisterMachine.Proofs.CommandLine.Arguments

/-!
# Documented parsers

Of a parser of arguments only its documentation is known: in which ways options may be written, and what
happens when an argument is met for which a counter, a flag or a value is declared. This decides how command
lines of such options are read.

* **`OptionUnit`** — one way to write settings on a side of `run`.
* **`Line`** — a command line as far as a place on one of the sides.
* **`ArgumentParser.Documented`** — what is documented of parsers, one statement for each kind of action.
* **`ArgumentParser.Documented.reads_eq`** — they meet the settings of a line one after the other.
-/

namespace RegisterMachine.CommandLine

/-! ## What is written -/

/-- An option with a short name. -/
inductive Switch where
  | verbose
  | quiet
deriving DecidableEq

/-- A word in the place of a colour mode. It does not begin with a dash. -/
structure ColorWord where
  text : String
  plain : text.toList.head? ≠ some '-'
deriving DecidableEq

/-- A word in the place of a program. If it begins with a dash it is a single dash. -/
structure ProgramWord where
  text : String
  plain : text.toList.head? = some '-' → text = "-"
deriving DecidableEq

/-- One way to write one or more settings. The summary and the program belong behind `run`, everything else
can stand on both sides. -/
inductive OptionUnit : Side → Type where
  /-- `-vq` -/
  | cluster {s : Side} (first : Switch) (others : List Switch) : OptionUnit s
  /-- `--verbose` -/
  | long {s : Side} (switch : Switch) : OptionUnit s
  /-- `--color name` -/
  | color {s : Side} (word : ColorWord) : OptionUnit s
  /-- `--color=name` -/
  | colorAttached {s : Side} (word : ColorWord) : OptionUnit s
  /-- `--time` -/
  | time : OptionUnit .after
  /-- `name` -/
  | program (word : ProgramWord) : OptionUnit .after

namespace Switch

def letter : Switch → Char
  | verbose => 'v'
  | quiet => 'q'

def longName : Switch → String
  | verbose => "verbose"
  | quiet => "quiet"

def setting : Switch → Setting
  | verbose => .verbose
  | quiet => .quiet

end Switch

namespace OptionUnit

variable {s : Side}

/-- The arguments that a unit is written as. -/
def arguments : OptionUnit s → List String
  | cluster first others => [String.ofList ('-' :: (first :: others).map Switch.letter)]
  | long switch => ["--" ++ switch.longName]
  | color word => ["--color", word.text]
  | colorAttached word => ["--color=" ++ word.text]
  | time => ["--time"]
  | program word => [word.text]

/-- What a unit says. -/
def settings : OptionUnit s → List Setting
  | cluster first others => (first :: others).map Switch.setting
  | long switch => [switch.setting]
  | color word | colorAttached word => [.color word.text]
  | time => [.time]
  | program word => [.program word.text]

end OptionUnit

/-- A command line as far as a place on one side of `run`. -/
inductive Line : Side → Type where
  /-- nothing yet -/
  | start : Line .before
  /-- behind `run` -/
  | run (line : Line .before) : Line .after
  /-- one unit further -/
  | add {s : Side} (line : Line s) (u : OptionUnit s) : Line s

namespace Line

/-- The arguments up to the place. -/
def written {s : Side} : Line s → List String
  | start => []
  | run line => line.written ++ ["run"]
  | add line u => line.written ++ u.arguments

/-- The command line that ends at the place, but for the word `run` if that is still to come. -/
def arguments : {s : Side} → Line s → List String
  | .before, line => line.written ++ ["run"]
  | .after, line => line.written

/-- What has been said on this side. -/
def said {s : Side} : Line s → List Setting
  | start | run _ => []
  | add line u => line.said ++ u.settings

/-- The request if all settings are met one after the other. -/
def request? {s : Side} : Line s → Option RunRequest
  | start => some {}
  | run line => line.request?
  | add line u => line.request?.bind fun r => r.meetAll line.said u.settings

end Line

/-! ## What is documented -/

/-- How the command line that ends at a place is read. -/
def ArgumentParser.reads (parser : ArgumentParser) {s : Side} (line : Line s) : Invocation :=
  parser.invocation line.arguments

/-- What is documented of parsers: the forms of options, and what the action does that is declared for an
argument. An option that is said on either side is known on both; behind `run` it counts as not yet met, and
what it is given there replaces what it was given in front. -/
structure ArgumentParser.Documented (parser : ArgumentParser) : Prop where
  /-- Without options a counter is at zero, flags are not set, there are no values, and the default is the
  colour mode `auto`. -/
  bare : parser.reads .start = .run {}
  /-- Short options may be written together. -/
  cluster {s : Side} (line : Line s) (first second : Switch) (others : List Switch) :
    parser.reads (line.add (.cluster first (second :: others))) =
      parser.reads ((line.add (.cluster first [])).add (.cluster second others))
  /-- An argument that is met first: a counter goes from zero to one, a flag is set, a value is stored. -/
  first {s : Side} (line : Line s) (u : OptionUnit s) {x : Setting} {r : RunRequest} :
    u.settings = [x] → parser.reads line = .run r → x.isValid = true →
      (∀ y ∈ line.said, y.argument ≠ x.argument) → parser.reads (line.add u) = .run (r.store x)
  /-- A counter goes up each time that its argument is met, and stays at the largest byte. -/
  counted {s : Side} (line : Line s) (u : OptionUnit s) {x : Setting} {r : RunRequest} :
    u.settings = [x] → parser.reads line = .run r → (∃ y ∈ line.said, y.argument = x.argument) →
      x.argument.action = .count →
        parser.reads (line.add u) = .run { r with verbosity := RunRequest.counted r.verbosity }
  /-- It is an error to set a flag, or to give a value, a second time. -/
  repeated {s : Side} (line : Line s) (u : OptionUnit s) {x : Setting} :
    u.settings = [x] → (∃ y ∈ line.said, y.argument = x.argument) → x.argument.action ≠ .count →
      parser.reads (line.add u) = .unusable
  /-- It is an error to give a value that is none of the possible ones, or an empty path. -/
  invalid {s : Side} (line : Line s) (u : OptionUnit s) {x : Setting} :
    u.settings = [x] → x.isValid = false → parser.reads (line.add u) = .unusable
  /-- Nothing makes up for an error. -/
  refused {s : Side} (line : Line s) (u : OptionUnit s) :
    parser.reads line = .unusable → parser.reads (line.add u) = .unusable

/-! ## How lines are read -/

theorem RunRequest.meetAll_singleton (seen : List Setting) (r : RunRequest) (x : Setting) :
    r.meetAll seen [x] = r.meet seen x := by
  simp [meetAll]

/-- Settings are met one after the other, whether they are written together or not. -/
theorem RunRequest.meetAll_append (seen : List Setting) (r : RunRequest) (xs ys : List Setting) :
    r.meetAll seen (xs ++ ys) = (r.meetAll seen xs).bind fun r => r.meetAll (seen ++ xs) ys := by
  induction xs generalizing seen r with
  | nil => simp [meetAll]
  | cons x xs ih => simp [meetAll, ih, Option.bind_assoc]

theorem Line.request?_cluster {s : Side} (line : Line s) (first second : Switch) (others : List Switch) :
    (line.add (.cluster first (second :: others))).request? =
      ((line.add (.cluster first [])).add (.cluster second others)).request? := by
  -- both meet the first letter and then the others
  show line.request?.bind (fun r => r.meetAll line.said
      ([first.setting] ++ (second :: others).map Switch.setting)) = _
  simp only [RunRequest.meetAll_append, ← Option.bind_assoc]
  rfl

namespace ArgumentParser.Documented

variable {parser : ArgumentParser} {s : Side} {line : Line s}

theorem reads_add_of_single (h : parser.Documented) {u : OptionUnit s} {x : Setting} (hu : u.settings = [x])
    (hline : parser.reads line = .ofRequest? line.request?) :
    parser.reads (line.add u) = .ofRequest? (line.add u).request? := by
  cases hrequest : line.request? with
  | none =>
    rw [Line.request?, hrequest]
    exact h.refused line u (by rw [hline, hrequest]; rfl)
  | some r =>
    have hreads : parser.reads line = .run r := by
      rw [hline, hrequest]
      rfl
    rw [Line.request?, hrequest, Option.bind_some, hu, RunRequest.meetAll_singleton]
    -- each way for a setting to be met is documented for the action of its argument
    cases hmeet : r.meet line.said x with
    | some r' =>
      obtain ⟨hvalid, ⟨hnew, rfl⟩ | ⟨hmet, hcount, rfl⟩⟩ := RunRequest.meet_eq_some_iff.mp hmeet
      · exact h.first line u hu hreads hvalid hnew
      · exact h.counted line u hu hreads hmet hcount
    | none =>
      obtain hinvalid | ⟨hmet, haction⟩ := RunRequest.meet_eq_none_iff.mp hmeet
      · exact h.invalid line u hu hinvalid
      · exact h.repeated line u hu hmet haction

theorem reads_add (h : parser.Documented) (u : OptionUnit s)
    (hline : parser.reads line = .ofRequest? line.request?) :
    parser.reads (line.add u) = .ofRequest? (line.add u).request? := by
  cases u with
  | cluster first others =>
    -- on the letters: the first could as well stand in a cluster of its own
    induction others generalizing line first with
    | nil => exact h.reads_add_of_single (x := first.setting) rfl hline
    | cons second others ih =>
      rw [h.cluster, Line.request?_cluster]
      exact ih (h.reads_add_of_single (x := first.setting) rfl hline) second
  | long | color | colorAttached | time | program => exact h.reads_add_of_single rfl hline

/-- **Documented parsers meet the settings** of a line one after the other. -/
theorem reads_eq (h : parser.Documented) (line : Line s) :
    parser.reads line = .ofRequest? line.request? := by
  induction line with
  | start => exact h.bare
  | run line ih => exact ih
  | add line u ih => exact h.reads_add u ih

end ArgumentParser.Documented

end RegisterMachine.CommandLine
