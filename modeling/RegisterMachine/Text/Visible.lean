import RegisterMachine.Text

/-!
# Visible text

Text may hold control characters and the control sequences that terminals obey, such as those that
change colours. `Text.visible` leaves these out. It keeps every printable character and the controls
that are white space: tab, line feed, form feed and carriage return.

A sequence begins with an escape character. It is a single character, possibly with intermediate
characters before it; a control sequence proper, after `[`, up to a final letter or sign; a device
control string, after `P`, whose header is read before its data; a command, after `]`, up to a bell
character; or another string, after `X`, `^` or `_`. The cancel and substitute characters end every
sequence, and an escape character begins a new one.

White space inside a sequence that is not a string is shown, and what follows it is shown too, up to the
next control character; there the sequence goes on.
-/

namespace RegisterMachine.Text

/-- How far a control sequence has been read. -/
inductive ControlState where
  /-- no sequence is open -/
  | ground
  /-- after the escape character -/
  | escape
  /-- after intermediate characters -/
  | intermediate
  /-- inside a control sequence proper -/
  | sequence
  /-- at the start of the header of a device control string -/
  | deviceEntry
  /-- in the parameters of that header -/
  | deviceParameter
  /-- in the intermediate characters of that header -/
  | deviceIntermediate
  /-- inside the data of a device control string, or inside another string -/
  | data
  /-- inside a command -/
  | command
deriving DecidableEq, Repr

namespace ControlState

/-- White space among the control characters. -/
def isBlankControl (c : Char) : Bool :=
  c = '\t' || c = '\n' || c = '\x0c' || c = '\r'

/-- A character that is shown if no sequence is open. -/
def isVisible (c : Char) : Bool :=
  isBlankControl c || (0x20 ≤ c.toNat && c.toNat ≠ 0x7f)

/-- White space is shown inside a sequence. -/
def showsBlanks : ControlState → Bool
  | escape | intermediate | sequence => true
  | _ => false

/-- The character with this code follows an escape character. -/
def afterEscape (n : Nat) : ControlState :=
  if n < 0x20 then escape
  else if n ≤ 0x2f then intermediate
  else if n = 0x5b then sequence
  else if n = 0x5d then command
  else if n = 0x50 then deviceEntry
  else if n = 0x58 ∨ n = 0x5e ∨ n = 0x5f then data
  else if n ≤ 0x7e then ground
  else escape

/-- The character with this code stands in the header of a device control string, which has so far
led to `state`. -/
def inHeader (state : ControlState) (n : Nat) : ControlState :=
  if 0x20 ≤ n ∧ n ≤ 0x2f then deviceIntermediate
  else if 0x30 ≤ n ∧ n ≤ 0x3f then
    match state with
    | deviceEntry => deviceParameter
    | deviceParameter => if n ≤ 0x3b then deviceParameter else data
    | _ => data
  else if 0x40 ≤ n ∧ n ≤ 0x7e then data
  else state

/-- The byte that ends a string; in a text it is part of the bytes of a character. -/
def stringTerminator : UInt8 := 0x9c

/-- The state after a character that is not shown. -/
def next (state : ControlState) (c : Char) : ControlState :=
  let n := c.toNat
  if n = 0x18 ∨ n = 0x1a then ground
  else if n = 0x1b then escape
  else
    match state with
    | ground => ground
    | escape => afterEscape n
    | intermediate => if 0x30 ≤ n ∧ n ≤ 0x7e then ground else intermediate
    | sequence => if 0x40 ≤ n ∧ n ≤ 0x7e then ground else sequence
    | deviceEntry => inHeader deviceEntry n
    | deviceParameter => inHeader deviceParameter n
    | deviceIntermediate => inHeader deviceIntermediate n
    | data => if stringTerminator ∈ String.utf8EncodeChar c then ground else data
    | command => if n = 0x07 then ground else command

/-- The character is shown, given whether the one before it was. -/
def emits (state : ControlState) (showing : Bool) (c : Char) : Bool :=
  isVisible c && (showing || state = ground || (state.showsBlanks && isBlankControl c))

/-- The state after a character that is shown: a character beyond ASCII ends the sequence. -/
def shown (state : ControlState) (c : Char) : ControlState :=
  if c.toNat < 0x80 then state else ground

end ControlState

/-- The visible part of the rest of a text. -/
def visibleFrom (state : ControlState) (showing : Bool) : List Char → List Char
  | [] => []
  | c :: cs =>
    if state.emits showing c then c :: visibleFrom (state.shown c) true cs
    else visibleFrom (state.next c) false cs

/-- The visible part of a text. -/
def visible (s : String) : String :=
  String.ofList (visibleFrom .ground false s.toList)

/-- Text without control characters other than white space is visible as it stands. -/
theorem visibleFrom_eq_self {cs : List Char} (h : ∀ c ∈ cs, ControlState.isVisible c = true)
    (showing : Bool) : visibleFrom .ground showing cs = cs := by
  induction cs generalizing showing with
  | nil => rfl
  | cons c cs ih =>
    have hc := h c (by simp)
    have hs : ControlState.shown .ground c = .ground := by simp [ControlState.shown]
    rw [visibleFrom, if_pos (by simp [ControlState.emits, hc]), hs,
      ih (fun c hc => h c (by simp [hc]))]

end RegisterMachine.Text
