import Mathlib.Logic.Function.Basic
import RegisterMachine.Proofs.Machine.Attempts
import RegisterMachine.Proofs.Text

/-!
# The reference machine

The machine as its specification describes it, in mathematical terms: a register for every word and a
content in each, a counter that is any integer, arithmetic on integers that is reduced to words at the
end, and texts in the number format and encoding of the standard library. It has no sink, no sparse
register file, and no largest address.

## The architecture

* **`Reference.rule`** — what each instruction does, one case for each of them.
* **`Reference.step`**, **`Reference.after`** — a step, and `n` steps from the start.
* **`Simulates`** — a machine and a reference machine in corresponding states.
* **`rule_of_effect_ok`**, **`rule_of_effect_error`** — instructions correspond: the case split over
  all of them happens here and nowhere else.
* **`place_follow`** — counters correspond, as long as the addresses of the program exist.
* **`Simulates.step`**, **`simulates_after`** — steps correspond, and by induction so do runs.
-/

namespace RegisterMachine

/-! ## The rules -/

/-- A state of the reference machine. -/
structure Reference where
  /-- the content of every register -/
  registers : Word → Word := fun _ => 0
  /-- the place of the next instruction, possibly outside the program -/
  pc : Int := 0
  /-- the bytes emitted so far -/
  output : List UInt8 := []
  /-- the number of instructions executed so far -/
  executed : Nat := 0

namespace Reference

def value (s : Reference) : Operand → Word
  | .literal v => .ofInt v.toNat
  | .register r => s.registers (.ofInt r.toNat)

/-- Puts an integer, modulo `2 ^ 64`, into a register. -/
def assign (s : Reference) (id : Word) (n : Int) : Reference :=
  { s with registers := Function.update s.registers id (.ofInt n) }

def emit (s : Reference) (text : String) : Reference :=
  { s with output := s.output ++ text.toUTF8.data.toList }

def continueAt (s : Reference) (pc : Int) : Reference :=
  { s with pc }

/-- The integers that are code points of characters: neither negative, nor surrogates, nor too large. -/
def IsCodePoint (n : Int) : Prop :=
  0 ≤ n ∧ n ≤ 0x10FFFF ∧ ¬ (0xD800 ≤ n ∧ n ≤ 0xDFFF)

instance (n : Int) : Decidable (IsCodePoint n) :=
  inferInstanceAs (Decidable (_ ∧ _ ∧ ¬ _))

/-- The state after an instruction, or the value whose character was to be printed but is none. -/
def rule (s : Reference) : Instr → Except Word Reference
  | .inc register delta =>
    let id := s.value register
    .ok ((s.assign id ((s.registers id).toInt + (s.value delta).toInt)).continueAt (s.pc + 1))
  | .dec register delta =>
    let id := s.value register
    .ok ((s.assign id ((s.registers id).toInt - (s.value delta).toInt)).continueAt (s.pc + 1))
  | .printNumber v =>
    .ok ((s.emit (toString (s.value v).toInt)).continueAt (s.pc + 1))
  | .printChar v =>
    let n := (s.value v).toInt
    if IsCodePoint n then
      .ok ((s.emit (String.singleton (Char.ofNat n.toNat))).continueAt (s.pc + 1))
    else .error (s.value v)
  | .goto target => .ok (s.continueAt (s.value target).toInt)
  | .test left right =>
    .ok (s.continueAt (if s.value left = s.value right then s.pc + 2 else s.pc + 1))

/-- The place is one of an instruction of the program. -/
def Inside (p : Program) (pc : Int) : Prop :=
  0 ≤ pc ∧ pc < p.size

instance (p : Program) (pc : Int) : Decidable (Inside p pc) :=
  inferInstanceAs (Decidable (_ ∧ _))

/-- The instruction at the place of the state, if there is one. -/
def fetch? (p : Program) (s : Reference) : Option Instr :=
  if 0 ≤ s.pc then p[s.pc.toNat]? else none

/-- A step: outside the program nothing happens, and a failing instruction changes nothing. -/
def step (p : Program) (s : Reference) : Except ExecutionError Status × Reference :=
  match s.fetch? p with
  | none => (.ok .halted, s)
  | some i =>
    match s.rule i with
    | .error v => (.error (.invalidCodePoint v s.pc.toNat), s)
    | .ok s' =>
      (.ok (if Inside p s'.pc then .running else .halted), { s' with executed := s.executed + 1 })

/-- The reference machine after `n` steps from the start. -/
def after (p : Program) : (n : Nat) → Reference
  | 0 => {}
  | n + 1 => (step p (after p n)).2

/-- What the first `n` steps from the start answer, in order. -/
def answers (p : Program) (n : Nat) : List (Except ExecutionError Status) :=
  (List.range n).map fun k => (step p (after p k)).1

theorem answers_succ (p : Program) (n : Nat) :
    answers p (n + 1) = answers p n ++ [(step p (after p n)).1] := by
  rw [answers, List.range_succ, List.map_append]
  rfl

theorem fetch?_of_not_inside {p : Program} {s : Reference} (h : ¬ Inside p s.pc) :
    s.fetch? p = none := by
  unfold Inside at h
  unfold fetch?
  by_cases hpc : 0 ≤ s.pc
  · rw [if_pos hpc, Array.getElem?_eq_none (by omega)]
  · rw [if_neg hpc]

theorem fetch?_of_inside {p : Program} {s : Reference} (h : Inside p s.pc) :
    s.fetch? p = p[s.pc.toNat]? :=
  if_pos h.1

theorem step_of_fetch?_none {p : Program} {s : Reference} (h : s.fetch? p = none) :
    step p s = (.ok .halted, s) := by
  rw [step, h]

theorem step_of_rule_error {p : Program} {s : Reference} {i : Instr} {v : Word}
    (hi : s.fetch? p = some i) (hrule : s.rule i = .error v) :
    step p s = (.error (.invalidCodePoint v s.pc.toNat), s) := by
  rw [step, hi]
  show (match s.rule i with | .error v => _ | .ok s' => _) = _
  rw [hrule]

theorem step_of_rule_ok {p : Program} {s s' : Reference} {i : Instr} (hi : s.fetch? p = some i)
    (hrule : s.rule i = .ok s') :
    step p s =
      (.ok (if Inside p s'.pc then .running else .halted), { s' with executed := s.executed + 1 }) := by
  rw [step, hi]
  show (match s.rule i with | .error v => _ | .ok s' => _) = _
  rw [hrule]

end Reference

/-! ## Characters

The words with a character are the code points of characters. -/

theorem Word.char?_eq (w : Word) :
    w.char? = if Reference.IsCodePoint w.toInt then some (Char.ofNat w.toInt.toNat) else none := by
  have hiff : (0 ≤ w.toInt ∧ w.toInt.toNat.isValidChar) ↔ Reference.IsCodePoint w.toInt := by
    unfold Reference.IsCodePoint Nat.isValidChar
    omega
  rw [Word.char?, if_congr hiff rfl rfl]

/-! ## Instructions correspond -/

namespace Reference

def Holds (s : Reference) (r : RegisterFile) : Prop :=
  ∀ id, r.get id = s.registers id

theorem resolve_eq_value {s : Reference} {r : RegisterFile} (h : s.Holds r) (o : Operand) :
    r.resolve o = s.value o := by
  cases o with
  | literal v => rfl
  | register id => exact h _

/-- Writing a word to the file is putting an integer into the register, if both are congruent. -/
theorem holds_assign {s : Reference} {r : RegisterFile} (h : s.Holds r) (id w : Word) {n : Int}
    (hn : Int64.ofInt n = w) : (s.assign id n).Holds (r.set id w) := by
  intro x
  rw [RegisterFile.get_set]
  show _ = Function.update s.registers id (.ofInt n) x
  by_cases hx : id = x
  · rw [if_pos hx, ← hx, Function.update_self, hn]
  · rw [if_neg hx, Function.update_of_ne (Ne.symm hx), h x]

/-- Where the rules go on after an instruction. -/
def destination (pc : Int) : Transfer → Int
  | .next => pc + 1
  | .skip => pc + 2
  | .jump target => target.toInt

/-- **Effects are rules.** An instruction with an effect leads to a state with the same registers, the
same output added, and the destination of its transfer. -/
theorem rule_of_effect_ok {s : Reference} {r : RegisterFile} (h : s.Holds r) {i : Instr}
    {effect : Effect} (heffect : i.effect r = .ok effect) :
    ∃ s', s.rule i = .ok s' ∧ s'.Holds effect.registers ∧
      s'.output = s.output ++ effect.output.getD [] ∧
      s'.pc = destination s.pc effect.transfer := by
  cases i with
  | inc register delta =>
    cases heffect
    refine ⟨_, rfl, ?_, (List.append_nil _).symm, rfl⟩
    rw [RegisterFile.add, h, resolve_eq_value h, resolve_eq_value h]
    refine holds_assign h _ _ ?_
    rw [Int64.ofInt_add, Int64.ofInt_toInt, Int64.ofInt_toInt]
  | dec register delta =>
    cases heffect
    refine ⟨_, rfl, ?_, (List.append_nil _).symm, rfl⟩
    rw [RegisterFile.sub, h, resolve_eq_value h, resolve_eq_value h]
    refine holds_assign h _ _ ?_
    rw [Int64.ofInt_sub, Int64.ofInt_toInt, Int64.ofInt_toInt]
  | printNumber v =>
    cases heffect
    refine ⟨_, rfl, h, ?_, rfl⟩
    rw [resolve_eq_value h, Word.decimal, Text.signedDecimal_eq_toString, Text.utf8_eq_toUTF8]
    rfl
  | printChar v =>
    simp only [Instr.effect, resolve_eq_value h, Word.char?_eq] at heffect
    by_cases hpoint : IsCodePoint (s.value v).toInt
    · rw [if_pos hpoint] at heffect
      cases heffect
      refine ⟨_, if_pos hpoint, h, ?_, rfl⟩
      show s.output ++ _ = s.output ++ _
      rw [← Text.utf8_eq_toUTF8, Text.utf8, String.toList_singleton, List.flatMap_singleton]
      rfl
    · rw [if_neg hpoint] at heffect
      cases heffect
  | goto target =>
    cases heffect
    refine ⟨_, rfl, h, (List.append_nil _).symm, ?_⟩
    rw [resolve_eq_value h]
    rfl
  | test left right =>
    cases heffect
    refine ⟨_, rfl, h, (List.append_nil _).symm, ?_⟩
    rw [resolve_eq_value h, resolve_eq_value h]
    by_cases heq : s.value left = s.value right
    · simp only [if_pos heq]
      rfl
    · simp only [if_neg heq]
      rfl

/-- An instruction without effect is one without rule, for the same value. -/
theorem rule_of_effect_error {s : Reference} {r : RegisterFile} (h : s.Holds r) {i : Instr}
    {value : Word} (heffect : i.effect r = .error value) : s.rule i = .error value := by
  cases i with
  | printChar v =>
    simp only [Instr.effect, resolve_eq_value h, Word.char?_eq] at heffect
    by_cases hpoint : IsCodePoint (s.value v).toInt
    · rw [if_pos hpoint] at heffect
      cases heffect
    · rw [if_neg hpoint] at heffect
      cases heffect
      exact if_neg hpoint
  | _ => cases heffect

end Reference

/-! ## Counters correspond

The machine's counter stops at the largest address, and a jump to a negative target goes to the end of
the program. Neither can be told from the reference machine if the addresses of the program exist: then
both counters are outside the program, or they are the same. -/

open Medium Reference

section

variable {μ : Type}

theorem place_follow {m : Machine μ} (hsize : m.program.size < UInt64.size) (t : Transfer) :
    (m.follow t < m.program.size ↔ Inside m.program (destination m.pc t)) ∧
      (Inside m.program (destination m.pc t) → (m.follow t : Int) = destination m.pc t) := by
  have hadvance (n : Nat) : Machine.advance m.pc n = min (m.pc + n) (UInt64.size - 1) := rfl
  cases t with
  | next =>
    -- the size is at most the largest address, where the counter stops
    simp only [Machine.follow, destination, Inside, hadvance]
    omega
  | skip =>
    -- behind the last instruction the counter may stop short, but outside the program
    simp only [Machine.follow, destination, Inside, hadvance]
    omega
  | jump target =>
    have hneg : target < 0 ↔ target.toInt < 0 := Int64.lt_iff_toInt_lt
    simp only [Machine.follow, destination, Inside]
    by_cases htarget : target < 0
    · -- the size and a negative number are both outside
      rw [if_pos htarget]
      have := hneg.mp htarget
      omega
    · rw [if_neg htarget]
      have := mt hneg.mpr htarget
      omega

theorem status_eq {m : Machine μ} {p : Program} {pc : Int} (h : m.isHalted = false ↔ Inside p pc) :
    m.status = if Inside p pc then .running else .halted := by
  unfold Machine.status
  by_cases hpc : Inside p pc
  · rw [if_pos hpc, h.mpr hpc]
    rfl
  · have hhalted : m.isHalted = true := eq_true_of_ne_false (mt h.mp hpc)
    rw [if_neg hpc, hhalted]
    rfl

theorem isHalted_eq_false_iff {m : Machine μ} : m.isHalted = false ↔ m.pc < m.program.size := by
  simp [Machine.isHalted]

end

/-! ## Machines correspond -/

variable {μ : Type} [Medium μ]

/-- The machine and the reference machine are in corresponding states. -/
structure Simulates (p : Program) (m : Machine μ) (s : Reference) : Prop where
  /-- the machine executes the program -/
  program : m.program = p
  /-- its sink goes on not to fail -/
  sink : NeverFails m.sink.medium
  /-- both are halted, or neither is -/
  running : m.isHalted = false ↔ Inside p s.pc
  /-- inside the program the counters are equal -/
  pc : Inside p s.pc → (m.pc : Int) = s.pc
  /-- every register has the same content -/
  registers : ∀ id, m.registers.get id = s.registers id
  /-- the same bytes were emitted -/
  output : m.sink.stored.toList = s.output
  /-- the machine counts the executed instructions, modulo `2 ^ 64` -/
  steps : m.steps = UInt64.ofNat s.executed

theorem simulates_start (p : Program) {medium : μ} (h : NeverFails medium) :
    Simulates p (Machine.start p medium) {} := by
  refine ⟨rfl, h, ?_, fun _ => rfl, RegisterFile.get_empty, rfl, rfl⟩
  rw [isHalted_eq_false_iff]
  unfold Inside
  show 0 < p.size ↔ (0 : Int) ≤ 0 ∧ (0 : Int) < p.size
  omega

/-- An instruction with an effect: the states after it correspond, and both report whether they are
inside the program. -/
theorem Simulates.commit {p : Program} {m : Machine μ} {s s' : Reference} {effect : Effect}
    {sink : Sink μ} (h : Simulates p m s) (hsize : p.size < UInt64.size) (hinside : Inside p s.pc)
    (hsink : NeverFails sink.medium) (hstored : sink.stored = m.sink.stored ++ effect.output.getD [])
    (hregisters : s'.Holds effect.registers) (houtput : s'.output = s.output ++ effect.output.getD [])
    (hpc : s'.pc = destination s.pc effect.transfer) :
    Simulates p (Machine.commit { m with sink } effect) { s' with executed := s.executed + 1 } := by
  obtain ⟨rfl, _, _, hcounter, _, hbytes, hsteps⟩ := h
  have hplace := place_follow (m := { m with sink }) hsize effect.transfer
  have hcounters : ((({ m with sink } : Machine μ).pc : Nat) : Int) = s.pc := hcounter hinside
  rw [hcounters, ← hpc] at hplace
  refine ⟨rfl, hsink, ?_, hplace.2, hregisters, ?_, ?_⟩
  · rw [isHalted_eq_false_iff]
    exact hplace.1
  · show sink.stored.toList = s'.output
    rw [hstored, houtput, ← hbytes]
    simp
  · show m.steps + 1 = UInt64.ofNat (s.executed + 1)
    rw [hsteps, UInt64.ofNat_add]
    rfl

/-- **Steps correspond.** They lead to corresponding states, give the same answer, and execute an
instruction both or neither. -/
theorem Simulates.step {p : Program} {m : Machine μ} {s : Reference} (h : Simulates p m s)
    (hsize : p.size < UInt64.size) :
    Simulates p m.step.2 (Reference.step p s).2 ∧ m.step.1 = (Reference.step p s).1 ∧
      (Reference.step p s).2.executed = s.executed + if m.executes then 1 else 0 := by
  cases hfetch : m.fetch? with
  | none =>
    have hhalted := Machine.fetch?_eq_none_iff.mp hfetch
    have houtside : ¬ Inside p s.pc := by
      intro hinside
      rw [h.running.mpr hinside] at hhalted
      cases hhalted
    have hexecutes : m.executes = false := by
      rw [Machine.executes, hhalted]
      rfl
    rw [Machine.step_of_fetch?_none hfetch,
      Reference.step_of_fetch?_none (fetch?_of_not_inside houtside), hexecutes]
    exact ⟨h, rfl, rfl⟩
  | some i =>
    have hrunning : m.isHalted = false := by
      cases hhalted : m.isHalted with
      | false => rfl
      | true =>
        rw [Machine.fetch?_eq_none_iff.mpr hhalted] at hfetch
        cases hfetch
    have hinside := h.running.mp hrunning
    -- both have the same instruction in front of them
    have hpc : s.pc.toNat = m.pc := by
      rw [← h.pc hinside, Int.toNat_natCast]
    have hi : s.fetch? p = some i := by
      rw [fetch?_of_inside hinside, hpc, ← h.program]
      exact hfetch
    cases heffect : i.effect m.registers with
    | error value =>
      have hstep := Machine.step_of_effect_error hfetch heffect
      have hexecutes : m.executes = false := by
        rw [Machine.executes, hrunning, hstep]
        rfl
      rw [hstep, hexecutes,
        Reference.step_of_rule_error hi (rule_of_effect_error h.registers heffect), hpc]
      exact ⟨h, rfl, rfl⟩
    | ok effect =>
      obtain ⟨sink, hsink, hstored, hstep⟩ := Machine.step_of_effect_ok h.sink hfetch heffect
      obtain ⟨s', hrule, hregisters, houtput, hpc'⟩ := rule_of_effect_ok h.registers heffect
      have hsimulates := h.commit hsize hinside hsink hstored hregisters houtput hpc'
      have hexecutes : m.executes = true := by
        rw [Machine.executes, hrunning, hstep]
        rfl
      rw [hstep, hexecutes, Reference.step_of_rule_ok hi hrule]
      refine ⟨hsimulates, ?_, rfl⟩
      exact congrArg Except.ok (status_eq hsimulates.running)

/-- **Runs correspond.** Induction on the number of attempts: each of them is a step of the reference
machine. -/
theorem simulates_after {p : Program} {medium : μ} (hsize : p.size < UInt64.size)
    (hmedium : NeverFails medium) (n : Nat) :
    Simulates p ((Machine.start p medium).after n) (Reference.after p n) ∧
      (Machine.start p medium).answers n = Reference.answers p n ∧
      (Machine.start p medium).executions n = (Reference.after p n).executed := by
  induction n with
  | zero => exact ⟨simulates_start p hmedium, rfl, rfl⟩
  | succ n ih =>
    obtain ⟨hsimulates, hanswers, hexecutions⟩ := ih
    obtain ⟨hnext, hanswer, hexecuted⟩ := hsimulates.step hsize
    refine ⟨hnext, ?_, ?_⟩
    · rw [Machine.answers_succ, Reference.answers_succ, hanswers, hanswer]
    · rw [Machine.executions_succ, hexecutions]
      exact hexecuted.symm

/-! ## The machine implements its specification -/

/-- **The machine implements its specification.** Let a program, whose addresses are numbers of 64
bits, be executed on a medium that never fails. After any number of attempts the machine and the
reference machine are halted both or neither, are at the same place inside the program, read the
same content in every register, and have emitted the same bytes. They have executed the same number of
instructions, which the machine counts modulo `2 ^ 64`, and have given the same answers. -/
theorem machine_implements_reference {p : Program} (hsize : p.size < UInt64.size) {medium : μ}
    (hmedium : NeverFails medium) (n : Nat) :
    let start := Machine.start p medium
    let m := start.after n
    let s := Reference.after p n
    (m.isHalted = true ↔ ¬ Inside p s.pc) ∧
      (m.pc < p.size ∨ Inside p s.pc → (m.pc : Int) = s.pc) ∧
      (∀ id, m.registers.get id = s.registers id) ∧
      m.sink.stored.toList = s.output ∧
      start.executions n = s.executed ∧
      m.steps = UInt64.ofNat s.executed ∧
      (n < UInt64.size → m.steps.toNat = s.executed) ∧
      start.answers n = Reference.answers p n := by
  intro start m s
  obtain ⟨hsimulates, hanswers, hexecutions⟩ := simulates_after hsize hmedium n
  have hrunning : m.isHalted = false ↔ Inside p s.pc := hsimulates.running
  have hprogram : m.program = p := hsimulates.program
  have hsteps : m.steps = UInt64.ofNat s.executed := hsimulates.steps
  refine ⟨?_, ?_, hsimulates.registers, hsimulates.output, hexecutions, hsteps, ?_, hanswers⟩
  · rw [← hrunning, Bool.not_eq_false]
  · intro hplace
    have hinside : Inside p s.pc := by
      rcases hplace with hpc | hinside
      · rw [← hrunning, isHalted_eq_false_iff, hprogram]
        exact hpc
      · exact hinside
    exact hsimulates.pc hinside
  · intro hn
    have hle : s.executed ≤ n := hexecutions ▸ Machine.executions_le start n
    rw [hsteps, UInt64.toNat_ofNat', Nat.mod_eq_of_lt (Nat.lt_of_le_of_lt hle hn)]

/-- A register outside `0..=255` is written through a register that holds -1, which is printed and
jumped to. -/
theorem machine_implements_reference_indirect :
    let p : Program := #[.dec (.literal 0) (.literal 1), .inc (.register 0) (.literal 3),
      .printNumber (.register 0), .goto (.register 0)]
    let m := (Machine.start p Unlimited.mk).after 4
    p.size < UInt64.size ∧ NeverFails Unlimited.mk ∧ m.isHalted = true ∧ m.registers.get (-1) = 3 ∧
      m.sink.stored.toList = [0x2D, 0x31] ∧ m.steps = 4 := by
  intro p m
  have hmedium := neverFails_unlimited Unlimited.mk
  obtain ⟨hhalted, _, hregisters, houtput, _, hsteps, _, _⟩ :=
    machine_implements_reference (p := p) (by decide) hmedium 4
  refine ⟨by decide, hmedium, hhalted.mpr (by decide), ?_, ?_, ?_⟩
  · rw [hregisters]
    decide
  · rw [houtput]
    decide
  · rw [hsteps]
    decide

end RegisterMachine
