import RegisterMachine.Effect

/-!
# What instructions print, and where they go on

* **`Instr.exists_char_of_effect`** — the print of a character, which may have no effect.
* **`Instr.Prints`** — the text an instruction prints, if it is one that prints.
* **`Instr.prints_of_effect`** — it is what the instruction sends to the sink, and such an instruction
  leaves the registers alone.
* **`Instr.isPrint`** — the instructions that print, whatever they print.
* **`Instr.effect_eq_error_iff`** — only the print of a character can be impossible.
* **`Instr.transfer_eq_jump_iff`** — only a jump goes on at an address of its own.
* **`Instr.effect_test_of_eq`**, **`Instr.effect_test_of_ne`** — both outcomes of a comparison.
* **`Instr.transfer_eq_skip_iff`** — only a comparison of equal values leaves an instruction out.
-/

namespace RegisterMachine.Instr

/-- The print of a character has an effect only if there is one, and then it prints that and does nothing
else. -/
theorem exists_char_of_effect {value : Operand} {registers : RegisterFile} {effect : Effect}
    (h : (printChar value).effect registers = .ok effect) :
    ∃ c, (registers.resolve value).char? = some c ∧
      effect = { registers, output := some (String.utf8EncodeChar c) } := by
  cases hc : (registers.resolve value).char? with
  | none => simp [Instr.effect, hc] at h
  | some c =>
    simp only [Instr.effect, hc, Except.ok.injEq] at h
    exact ⟨c, rfl, h.symm⟩

/-- An instruction prints a text: a number its signed decimal, a character its encoding. -/
inductive Prints (registers : RegisterFile) : Instr → List UInt8 → Prop where
  | number (value : Operand) :
      Prints registers (.printNumber value) (Text.utf8 (registers.resolve value).decimal)
  | char {value : Operand} {c : Char} (hc : (registers.resolve value).char? = some c) :
      Prints registers (.printChar value) (String.utf8EncodeChar c)

theorem prints_of_effect {i : Instr} {registers : RegisterFile} {effect : Effect}
    {data : List UInt8} (h : i.effect registers = .ok effect) (hdata : effect.output = some data) :
    i.Prints registers data := by
  cases i with
  | printNumber value =>
    cases h
    cases hdata
    exact .number value
  | printChar value =>
    obtain ⟨c, hc, rfl⟩ := exists_char_of_effect h
    cases hdata
    exact .char hc
  | _ => cases h; cases hdata

/-- The instruction prints something, or cannot for lack of a character. -/
def isPrint : Instr → Bool
  | printNumber _ | printChar _ => true
  | _ => false

theorem isPrint_eq_isSome_output {i : Instr} {registers : RegisterFile} {effect : Effect}
    (h : i.effect registers = .ok effect) : i.isPrint = effect.output.isSome := by
  cases i with
  | printChar value =>
    obtain ⟨c, _, rfl⟩ := exists_char_of_effect h
    rfl
  | _ => cases h; rfl

theorem effect_eq_error_iff {i : Instr} {registers : RegisterFile} {value : Word} :
    i.effect registers = .error value ↔
      ∃ operand, i = .printChar operand ∧ registers.resolve operand = value ∧ value.char? = none := by
  constructor
  · intro h
    cases i with
    | printChar operand =>
      cases hc : (registers.resolve operand).char? with
      | none =>
        simp only [effect, hc, Except.error.injEq] at h
        exact ⟨operand, rfl, h, h ▸ hc⟩
      | some c => simp [effect, hc] at h
    | _ => cases h
  · rintro ⟨operand, rfl, rfl, hc⟩
    simp only [effect, hc]

theorem transfer_eq_jump_iff {i : Instr} {registers : RegisterFile} {effect : Effect}
    (h : i.effect registers = .ok effect) {address : Word} :
    effect.transfer = .jump address ↔
      ∃ target, i = .goto target ∧ registers.resolve target = address := by
  constructor
  · intro hjump
    cases i with
    | goto target =>
      cases h
      exact ⟨target, rfl, Transfer.jump.inj hjump⟩
    | printChar value =>
      obtain ⟨c, _, rfl⟩ := exists_char_of_effect h
      cases hjump
    | test left right =>
      cases h
      by_cases heq : registers.resolve left = registers.resolve right <;> simp [heq] at hjump
    | _ => cases h; cases hjump
  · rintro ⟨target, rfl, rfl⟩
    cases h
    rfl

/-- The instruction compares equal values, so that the instruction after it is left out. -/
def skips (registers : RegisterFile) : Instr → Bool
  | test left right => decide (registers.resolve left = registers.resolve right)
  | _ => false

theorem effect_test_of_eq {left right : Operand} {registers : RegisterFile}
    (h : registers.resolve left = registers.resolve right) :
    (test left right).effect registers = .ok { registers, transfer := .skip } := by
  simp only [effect, if_pos h]

theorem effect_test_of_ne {left right : Operand} {registers : RegisterFile}
    (h : registers.resolve left ≠ registers.resolve right) :
    (test left right).effect registers = .ok { registers } := by
  simp only [effect, if_neg h]

theorem transfer_eq_skip_iff {i : Instr} {registers : RegisterFile} {effect : Effect}
    (h : i.effect registers = .ok effect) : effect.transfer = .skip ↔ i.skips registers = true := by
  cases i with
  | printChar value =>
    obtain ⟨c, _, rfl⟩ := exists_char_of_effect h
    exact ⟨nofun, nofun⟩
  | test left right =>
    cases h
    by_cases heq : registers.resolve left = registers.resolve right <;> simp [skips, heq]
  | _ => cases h; exact ⟨nofun, nofun⟩

end RegisterMachine.Instr
