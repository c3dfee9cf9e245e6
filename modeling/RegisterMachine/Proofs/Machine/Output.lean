import Mathlib.Data.List.Forall2
import RegisterMachine.Proofs.Effect
import RegisterMachine.Proofs.Machine.Reference
import RegisterMachine.Proofs.Machine.Sessions

/-!
# Output

What a machine prints on a medium that never fails is a text, made of one part for each instruction that
printed.

* **`Print`**, **`Instr.print?`** — what an instruction is to print: a number or a character.
* **`Print.WellFormed`** — the bytes that stand for it, said apart from how they are computed.
* **`Instr.wellFormed_of_effect`** — instructions send these bytes and no others.
* **`executedPrints`**, **`stored_after`** — what a row of attempts stores, one part after the other.
* **`step_eq_invalid_iff`** — the values without a character.
* **`output_well_formed`** — the whole output.
-/

namespace RegisterMachine

/-! ## What instructions print -/

/-- What is to be printed: a value in decimal, or the character of a value. -/
inductive Print where
  | number (value : Word)
  | char (value : Word)
deriving DecidableEq, Repr

/-- What an instruction is to print, if it is one that prints. -/
def Instr.print? (registers : RegisterFile) : Instr → Option Print
  | .printNumber operand => some (.number (registers.resolve operand))
  | .printChar operand => some (.char (registers.resolve operand))
  | _ => none

/-- The bytes are a well-formed text for what is to be printed: the encoded canonical decimal of a number,
or one to four bytes that decode to one character, whose code point is the value. -/
inductive Print.WellFormed : Print → List UInt8 → Prop where
  | number {value : Word} {s : String} (hs : Text.IsDecimal value.toInt s) :
      WellFormed (.number value) s.toUTF8.data.toList
  | char {value : Word} {c : Char} {bytes : List UInt8}
      (hlength : 1 ≤ bytes.length ∧ bytes.length ≤ 4)
      (hdecode : bytes.toByteArray.utf8Decode? = some #[c]) (hvalue : (c.toNat : Int) = value.toInt) :
      WellFormed (.char value) bytes

namespace Print

theorem wellFormed_number (value : Word) : WellFormed (.number value) (Text.utf8 value.decimal) := by
  rw [Text.utf8_eq_toUTF8]
  exact .number (Text.isDecimal_signedDecimal value.toInt)

theorem wellFormed_char {value : Word} {c : Char} (h : value.char? = some c) :
    WellFormed (.char value) (String.utf8EncodeChar c) := by
  refine .char (c := c) ?_ ?_ ?_
  · rw [String.length_utf8EncodeChar]
    exact ⟨Char.utf8Size_pos c, Char.utf8Size_le_four c⟩
  · rw [← List.utf8Encode_singleton]
    exact List.utf8Decode?_utf8Encode
  · unfold Word.char? at h
    split at h
    · next hvalid =>
      cases h
      have hpoint : (Char.ofNat value.toInt.toNat).toNat = value.toInt.toNat := by
        rw [Char.ofNat, dif_pos hvalid.2]
        rfl
      rw [hpoint]
      exact Int.toNat_of_nonneg hvalid.1
    · cases h

theorem WellFormed.isValidUTF8 {print : Print} {bytes : List UInt8} (h : print.WellFormed bytes) :
    bytes.toByteArray.IsValidUTF8 := by
  cases h with
  | @number value s _ =>
    have hbytes : s.toUTF8.data.toList.toByteArray = s.toByteArray :=
      ByteArray.ext (by rw [List.data_toByteArray, Array.toArray_toList]; rfl)
    rw [hbytes]
    exact s.isValidUTF8
  | char _ hdecode _ =>
    rw [← ByteArray.isSome_utf8Decode?_iff, hdecode]
    rfl

end Print

/-- **Instructions send well-formed texts**, and those that print nothing send nothing. -/
theorem Instr.wellFormed_of_effect {i : Instr} {registers : RegisterFile} {effect : Effect}
    (h : i.effect registers = .ok effect) :
    Option.Rel Print.WellFormed (i.print? registers) effect.output := by
  cases i with
  | printNumber operand =>
    cases h
    exact .some (Print.wellFormed_number _)
  | printChar operand =>
    obtain ⟨c, hc, rfl⟩ := exists_char_of_effect h
    exact .some (Print.wellFormed_char hc)
  | _ => cases h; exact .none

/-! ## What a machine prints -/

namespace Machine

open Medium

variable {μ : Type} [Medium μ]

/-- What the next attempt prints, if it executes an instruction that prints. -/
def executedPrint? (m : Machine μ) : Option Print :=
  if m.executes then m.fetch?.bind (Instr.print? m.registers) else none

/-- What the first `n` attempts print, in the order of execution. -/
def executedPrints (m : Machine μ) (n : Nat) : List Print :=
  (m.trail n).filterMap executedPrint?

theorem executedPrints_succ (m : Machine μ) (n : Nat) :
    m.executedPrints (n + 1) = m.executedPrints n ++ (m.after n).executedPrint?.toList := by
  rw [executedPrints, trail_succ, List.filterMap_append]
  cases hprint : (m.after n).executedPrint? with
  | none => rw [List.filterMap_cons_none hprint]; rfl
  | some print => rw [List.filterMap_cons_some hprint]; rfl

theorem executedPrint?_of_not_executes {m : Machine μ} (h : m.executes = false) :
    m.executedPrint? = none := by
  rw [executedPrint?, h]
  rfl

theorem stored_step {m : Machine μ} (h : NeverFails m.sink.medium) :
    ∃ text, Option.Rel Print.WellFormed m.executedPrint? text ∧
      m.step.2.sink.stored = m.sink.stored ++ text.getD [] := by
  cases m.attempt with
  | halted _ hexecutes hstep =>
    rw [hstep, executedPrint?_of_not_executes hexecutes]
    exact ⟨none, .none, Array.appendList_nil.symm⟩
  | invalid _ _ hexecutes hstep =>
    rw [hstep, executedPrint?_of_not_executes hexecutes]
    exact ⟨none, .none, Array.appendList_nil.symm⟩
  | blocked _ _ _ _ _ hstep =>
    exact absurd ⟨_, congrArg Prod.fst hstep⟩ (not_sinkFails_of_neverFails h)
  | executed hfetch heffect hsend hexecutes hstep =>
    rw [hstep, executedPrint?, hexecutes, if_pos rfl, hfetch, Option.bind_some]
    exact ⟨_, Instr.wellFormed_of_effect heffect, stored_of_send hsend⟩

/-- **A row of attempts stores one well-formed text after the other.** -/
theorem stored_after {m : Machine μ} (h : NeverFails m.sink.medium) (n : Nat) :
    ∃ texts, List.Forall₂ Print.WellFormed (m.executedPrints n) texts ∧
      (m.after n).sink.stored = m.sink.stored ++ texts.flatten := by
  induction n with
  | zero => exact ⟨[], .nil, Array.appendList_nil.symm⟩
  | succ n ih =>
    obtain ⟨texts, htexts, hstored⟩ := ih
    obtain ⟨text, htext, hnext⟩ := stored_step (neverFails_after h n)
    refine ⟨texts ++ text.toList, ?_, ?_⟩
    · rw [executedPrints_succ]
      refine List.rel_append htexts ?_
      generalize (m.after n).executedPrint? = print? at htext
      cases htext with
      | none => exact .nil
      | some hprint => exact .cons hprint .nil
    · rw [after, hnext, hstored, Sink.stored_append, List.flatten_append]
      cases text with
      | none => rfl
      | some text => rw [Option.getD_some, Option.toList_some, List.flatten_singleton]

theorem isValidUTF8_flatten {prints : List Print} {texts : List (List UInt8)}
    (h : List.Forall₂ Print.WellFormed prints texts) : texts.flatten.toByteArray.IsValidUTF8 := by
  induction h with
  | nil => exact ByteArray.isValidUTF8_empty
  | cons hprint _ ih =>
    rw [List.flatten_cons, List.toByteArray_append]
    exact hprint.isValidUTF8.append ih

/-- **The values without a character.** Nothing is taken off a value before the check. -/
theorem step_eq_invalid_iff {m : Machine μ} {operand : Operand}
    (hfetch : m.fetch? = some (.printChar operand)) :
    m.step.1 = .error (.invalidCodePoint (m.registers.resolve operand) m.pc) ↔
      ¬ Reference.IsCodePoint (m.registers.resolve operand).toInt := by
  have hnone : (m.registers.resolve operand).char? = none ↔
      ¬ Reference.IsCodePoint (m.registers.resolve operand).toInt := by
    rw [Word.char?_eq]
    by_cases hpoint : Reference.IsCodePoint (m.registers.resolve operand).toInt
    · rw [if_pos hpoint]
      exact ⟨nofun, absurd hpoint⟩
    · rw [if_neg hpoint]
      exact ⟨fun _ => hpoint, fun _ => rfl⟩
  rw [← hnone]
  constructor
  · intro hstep
    obtain ⟨_, ⟨i, hfetch', heffect⟩, _⟩ := invalid_of_step_error hstep
    obtain ⟨_, _, _, hchar⟩ := Instr.effect_eq_error_iff.mp heffect
    exact hchar
  · intro hchar
    have heffect := Instr.effect_eq_error_iff.mpr ⟨operand, rfl, rfl, hchar⟩
    rw [step_of_effect_error hfetch heffect]

/-- On a medium that never fails, printing a character fails for lack of a character only. -/
theorem eq_invalid_of_neverFails {m : Machine μ} {operand : Operand} {e : ExecutionError}
    (h : NeverFails m.sink.medium) (hfetch : m.fetch? = some (.printChar operand))
    (herror : m.step.1 = .error e) : e = .invalidCodePoint (m.registers.resolve operand) m.pc := by
  cases e with
  | output fault => exact absurd ⟨fault, herror⟩ (not_sinkFails_of_neverFails h)
  | invalidCodePoint value pc =>
    obtain ⟨rfl, ⟨i, hfetch', heffect⟩, _⟩ := invalid_of_step_error herror
    rw [hfetch] at hfetch'
    cases hfetch'
    obtain ⟨_, heq, rfl, _⟩ := Instr.effect_eq_error_iff.mp heffect
    cases heq
    rfl

/-! ## The whole output -/

/-- **Everything a machine prints is well-formed.** After any number of attempts on a medium that never
fails, the stored bytes are a text in UTF-8. It is made of one well-formed part for each instruction that
printed, in the order of execution. The print of a character fails on whatever medium if its value, whole
as it is, is negative, a surrogate, or beyond the last code point, and on a medium that never fails it fails
for no other reason. -/
theorem output_well_formed {p : Program} {medium : μ} (hmedium : NeverFails medium) :
    (∀ n,
      let start := Machine.start p medium
      let stored := (start.after n).sink.stored
      (ByteArray.mk stored).IsValidUTF8 ∧
        ∃ texts, List.Forall₂ Print.WellFormed (start.executedPrints n) texts ∧
          stored.toList = texts.flatten) ∧
      ∀ (m : Machine μ) (operand : Operand), m.fetch? = some (.printChar operand) →
        let value := m.registers.resolve operand
        (m.step.1 = .error (.invalidCodePoint value m.pc) ↔
            value.toInt < 0 ∨ (0xD800 ≤ value.toInt ∧ value.toInt ≤ 0xDFFF) ∨
              0x10FFFF < value.toInt) ∧
          (NeverFails m.sink.medium → ∀ e, m.step.1 = .error e →
            e = .invalidCodePoint value m.pc) := by
  refine ⟨fun n => ?_, fun m operand hfetch => ⟨?_, fun h e => eq_invalid_of_neverFails h hfetch⟩⟩
  · obtain ⟨texts, htexts, hstored⟩ := stored_after (m := Machine.start p medium) hmedium n
    have hbytes : ((Machine.start p medium).after n).sink.stored.toList = texts.flatten := by
      rw [hstored, Array.toList_appendList]
      rfl
    refine ⟨?_, texts, htexts, hbytes⟩
    have hvalid := isValidUTF8_flatten htexts
    rw [← hbytes] at hvalid
    have hsame : ((Machine.start p medium).after n).sink.stored.toList.toByteArray =
        ByteArray.mk ((Machine.start p medium).after n).sink.stored :=
      ByteArray.ext List.data_toByteArray
    rwa [hsame] at hvalid
  · rw [step_eq_invalid_iff hfetch]
    unfold Reference.IsCodePoint
    omega

/-- A negative number and an accented letter are printed, and then there is no character for -1. -/
theorem output_well_formed_accented :
    let p : Program := #[.dec (.literal 0) (.literal 1), .printNumber (.register 0),
      .printChar (.literal 233), .printChar (.register 0)]
    let start := Machine.start p Unlimited.mk
    let m := start.after 3
    NeverFails Unlimited.mk ∧ (ByteArray.mk m.sink.stored).IsValidUTF8 ∧
      m.sink.stored.toList = [0x2D, 0x31, 0xC3, 0xA9] ∧
      start.executedPrints 3 = [.number (-1), .char 233] ∧
      m.step.1 = .error (.invalidCodePoint (-1) 3) := by
  intro p start m
  have hmedium := neverFails_unlimited Unlimited.mk
  obtain ⟨hruns, hfails⟩ := output_well_formed (p := p) hmedium
  have hfetch : m.fetch? = some (.printChar (.register 0)) := by decide +kernel
  have hvalue : m.registers.resolve (.register 0) = -1 := by decide +kernel
  have hpc : m.pc = 3 := by decide +kernel
  obtain ⟨hinvalid, _⟩ := hfails m (.register 0) hfetch
  rw [hvalue, hpc] at hinvalid
  refine ⟨hmedium, (hruns 3).1, by decide +kernel, by decide +kernel, hinvalid.mpr ?_⟩
  exact .inl (by decide)

end Machine

end RegisterMachine
