import Mathlib.Logic.ExistsUnique
import RegisterMachine.ExecutionError
import RegisterMachine.Proofs.Text

/-!
# Messages

The text of an error tells the error: what the error is about stands in it, between words that say where
each part ends. Only the causes of a fault do not stand in it.

* **`Text.hexByte_injective`**, **`Opcode.mnemonic_injective`**, **`Word.decimal_injective`** — bytes, opcodes
  and words can be read off their texts.
* **`ExecutionError.Alike`**, **`Error.Alike`** — errors that are equal if faults are compared by their texts.
* **`DecodeError.message_injective`**, **`ExecutionError.message_eq_iff`**, **`Error.message_eq_iff`** — so can
  errors off theirs.
* **`DecodeError.Told`**, **`ExecutionError.Told`** — all texts of an error, written out.
* **`messages_determine_failures`** — the message of any error determines it.
-/

namespace RegisterMachine

open Text

/-! ## Parts of messages -/

theorem Text.hexByte_injective {a b : UInt8} (h : hexByte a = hexByte b) : a = b := by
  have hdigit : ∀ m < 16, ∀ n < 16, upperHexDigit m = upperHexDigit n → m = n := by decide
  have hlists := String.ofList_injective h
  simp only [List.cons.injEq, and_true] at hlists
  have ha := a.toNat_lt
  have hb := b.toNat_lt
  have hhigh := hdigit _ (by omega) _ (by omega) hlists.1
  have hlow := hdigit _ (by omega) _ (by omega) hlists.2
  apply UInt8.toNat_inj.mp
  omega

theorem Opcode.mnemonic_injective {op op' : Opcode} (h : op.mnemonic = op'.mnemonic) : op = op' := by
  cases op <;> cases op' <;> first | rfl | simp [mnemonic] at h

theorem Opcode.isUpper_mnemonic (op : Opcode) : ∀ c ∈ op.mnemonic.toList, c.isUpper = true := by
  cases op <;> simp [mnemonic]

theorem Word.decimal_injective {v w : Word} (h : v.decimal = w.decimal) : v = w :=
  Int64.toInt_inj.mp (signedDecimal_injective h)

/-! ## Whole messages

Each proof takes the text apart from the front. A mnemonic ends at the first character that is no capital,
a number at the first that is no digit; what stands between is the same in all messages of the kind. The
texts are opened by `show`, since deriving the equations of `message` takes long with so many literals. -/

theorem DecodeError.toList_message_unknownOpcode (byte : UInt8) (offset : Nat) :
    (unknownOpcode byte offset).message.toList =
      "unknown opcode 0x".toList ++ ((hexByte byte).toList ++
        (" at byte offset ".toList ++ (decimal offset).toList)) := by
  show ("unknown opcode 0x" ++ hexByte byte ++ " at byte offset " ++ decimal offset).toList = _
  simp only [String.toList_append, List.append_assoc]

theorem DecodeError.toList_message_truncated (opcode : Opcode) (offset needed remaining : Nat) :
    (truncated opcode offset needed remaining).message.toList =
      "truncated ".toList ++ (opcode.mnemonic.toList ++ (" at byte offset ".toList ++
        ((decimal offset).toList ++ (": needs ".toList ++ ((decimal needed).toList ++
          (" argument bytes, ".toList ++ ((decimal remaining).toList ++ " left".toList))))))) := by
  show ("truncated " ++ opcode.mnemonic ++ " at byte offset " ++ decimal offset ++ ": needs " ++
    decimal needed ++ " argument bytes, " ++ decimal remaining ++ " left").toList = _
  simp only [String.toList_append, List.append_assoc]

theorem DecodeError.message_injective {e e' : DecodeError} (h : e.message = e'.message) : e = e' := by
  have hchars := congrArg String.toList h
  cases e with
  | unknownOpcode byte offset =>
    rw [toList_message_unknownOpcode] at hchars
    cases e' with
    | unknownOpcode byte' offset' =>
      rw [toList_message_unknownOpcode, List.append_cancel_left_eq] at hchars
      obtain ⟨hbyte, hrest⟩ := List.append_inj hchars (by simp [hexByte])
      rw [List.append_cancel_left_eq] at hrest
      rw [hexByte_injective (String.toList_inj.mp hbyte),
        decimal_injective (String.toList_inj.mp hrest)]
    | truncated =>
      rw [toList_message_truncated] at hchars
      -- the first letters differ
      exact absurd (congrArg List.head? hchars) (by simp)
  | truncated opcode offset needed remaining =>
    rw [toList_message_truncated] at hchars
    cases e' with
    | unknownOpcode =>
      rw [toList_message_unknownOpcode] at hchars
      exact absurd (congrArg List.head? hchars) (by simp)
    | truncated opcode' offset' needed' remaining' =>
      rw [toList_message_truncated, List.append_cancel_left_eq] at hchars
      have hopcode := append_inj_of_forall opcode.isUpper_mnemonic opcode'.isUpper_mnemonic (by simp)
        (by simp) hchars
      have hoffset := decimal_append_inj (by simp) (by simp) (List.append_cancel_left hopcode.2)
      have hneeded := decimal_append_inj (by simp) (by simp) (List.append_cancel_left hoffset.2)
      have hremaining := decimal_append_inj (by simp) (by simp) (List.append_cancel_left hneeded.2)
      rw [Opcode.mnemonic_injective (String.toList_inj.mp hopcode.1), hoffset.1, hneeded.1, hremaining.1]

/-- Equal errors, but that faults are compared by their texts. -/
inductive ExecutionError.Alike : ExecutionError → ExecutionError → Prop where
  | output {fault fault' : Fault} (htext : fault.text = fault'.text) : Alike (output fault) (output fault')
  | invalidCodePoint (value : Word) (pc : Nat) :
      Alike (invalidCodePoint value pc) (invalidCodePoint value pc)

/-- Equal errors, but that faults are compared by their texts. -/
inductive Error.Alike : Error → Error → Prop where
  | decode (e : DecodeError) : Alike (decode e) (decode e)
  | exec {e e' : ExecutionError} (h : e.Alike e') : Alike (exec e) (exec e')

theorem ExecutionError.toList_message_output (fault : Fault) :
    (output fault).message.toList = "output error: ".toList ++ fault.text.toList :=
  String.toList_append

theorem ExecutionError.toList_message_invalidCodePoint (value : Word) (pc : Nat) :
    (invalidCodePoint value pc).message.toList =
      "PRINTB at pc ".toList ++ ((decimal pc).toList ++ (": ".toList ++
        (value.decimal.toList ++ " is not a valid character code point".toList))) := by
  show ("PRINTB at pc " ++ decimal pc ++ ": " ++ value.decimal ++
    " is not a valid character code point").toList = _
  simp only [String.toList_append, List.append_assoc]

theorem ExecutionError.alike_of_message_eq {e e' : ExecutionError} (h : e.message = e'.message) :
    e.Alike e' := by
  have hchars := congrArg String.toList h
  cases e with
  | output fault =>
    rw [toList_message_output] at hchars
    cases e' with
    | output fault' =>
      rw [toList_message_output, List.append_cancel_left_eq] at hchars
      exact .output (String.toList_inj.mp hchars)
    | invalidCodePoint =>
      rw [toList_message_invalidCodePoint] at hchars
      -- the first letters differ
      exact absurd (congrArg List.head? hchars) (by simp)
  | invalidCodePoint value pc =>
    rw [toList_message_invalidCodePoint] at hchars
    cases e' with
    | output =>
      rw [toList_message_output] at hchars
      exact absurd (congrArg List.head? hchars) (by simp)
    | invalidCodePoint value' pc' =>
      rw [toList_message_invalidCodePoint, List.append_cancel_left_eq] at hchars
      have hpc := decimal_append_inj (by simp) (by simp) hchars
      have hvalue := List.append_cancel_right (List.append_cancel_left hpc.2)
      rw [Word.decimal_injective (String.toList_inj.mp hvalue), hpc.1]
      exact .invalidCodePoint value' pc'

theorem ExecutionError.message_eq_iff {e e' : ExecutionError} : e.message = e'.message ↔ e.Alike e' := by
  refine ⟨alike_of_message_eq, fun h => ?_⟩
  cases h with
  | output htext => exact congrArg ("output error: " ++ ·) htext
  | invalidCodePoint => rfl

/-- The causes of a fault stand behind the text of the error, so that all texts together tell the error. -/
theorem ExecutionError.eq_of_chain_eq {e e' : ExecutionError} (h : e.chain = e'.chain) : e = e' := by
  obtain ⟨hmessage, hsources⟩ := List.cons.inj h
  cases alike_of_message_eq hmessage with
  | output =>
    obtain ⟨htext, hcauses⟩ := List.cons.inj hsources
    exact congrArg output (Fault.ext htext hcauses)
  | invalidCodePoint => rfl

/-- The phase comes first, so a text that a sink fails with can imitate no failure of another phase. -/
theorem Error.alike_of_message_eq {e e' : Error} (h : e.message = e'.message) : e.Alike e' := by
  have hchars := congrArg String.toList h
  simp only [message] at hchars
  cases e with
  | decode d =>
    cases e' with
    | decode d' =>
      simp only [String.toList_append, List.append_cancel_left_eq] at hchars
      rw [DecodeError.message_injective (String.toList_inj.mp hchars)]
      exact .decode d'
    | exec =>
      -- the first letters differ
      exact absurd (congrArg List.head? hchars) (by simp)
  | exec x =>
    cases e' with
    | decode => exact absurd (congrArg List.head? hchars) (by simp)
    | exec x' =>
      simp only [String.toList_append, List.append_cancel_left_eq] at hchars
      exact .exec (ExecutionError.alike_of_message_eq (String.toList_inj.mp hchars))

theorem Error.message_eq_iff {e e' : Error} : e.message = e'.message ↔ e.Alike e' := by
  refine ⟨alike_of_message_eq, fun h => ?_⟩
  cases h with
  | decode => rfl
  | exec h => exact congrArg ("exec: " ++ ·) (ExecutionError.message_eq_iff.mpr h)

/-! ## Texts written out -/

/-- What the opcodes are called. -/
def Opcode.names : List (Opcode × String) :=
  [(.inc, "INC"), (.dec, "DEC"), (.printNumber, "PRINTA"), (.printChar, "PRINTB"), (.goto, "GOTO"),
    (.test, "TEST")]

theorem Opcode.mem_names_iff {op : Opcode} {name : String} :
    (op, name) ∈ names ↔ op.mnemonic = name := by
  cases op <;> simp [names, mnemonic, eq_comm]

/-- A hexadecimal digit of a byte, in upper case. -/
def Text.nibble (n : Nat) : Char :=
  "0123456789ABCDEF".toList.getD n ' '

theorem Text.hexByte_eq (b : UInt8) :
    hexByte b = String.ofList [nibble (b.toNat / 16), nibble (b.toNat % 16)] := by
  have hdigit : ∀ n < 16, upperHexDigit n = nibble n := by decide
  have hbyte := b.toNat_lt
  rw [hexByte, hdigit _ (by omega), hdigit _ (by omega)]

/-- All that is said of an error of decoding. -/
inductive DecodeError.Told : DecodeError → List String → Prop where
  | unknownOpcode (byte : UInt8) (offset : Nat) :
      Told (unknownOpcode byte offset)
        ["unknown opcode 0x" ++ String.ofList [Text.nibble (byte.toNat / 16), Text.nibble (byte.toNat % 16)] ++
          " at byte offset " ++ toString offset]
  | truncated {opcode : Opcode} {name : String} (hname : (opcode, name) ∈ Opcode.names)
      (offset needed remaining : Nat) :
      Told (truncated opcode offset needed remaining)
        ["truncated " ++ name ++ " at byte offset " ++ toString offset ++ ": needs " ++ toString needed ++
          " argument bytes, " ++ toString remaining ++ " left"]

theorem DecodeError.message_unknownOpcode (byte : UInt8) (offset : Nat) :
    (unknownOpcode byte offset).message = "unknown opcode 0x" ++
      String.ofList [Text.nibble (byte.toNat / 16), Text.nibble (byte.toNat % 16)] ++
        " at byte offset " ++ toString offset := by
  show "unknown opcode 0x" ++ hexByte byte ++ " at byte offset " ++ decimal offset = _
  rw [Text.hexByte_eq]
  rfl

theorem DecodeError.told_iff {e : DecodeError} {texts : List String} : e.Told texts ↔ texts = [e.message] := by
  constructor
  · intro h
    cases h with
    | unknownOpcode byte offset => rw [message_unknownOpcode]
    | truncated hname =>
      obtain rfl := Opcode.mem_names_iff.mp hname
      rfl
  · rintro rfl
    cases e with
    | unknownOpcode byte offset =>
      rw [message_unknownOpcode]
      exact .unknownOpcode byte offset
    | truncated opcode offset needed remaining =>
      exact .truncated (Opcode.mem_names_iff.mpr rfl) offset needed remaining

/-- All that is said of the failure of an instruction, and of its causes. -/
inductive ExecutionError.Told : ExecutionError → List String → Prop where
  | output (fault : Fault) :
      Told (output fault) (("output error: " ++ fault.text) :: fault.text :: fault.sources)
  | invalidCodePoint (value : Word) (pc : Nat) :
      Told (invalidCodePoint value pc)
        ["PRINTB at pc " ++ toString pc ++ ": " ++ toString value.toInt ++
          " is not a valid character code point"]

theorem ExecutionError.message_invalidCodePoint (value : Word) (pc : Nat) :
    (invalidCodePoint value pc).message = "PRINTB at pc " ++ toString pc ++ ": " ++
      toString value.toInt ++ " is not a valid character code point" := by
  show "PRINTB at pc " ++ decimal pc ++ ": " ++ signedDecimal value.toInt ++
    " is not a valid character code point" = _
  rw [signedDecimal_eq_toString]
  rfl

theorem ExecutionError.told_iff {e : ExecutionError} {texts : List String} :
    e.Told texts ↔ texts = e.chain := by
  constructor
  · intro h
    cases h with
    | output => rfl
    | invalidCodePoint value pc => exact congrArg ([·]) (message_invalidCodePoint value pc).symm
  · rintro rfl
    cases e with
    | output fault => exact .output fault
    | invalidCodePoint value pc =>
      show Told _ [(invalidCodePoint value pc).message]
      rw [message_invalidCodePoint]
      exact .invalidCodePoint value pc

/-- **A message determines the failure.** Errors have the same text exactly if they are of the same kind,
inside and outside, and agree in all that they tell, whatever text a sink failed with. -/
theorem messages_determine_failures :
    (∀ e e' : Error, e.message = e'.message ↔ e.Alike e') ∧
      (∀ e e' : DecodeError, e.message = e'.message ↔ e = e') ∧
      ∀ e e' : ExecutionError, e.message = e'.message ↔ e.Alike e' :=
  ⟨fun _ _ => Error.message_eq_iff,
    fun _ _ => ⟨DecodeError.message_injective, congrArg DecodeError.message⟩,
    fun _ _ => ExecutionError.message_eq_iff⟩

/-- Each of these texts belongs to one error only, the first to a sink that fails with the text of another
failure. -/
theorem messages_determine_failures_imitated :
    (∀ e : Error, e.message =
        "exec: output error: PRINTB at pc 1: -1 is not a valid character code point" ↔
      ∃ fault : Fault, e = .exec (.output fault) ∧
        fault.text = "PRINTB at pc 1: -1 is not a valid character code point") ∧
    (∃! e : DecodeError, e.message =
      "truncated TEST at byte offset 3: needs 4 argument bytes, 1 left") ∧
    ∃! e : ExecutionError, e.message =
      "PRINTB at pc 18446744073709551615: -9223372036854775808 is not a valid character code point" := by
  obtain ⟨herror, hdecode, hexec⟩ := messages_determine_failures
  refine ⟨fun e => ⟨fun h => ?_, ?_⟩, ⟨.truncated .test 3 4 1, by decide +kernel, fun e h => ?_⟩,
    ⟨.invalidCodePoint Int64.minValue 18446744073709551615, by decide +kernel, fun e h => ?_⟩⟩
  · have himitated : e.message = Error.message
        (.exec (.output ("PRINTB at pc 1: -1 is not a valid character code point" : String))) := h
    cases (herror _ _).mp himitated with
    | exec halike =>
      cases halike with
      | output htext => exact ⟨_, rfl, htext⟩
  · rintro ⟨fault, rfl, htext⟩
    exact congrArg (fun text => "exec: " ++ ("output error: " ++ text)) htext
  · exact (hdecode _ _).mp h
  · cases (hexec e (.invalidCodePoint Int64.minValue 18446744073709551615)).mp h
    rfl

end RegisterMachine
