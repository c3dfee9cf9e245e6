import RegisterMachine.Proofs.Machine.Attempts
import RegisterMachine.Sink.Media

/-!
# Taking back an instruction

A subtraction takes back an addition with the same operands, unless the addition has changed an operand:
the register that it adds to can be the one that names the register, or the one that holds the amount. Then
the subtraction goes elsewhere, or takes another amount, and it never makes up for that by chance.

* **`Operand.RefersTo`** — an operand looks into a register; **`resolve_set_of_not_refersTo`** — no other
  operand is changed by writing it.
* **`Instr.Opposite`** — two instructions that take each other back, and **`RegisterFile.addMultiple`** —
  what either of them does, up to the sign.
* **`addMultiple_neg_of_apart`**, **`get_addMultiple_neg_of_aliased`** — the two cases.
* **`opposite_undone_iff_not_aliased`** — the machine after both instructions.
-/

namespace RegisterMachine

/-! ## Operands that look into a register -/

/-- The operand is a reference to the register `id`. -/
def Operand.RefersTo (id : Word) (o : Operand) : Prop :=
  ∃ b, o = .register b ∧ Word.ofByte b = id

namespace RegisterFile

theorem resolve_of_refersTo {o : Operand} {id : Word} (h : o.RefersTo id) (r : RegisterFile) :
    r.resolve o = r.get id := by
  obtain ⟨b, rfl, rfl⟩ := h
  rfl

theorem resolve_set_of_not_refersTo {o : Operand} {id : Word} (h : ¬ o.RefersTo id)
    (r : RegisterFile) (value : Word) : (r.set id value).resolve o = r.resolve o := by
  cases o with
  | literal _ => rfl
  | register b =>
    have hne : id ≠ .ofByte b := fun heq => h ⟨b, rfl, heq.symm⟩
    exact (get_set r id value _).trans (if_neg hne)

theorem resolve_set_get (r : RegisterFile) (id : Word) (o : Operand) :
    (r.set id (r.get id)).resolve o = r.resolve o := by
  cases o with
  | literal _ => rfl
  | register b => exact get_set_get r id _

/-! ## Opposite instructions -/

/-- Adds a multiple of the amount `delta` to the register that `register` names. -/
def addMultiple (r : RegisterFile) (factor : Word) (register delta : Operand) : RegisterFile :=
  r.set (r.resolve register) (r.get (r.resolve register) + factor * r.resolve delta)

end RegisterFile

/-- One of the instructions adds what the other subtracts, both with the same operands. -/
inductive Instr.Opposite (register delta : Operand) : Instr → Instr → Prop where
  | incDec : Opposite register delta (.inc register delta) (.dec register delta)
  | decInc : Opposite register delta (.dec register delta) (.inc register delta)

/-- The instructions differ in their sign only. -/
theorem Instr.Opposite.exists_factor {register delta : Operand} {i j : Instr}
    (h : Opposite register delta i j) :
    ∃ factor : Word, factor * factor = 1 ∧ ∀ r : RegisterFile,
      i.effect r = .ok { registers := r.addMultiple factor register delta } ∧
        j.effect r = .ok { registers := r.addMultiple (-factor) register delta } := by
  have hadd (r : RegisterFile) : r.add (r.resolve register) (r.resolve delta) =
      r.addMultiple 1 register delta := by
    rw [RegisterFile.add, RegisterFile.addMultiple, Int64.one_mul]
  have hsub (r : RegisterFile) : r.sub (r.resolve register) (r.resolve delta) =
      r.addMultiple (-1) register delta := by
    rw [RegisterFile.sub, RegisterFile.addMultiple, Int64.neg_mul, Int64.one_mul,
      Int64.sub_eq_add_neg]
  cases h with
  | incDec =>
    refine ⟨1, rfl, fun r => ⟨?_, ?_⟩⟩
    · rw [effect, hadd]
    · rw [effect, hsub]
  | decInc =>
    refine ⟨-1, rfl, fun r => ⟨?_, ?_⟩⟩
    · rw [effect, hsub]
    · rw [effect, hadd]
      rfl

namespace RegisterFile

variable {r : RegisterFile} {register delta : Operand} {factor : Word}

/-- **Operands that are not changed** lead back: all that is left is that the register was written. -/
theorem addMultiple_neg_of_apart
    (h : r.resolve delta = 0 ∨
      ¬ register.RefersTo (r.resolve register) ∧ ¬ delta.RefersTo (r.resolve register)) :
    (r.addMultiple factor register delta).addMultiple (-factor) register delta =
      r.set (r.resolve register) (r.get (r.resolve register)) := by
  -- both operands have the same values as before
  have hsame : (r.addMultiple factor register delta).resolve register = r.resolve register ∧
      (r.addMultiple factor register delta).resolve delta = r.resolve delta := by
    rcases h with hzero | ⟨hregister, hdelta⟩
    · rw [addMultiple, hzero, Int64.mul_zero, Int64.add_zero, resolve_set_get, resolve_set_get]
      exact ⟨rfl, hzero⟩
    · exact ⟨resolve_set_of_not_refersTo hregister r _, resolve_set_of_not_refersTo hdelta r _⟩
  obtain ⟨hregister, hdelta⟩ := hsame
  have hback : (r.addMultiple factor register delta).get (r.resolve register) +
      -factor * r.resolve delta = r.get (r.resolve register) := by
    rw [addMultiple, get_set, if_pos rfl]
    grind
  rw [addMultiple, hregister, hdelta, hback, addMultiple, set_set]

/-- **Operands that are changed** do not lead back: the register that was written first holds something
else in the end. -/
theorem get_addMultiple_neg_of_aliased (hfactor : factor * factor = 1) (hdelta : r.resolve delta ≠ 0)
    (h : register.RefersTo (r.resolve register) ∨ delta.RefersTo (r.resolve register)) :
    ((r.addMultiple factor register delta).addMultiple (-factor) register delta).get
      (r.resolve register) ≠ r.get (r.resolve register) := by
  have hfirst : (r.addMultiple factor register delta).get (r.resolve register) =
      r.get (r.resolve register) + factor * r.resolve delta := by
    rw [addMultiple, get_set, if_pos rfl]
  have hmoved : factor * r.resolve delta ≠ 0 := by
    intro hzero
    apply hdelta
    calc r.resolve delta = factor * factor * r.resolve delta := by rw [hfactor, Int64.one_mul]
      _ = factor * (factor * r.resolve delta) := Int64.mul_assoc _ _ _
      _ = 0 := by rw [hzero, Int64.mul_zero]
  by_cases hregister : register.RefersTo (r.resolve register)
  · -- the register names itself, so the second instruction writes another one
    have hself : r.get (r.resolve register) = r.resolve register :=
      (resolve_of_refersTo hregister r).symm
    have helsewhere : (r.addMultiple factor register delta).resolve register ≠ r.resolve register := by
      rw [resolve_of_refersTo hregister, hfirst, hself]
      grind
    rw [addMultiple, get_set, if_neg helsewhere, hfirst]
    grind
  · -- the register holds the amount, so the second instruction takes another one and leaves 0
    have halias := h.resolve_left hregister
    have hamount : r.get (r.resolve register) = r.resolve delta := (resolve_of_refersTo halias r).symm
    have hsame : (r.addMultiple factor register delta).resolve register = r.resolve register :=
      resolve_set_of_not_refersTo hregister r _
    have hleft : ((r.addMultiple factor register delta).addMultiple (-factor) register delta).get
        (r.resolve register) = 0 := by
      rw [addMultiple, hsame, get_set, if_pos rfl, resolve_of_refersTo halias, hfirst, hamount]
      grind
    rw [hleft, hamount]
    exact hdelta.symm

end RegisterFile

/-! ## Both instructions executed -/

namespace Machine

variable {μ : Type} [Medium μ]

/-- Two instructions that do nothing but write registers. -/
theorem after_two_of_writes {m : Machine μ} {i j : Instr} {r r' : RegisterFile}
    (hfirst : m.fetch? = some i) (hsecond : m.step.2.fetch? = some j)
    (heffect : i.effect m.registers = .ok { registers := r })
    (heffect' : j.effect r = .ok { registers := r' }) :
    m.executions 2 = 2 ∧ (m.after 2).sink = m.sink ∧ (m.after 2).registers = r' := by
  have hone := step_of_output_none hfirst heffect rfl
  have hregisters : m.step.2.registers = r := by rw [hone]; rfl
  have htwo := step_of_output_none hsecond (hregisters ▸ heffect') rfl
  refine ⟨?_, ?_, ?_⟩
  · rw [executions_eq_iff]
    intro k hk
    obtain rfl | rfl : k = 0 ∨ k = 1 := by omega
    · exact executes_of_step_ok (isHalted_of_fetch? hfirst) (congrArg Prod.fst hone)
    · exact executes_of_step_ok (isHalted_of_fetch? hsecond) (congrArg Prod.fst htwo)
  · show m.step.2.step.2.sink = m.sink
    rw [htwo, hone]
    rfl
  · show m.step.2.step.2.registers = r'
    rw [htwo]
    rfl

/-- **Exactly when an instruction is taken back.** Let a machine execute an addition and then a subtraction
with the same operands, or the subtraction first. Let `id` be the register that is named before them, and
`amount` the amount. All registers hold what they held exactly if the amount is 0 or neither operand is a
reference to `id`. The register file is then the same but for `id`, which counts as written. -/
theorem opposite_undone_iff_not_aliased {m : Machine μ} {register delta : Operand} {i j : Instr}
    (h : Instr.Opposite register delta i j) (hfirst : m.fetch? = some i)
    (hsecond : m.step.2.fetch? = some j) :
    let id := m.registers.resolve register
    let amount := m.registers.resolve delta
    let last := m.after 2
    m.executions 2 = 2 ∧ last.sink = m.sink ∧
      ((∀ x, last.registers.get x = m.registers.get x) ↔
        amount = 0 ∨ ¬ register.RefersTo id ∧ ¬ delta.RefersTo id) ∧
      ((∀ x, last.registers.get x = m.registers.get x) →
        last.registers = m.registers.set id (m.registers.get id) ∧
          ∀ x, x ∈ last.registers ↔ x = id ∨ x ∈ m.registers) := by
  intro id amount last
  obtain ⟨factor, hfactor, heffects⟩ := h.exists_factor
  obtain ⟨hexecuted, hsink, hregisters⟩ :=
    after_two_of_writes hfirst hsecond (heffects _).1 (heffects _).2
  have hiff : (∀ x, last.registers.get x = m.registers.get x) ↔
      amount = 0 ∨ ¬ register.RefersTo id ∧ ¬ delta.RefersTo id := by
    constructor
    · intro hback
      by_cases hamount : amount = 0
      · exact .inl hamount
      · have hlost : ¬ (register.RefersTo id ∨ delta.RefersTo id) := by
          intro halias
          apply RegisterFile.get_addMultiple_neg_of_aliased hfactor hamount halias
          rw [← hregisters]
          exact hback id
        exact .inr ⟨fun hregister => hlost (.inl hregister), fun hdelta => hlost (.inr hdelta)⟩
    · intro hapart x
      rw [hregisters, RegisterFile.addMultiple_neg_of_apart hapart]
      exact RegisterFile.get_set_get m.registers id x
  refine ⟨hexecuted, hsink, hiff, fun hback => ?_⟩
  have hset : last.registers = m.registers.set id (m.registers.get id) := by
    rw [hregisters]
    exact RegisterFile.addMultiple_neg_of_apart (hiff.mp hback)
  refine ⟨hset, fun x => ?_⟩
  rw [hset, RegisterFile.mem_set, eq_comm]

/-- Adding and subtracting what register 1 holds leads back where register 2 names register 300, but not where
register 1 names itself, although the smallest word is its own negative. -/
theorem opposite_undone_iff_not_aliased_pointer :
    let least : Word := -9223372036854775808
    let p : Program := #[.inc (.register 2) (.register 1), .dec (.register 2) (.register 1)]
    let q : Program := #[.dec (.literal 1) (.register 1), .inc (.literal 1) (.register 1)]
    let r : RegisterFile := (RegisterFile.empty.set 1 least).set 2 300
    let m : Machine Unlimited := { Machine.start p {} with registers := r }
    let n : Machine Unlimited := { Machine.start q {} with registers := r }
    (m.after 2).registers = r.set 300 0 ∧ 300 ∉ r ∧
      ¬ ∀ x, (n.after 2).registers.get x = n.registers.get x := by
  intro least p q r m n
  obtain ⟨_, _, hback, hleft⟩ := opposite_undone_iff_not_aliased (m := m) .incDec rfl (by decide +kernel)
  obtain ⟨_, _, hlost, _⟩ := opposite_undone_iff_not_aliased (m := n) .decInc rfl (by decide +kernel)
  have hnone : ∀ b : UInt8, Word.ofByte b ≠ 300 := by
    intro b hb
    have hle := (Word.ofByte_bounds b).2
    rw [hb] at hle
    exact absurd hle (by decide)
  refine ⟨?_, by decide +kernel, ?_⟩
  · refine (hleft (hback.mpr (.inr ⟨?_, ?_⟩))).1
    · rintro ⟨b, _, hb⟩
      exact hnone b hb
    · rintro ⟨b, _, hb⟩
      exact hnone b hb
  · rw [hlost]
    rintro (hzero | ⟨_, hapart⟩)
    · exact absurd hzero (by decide +kernel)
    · exact hapart ⟨1, rfl, rfl⟩

end Machine

end RegisterMachine
