import RegisterMachine.Proofs.Machine.Bisimulation
import RegisterMachine.Sink.Media

/-!
# Hidden registers

Operands name the registers 0 to 255 only. The others can be written through them, but nothing reads
what is in them, and nothing tells a register that holds 0 from one that was never written. So what is in
the other registers, and which registers were written, stays hidden: it makes no difference to anything
a machine does.

* **`RegisterFile.Apart`** — two files whose contents differ by a fixed offset in each register.
* **`Instr.sameEffect_of_apart`** — if the offset is 0 where operands read, instructions do the same to both
  files, and the offset is kept.
* **`Apart`**, **`bisimulation_apart`** — machines with such files, and that they go on in bisimulation.
* **`hidden_registers_unobservable`** — sessions of both machines.
-/

namespace RegisterMachine

/-! ## Register files at an offset -/

/-- Each register of the second file holds the content of the first, shifted by the offset. -/
def RegisterFile.Apart (offset : Word → Word) (r r' : RegisterFile) : Prop :=
  ∀ id, r'.get id = r.get id + offset id

/-- The offset is 0 in the registers that operands can name. -/
def Hidden (offset : Word → Word) : Prop :=
  ∀ b : UInt8, offset (.ofByte b) = 0

theorem RegisterFile.Apart.resolve_eq {offset : Word → Word} {r r' : RegisterFile}
    (h : Apart offset r r') (hidden : Hidden offset) (o : Operand) : r'.resolve o = r.resolve o := by
  cases o with
  | literal value => rfl
  | register id =>
    show r'.get _ = r.get _
    rw [h, hidden, Int64.add_zero]

/-- Writing the sum to one file and the shifted sum to the other keeps the offset. -/
theorem RegisterFile.Apart.set {offset : Word → Word} {r r' : RegisterFile} (h : Apart offset r r')
    {id value value' : Word} (hvalue : value' = value + offset id) :
    Apart offset (r.set id value) (r'.set id value') := by
  intro x
  rw [get_set, get_set]
  by_cases hx : id = x
  · rw [if_pos hx, if_pos hx, hvalue, hx]
  · rw [if_neg hx, if_neg hx, h x]

theorem RegisterFile.Apart.add {offset : Word → Word} {r r' : RegisterFile} (h : Apart offset r r')
    (id delta : Word) : Apart offset (r.add id delta) (r'.add id delta) := by
  refine h.set ?_
  rw [h id, Int64.add_assoc, Int64.add_assoc, Int64.add_comm (offset id)]

theorem RegisterFile.Apart.sub {offset : Word → Word} {r r' : RegisterFile} (h : Apart offset r r')
    (id delta : Word) : Apart offset (r.sub id delta) (r'.sub id delta) := by
  refine h.set ?_
  rw [h id, Int64.sub_eq_add_neg, Int64.sub_eq_add_neg, Int64.add_assoc, Int64.add_assoc,
    Int64.add_comm (offset id)]

/-- **Instructions do the same to both files.** They print the same and go on at the same place, and the
files are as far apart as before. -/
theorem Instr.sameEffect_of_apart {offset : Word → Word} {r r' : RegisterFile} (h : r.Apart offset r')
    (hidden : Hidden offset) (i : Instr) :
    SameEffect (RegisterFile.Apart offset) (i.effect r) (i.effect r') := by
  cases i with
  | inc register delta =>
    simp only [Instr.effect, h.resolve_eq hidden]
    exact .ok (h.add _ _)
  | dec register delta =>
    simp only [Instr.effect, h.resolve_eq hidden]
    exact .ok (h.sub _ _)
  | printChar o =>
    simp only [Instr.effect, h.resolve_eq hidden]
    cases (r.resolve o).char? with
    | none => exact .error _
    | some c => exact .ok h
  | _ =>
    simp only [Instr.effect, h.resolve_eq hidden]
    exact .ok h

/-! ## Machines at an offset -/

namespace Machine

variable {μ : Type} {offset : Word → Word} {lead : UInt64} {m m' : Machine μ}

/-- Two machines differ in the offset of their registers, and in that one of them may have executed
more instructions. -/
structure Apart (offset : Word → Word) (lead : UInt64) (m m' : Machine μ) : Prop where
  program : m'.program = m.program
  pc : m'.pc = m.pc
  sink : m'.sink = m.sink
  registers : m.registers.Apart offset m'.registers
  steps : m'.steps = m.steps + lead

/-- The program is translated to itself. -/
theorem Apart.translated (h : Apart offset lead m m') :
    Translated m.program id (RegisterFile.Apart offset) lead m m' :=
  ⟨rfl, by rw [h.program, Array.map_id], h.pc, h.sink, h.registers, h.steps⟩

theorem Translated.apart {p : Program} (h : Translated p id (RegisterFile.Apart offset) lead m m') :
    Apart offset lead m m' :=
  ⟨by rw [h.translation, Array.map_id, h.program], h.pc, h.sink, h.registers, h.steps⟩

variable [Medium μ]

/-- **Machines at an offset answer alike**, and stay as far apart as they are. -/
theorem bisimulation_apart (hidden : Hidden offset) :
    Bisimulation fun m m' : Machine μ => Apart offset lead m m' where
  isHalted_eq h := h.translated.isHalted_eq
  answer_eq h := (h.translated.step fun i _ _ _ hr => i.sameEffect_of_apart hr hidden).1
  step h := (h.translated.step fun i _ _ _ hr => i.sameEffect_of_apart hr hidden).2.apart
  adjust h change := ⟨h.program, h.pc, congrArg (·.adjust change) h.sink, h.registers, h.steps⟩

theorem Apart.after (h : Apart offset lead m m') (hidden : Hidden offset) (n : Nat) :
    Apart offset lead (m.after n) (m'.after n) :=
  (bisimulation_apart hidden).after h n

theorem Apart.answer_eq (h : Apart offset lead m m') (hidden : Hidden offset) (n : Nat) :
    (m'.after n).step.1 = (m.after n).step.1 :=
  (bisimulation_apart hidden).answer_eq (h.after hidden n)

/-- Answers are equal, and the machines are apart as before. -/
def SameAnswer {α : Type} (offset : Word → Word) (lead : UInt64) (x x' : α × Machine μ) : Prop :=
  x'.1 = x.1 ∧ Apart offset lead x.2 x'.2

/-- **Sessions keep machines apart as they are**, and answer the same. -/
theorem Apart.performAll_rel (h : Apart offset lead m m') (hidden : Hidden offset) (budget : Nat)
    (calls : List (Call μ)) :
    Option.Rel (SameAnswer offset lead) (m.performAll budget calls) (m'.performAll budget calls) :=
  (bisimulation_apart hidden).performAll_rel h budget calls

theorem Apart.executedBy_eq (h : Apart offset lead m m') (hidden : Hidden offset) (budget : Nat)
    (calls : List (Call μ)) : m'.executedBy budget calls = m.executedBy budget calls :=
  (bisimulation_apart hidden).executedBy_eq h budget calls

/-! ## Registers that make no difference -/

/-- **Hidden registers are unobservable.** Let two machines execute the same program at the same place on
sinks in the same state, and let their registers 0 to 255 hold the same. Then the same calls end on both
or on neither, and execute as many instructions on both. Where they end they have given the same
answers, and the machines are at the same place, on sinks in the same state. Their registers 0 to 255
hold the same again, and the contents of every register are as far apart as they were. -/
theorem hidden_registers_unobservable {m m' : Machine μ} (hprogram : m'.program = m.program)
    (hpc : m'.pc = m.pc) (hsink : m'.sink = m.sink)
    (hlow : ∀ id : Word, 0 ≤ id → id ≤ 255 → m'.registers.get id = m.registers.get id)
    (budget : Nat) (calls : List (Call μ)) :
    m'.executedBy budget calls = m.executedBy budget calls ∧
      Option.Rel (fun (answers, n) (answers', n') =>
          answers' = answers ∧ n'.pc = n.pc ∧ n'.sink = n.sink ∧
            n'.steps - m'.steps = n.steps - m.steps ∧
            (∀ id : Word, 0 ≤ id → id ≤ 255 → n'.registers.get id = n.registers.get id) ∧
            ∀ id, n'.registers.get id - n.registers.get id =
              m'.registers.get id - m.registers.get id)
        (m.performAll budget calls) (m'.performAll budget calls) := by
  let offset : Word → Word := fun id => m'.registers.get id - m.registers.get id
  let lead : UInt64 := m'.steps - m.steps
  have hidden : Hidden offset := by
    intro b
    obtain ⟨hnonneg, hle⟩ := Word.ofByte_bounds b
    show m'.registers.get _ - m.registers.get _ = 0
    rw [hlow _ hnonneg hle, Int64.sub_self]
  have hapart : Apart offset lead m m' := by
    refine ⟨hprogram, hpc, hsink, fun id => ?_, ?_⟩
    · show m'.registers.get id = m.registers.get id + (m'.registers.get id - m.registers.get id)
      grind
    · show m'.steps = m.steps + (m'.steps - m.steps)
      grind
  refine ⟨hapart.executedBy_eq hidden budget calls, ?_⟩
  have hrel := hapart.performAll_rel hidden budget calls
  generalize m.performAll budget calls = x, m'.performAll budget calls = x' at hrel
  cases hrel with
  | none => exact .none
  | @some x x' hx =>
    obtain ⟨answers, n⟩ := x
    obtain ⟨answers', n'⟩ := x'
    obtain ⟨hanswers, hn⟩ := hx
    have hfar : ∀ id, n'.registers.get id = n.registers.get id + offset id := hn.registers
    have hsteps : n'.steps = n.steps + (m'.steps - m.steps) := hn.steps
    refine .some ⟨hanswers, hn.pc, hn.sink, by grind, fun id hnonneg hle => ?_, fun id => ?_⟩
    · have hzero : offset id = 0 := by
        show m'.registers.get id - m.registers.get id = 0
        rw [hlow id hnonneg hle, Int64.sub_self]
      rw [hfar, hzero, Int64.add_zero]
    · show _ = offset id
      rw [hfar]
      grind

/-- A program adds to register 300, which holds 7 on one of the machines, and prints register 5, which was
written with 0 on that machine only. -/
theorem hidden_registers_unobservable_indirect :
    let p : Program := #[.inc (.literal 0) (.literal 255), .inc (.literal 0) (.literal 45),
      .inc (.register 0) (.literal 1), .printNumber (.register 5)]
    let m := Machine.start p Unlimited.mk
    let m' := { m with registers := (m.registers.set 300 7).set 5 0 }
    (∀ id : Word, 0 ≤ id → id ≤ 255 → m'.registers.get id = m.registers.get id) ∧
      m'.registers ≠ m.registers ∧
      ∃ n n', m.performAll 9 [.run] = some ([.executed 4], n) ∧
        m'.performAll 9 [.run] = some ([.executed 4], n') ∧ n'.sink = n.sink ∧
        n'.registers.get 300 - n.registers.get 300 = 7 := by
  intro p m m'
  have hlow : ∀ id : Word, 0 ≤ id → id ≤ 255 → m'.registers.get id = m.registers.get id := by
    intro id _ hle
    show ((RegisterFile.empty.set 300 7).set 5 0).get id = RegisterFile.empty.get id
    have hne : (300 : Word) ≠ id := by
      rintro rfl
      exact absurd hle (by decide)
    rw [RegisterFile.get_set, RegisterFile.get_set, if_neg hne, RegisterFile.get_empty, ite_self]
  refine ⟨hlow, by decide +kernel, ?_⟩
  have hrel := (@hidden_registers_unobservable _ _ m m' rfl rfl rfl hlow 9 [.run]).2
  obtain ⟨⟨answers, n⟩, h⟩ : ∃ x, m.performAll 9 [.run] = some x :=
    Option.isSome_iff_exists.mp (by decide +kernel)
  have hanswers : (m.performAll 9 [.run]).map Prod.fst = some [.executed 4] := by decide +kernel
  generalize h' : m'.performAll 9 [.run] = x' at hrel ⊢
  rw [h, Option.map_some, Option.some.injEq] at hanswers
  rw [h] at hrel ⊢
  obtain rfl : answers = [.executed 4] := hanswers
  cases hrel with
  | @some _ x' hx =>
    obtain ⟨answers', n'⟩ := x'
    obtain ⟨rfl, _, hsink, _, _, hfar⟩ := hx
    refine ⟨n, n', rfl, rfl, hsink, ?_⟩
    rw [hfar]
    decide +kernel

end Machine

end RegisterMachine
