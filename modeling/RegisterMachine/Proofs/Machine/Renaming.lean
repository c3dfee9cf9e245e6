import Mathlib.Logic.Equiv.Basic
import RegisterMachine.Proofs.Machine.Accounting
import RegisterMachine.Proofs.Machine.Bisimulation
import RegisterMachine.Sink.Media

/-!
# Registers are interchangeable

No register is special. If all names of registers in a program are exchanged for others, it does the same,
with its numbers in the other registers. A literal is a name where it says which register to change, and a
number everywhere else; only the names are exchanged. The content of a register must not be used as a name,
since nothing exchanges that.

* **`Instr.rename`**, **`Program.rename`** — the program with other names.
* **`RegisterFile.Renamed`** — the registers hold the same under the other names.
* **`Program.WritesDirectly.sameEffects_rename`** — what instructions make of that.
* **`registers_interchangeable`** — sessions with both programs.
-/

namespace RegisterMachine

/-! ## Other names -/

/-- The operand that has the value of the other where registers have other names. -/
def Operand.rename (f : UInt8 → UInt8) : Operand → Operand
  | .literal value => .literal value
  | .register id => .register (f id)

/-- The operand that says which register to change where registers have other names. -/
def Operand.renameTarget (f : UInt8 → UInt8) : Operand → Operand
  | .literal value => .literal (f value)
  | .register id => .register (f id)

/-- The instruction with other names for registers. -/
def Instr.rename (f : UInt8 → UInt8) : Instr → Instr
  | inc register delta => inc (register.renameTarget f) (delta.rename f)
  | dec register delta => dec (register.renameTarget f) (delta.rename f)
  | printNumber value => printNumber (value.rename f)
  | printChar value => printChar (value.rename f)
  | goto target => goto (target.rename f)
  | test left right => test (left.rename f) (right.rename f)

/-- The program with other names for registers. -/
def Program.rename (f : UInt8 → UInt8) (p : Program) : Program :=
  p.map (Instr.rename f)

/-! ## The same in other registers -/

/-- The second file holds and has written under the other names what the first has under the names. Both
have written as many registers. -/
structure RegisterFile.Renamed (f : UInt8 → UInt8) (r r' : RegisterFile) : Prop where
  get (b : UInt8) : r'.get (.ofByte (f b)) = r.get (.ofByte b)
  mem_iff (b : UInt8) : .ofByte (f b) ∈ r' ↔ .ofByte b ∈ r
  size : r'.size = r.size

namespace RegisterFile.Renamed

variable {f : UInt8 → UInt8} {r r' : RegisterFile}

theorem resolve_eq (h : Renamed f r r') (o : Operand) : r'.resolve (o.rename f) = r.resolve o := by
  cases o with
  | literal value => rfl
  | register id => exact h.get id

theorem set (h : Renamed f r r') (hf : Function.Injective f) (b : UInt8) (value : Word) :
    Renamed f (r.set (.ofByte b) value) (r'.set (.ofByte (f b)) value) := by
  -- no two names become one, so the register that is written is told apart from others as before
  have hname (x : UInt8) : Word.ofByte (f b) = .ofByte (f x) ↔ Word.ofByte b = .ofByte x := by
    rw [Word.ofByte_inj, Word.ofByte_inj, hf.eq_iff]
  refine ⟨fun x => ?_, fun x => ?_, ?_⟩
  · simp only [get_set, hname, h.get]
  · simp only [mem_set, hname, h.mem_iff]
  · simp only [size_set, h.mem_iff, h.size]

theorem add (h : Renamed f r r') (hf : Function.Injective f) (b : UInt8) (delta : Word) :
    Renamed f (r.add (.ofByte b) delta) (r'.add (.ofByte (f b)) delta) := by
  unfold RegisterFile.add
  rw [h.get]
  exact h.set hf b _

theorem sub (h : Renamed f r r') (hf : Function.Injective f) (b : UInt8) (delta : Word) :
    Renamed f (r.sub (.ofByte b) delta) (r'.sub (.ofByte (f b)) delta) := by
  unfold RegisterFile.sub
  rw [h.get]
  exact h.set hf b _

theorem empty (f : UInt8 → UInt8) : Renamed f ∅ ∅ :=
  ⟨fun _ => rfl, fun _ => Iff.rfl, rfl⟩

end RegisterFile.Renamed

/-- **Instructions do the same under other names** if they name the registers that they change themselves,
and not through others. -/
theorem Program.WritesDirectly.sameEffects_rename {p : Program} (h : p.WritesDirectly)
    {f : UInt8 → UInt8} (hf : Function.Injective f) :
    p.SameEffects (Instr.rename f) (RegisterFile.Renamed f) := by
  intro i hi r r' hr
  -- only a target that is a literal gets another name; all else is looked up under its new name
  cases i with
  | inc register delta =>
    obtain ⟨value, rfl⟩ := h register delta (.inl hi)
    show SameEffect _ (.ok { registers := r.add (.ofByte value) (r.resolve delta) })
      (.ok { registers := r'.add (.ofByte (f value)) (r'.resolve (delta.rename f)) })
    rw [hr.resolve_eq]
    exact .ok (hr.add hf value _)
  | dec register delta =>
    obtain ⟨value, rfl⟩ := h register delta (.inr hi)
    show SameEffect _ (.ok { registers := r.sub (.ofByte value) (r.resolve delta) })
      (.ok { registers := r'.sub (.ofByte (f value)) (r'.resolve (delta.rename f)) })
    rw [hr.resolve_eq]
    exact .ok (hr.sub hf value _)
  | printChar value =>
    simp only [Instr.rename, Instr.effect, hr.resolve_eq]
    cases (r.resolve value).char? with
    | none => exact .error _
    | some c => exact .ok hr
  | _ =>
    simp only [Instr.rename, Instr.effect, hr.resolve_eq]
    exact .ok hr

/-! ## Sessions under other names -/

namespace Machine

variable {μ : Type}

theorem translated_start (p : Program) {f : UInt8 → UInt8} (medium : μ) :
    Translated p (Instr.rename f) (RegisterFile.Renamed f) 0 (Machine.start p medium)
      (Machine.start (p.rename f) medium) :=
  ⟨rfl, rfl, rfl, rfl, .empty f, rfl⟩

variable [Medium μ]

/-- **Registers are interchangeable.** Take a program that names the registers it changes directly, give all
registers other names, each its own, and start both programs on the same medium. The same calls end on both
or on neither, and execute as many instructions on both. Where they end they have given the same answers, and
the machines have the same counters, sinks in the same state and equally many written registers. What the
one has written to a register and holds in it, the other has and holds in that with the other name. -/
theorem registers_interchangeable {p : Program} (hdirect : p.WritesDirectly) (f : Equiv.Perm UInt8)
    (medium : μ) (budget : Nat) (calls : List (Call μ)) :
    let m := Machine.start p medium
    let m' := Machine.start (p.rename f) medium
    m'.executedBy budget calls = m.executedBy budget calls ∧
      Option.Rel (fun (answers, n) (answers', n') =>
          answers' = answers ∧ n'.pc = n.pc ∧ n'.steps = n.steps ∧ n'.sink = n.sink ∧
            n'.registers.size = n.registers.size ∧
            ∀ b : UInt8, n'.registers.get (.ofByte (f b)) = n.registers.get (.ofByte b) ∧
              (.ofByte (f b) ∈ n'.registers ↔ .ofByte b ∈ n.registers))
        (m.performAll budget calls) (m'.performAll budget calls) := by
  intro m m'
  have hstart : Translated p (Instr.rename f) (RegisterFile.Renamed f) 0 m m' := translated_start p medium
  have hbisim : Bisimulation fun n n' : Machine μ =>
      Translated p (Instr.rename f) (RegisterFile.Renamed f) 0 n n' :=
    bisimulation_translated (hdirect.sameEffects_rename f.injective)
  refine ⟨hbisim.executedBy_eq hstart budget calls, ?_⟩
  have hrel := hbisim.performAll_rel hstart budget calls
  generalize m.performAll budget calls = x, m'.performAll budget calls = x' at hrel
  cases hrel with
  | none => exact .none
  | @some x x' hx =>
    obtain ⟨answers, n⟩ := x
    obtain ⟨answers', n'⟩ := x'
    obtain ⟨hanswers, hn⟩ := hx
    have hsteps : n'.steps = n.steps := hn.steps.trans (UInt64.add_zero _)
    exact .some ⟨hanswers, hn.pc, hsteps, hn.sink, hn.registers.size,
      fun b => ⟨hn.registers.get b, hn.registers.mem_iff b⟩⟩

/-- The registers 0 and 1 are exchanged. The program tells them apart, but prints the same when their names
are exchanged too: its literals are names where a register is changed, and a number where one is printed. -/
theorem registers_interchangeable_swapped :
    let p : Program := #[.inc (.literal 0) (.literal 65), .dec (.literal 1) (.register 0),
      .printChar (.register 0), .printNumber (.register 1), .printNumber (.literal 0)]
    let f := Equiv.swap (0 : UInt8) 1
    let m := Machine.start p Unlimited.mk
    let m' := Machine.start (p.rename f) Unlimited.mk
    p.WritesDirectly ∧
      p.rename f = #[.inc (.literal 1) (.literal 65), .dec (.literal 0) (.register 1),
        .printChar (.register 1), .printNumber (.register 0), .printNumber (.literal 0)] ∧
      ∃ n n', m.performAll 9 [.run] = some ([.executed 5], n) ∧
        m'.performAll 9 [.run] = some ([.executed 5], n') ∧ n'.sink = n.sink ∧
        n'.registers.get 1 = 65 ∧ n'.registers.get 0 = -65 := by
  intro p f m m'
  have hdirect : p.WritesDirectly := by
    intro register delta h
    simp only [p, List.mem_toArray, List.mem_cons, Instr.inc.injEq, Instr.dec.injEq, reduceCtorEq,
      List.not_mem_nil, or_false, false_or] at h
    rcases h with ⟨rfl, _⟩ | ⟨rfl, _⟩ <;> exact ⟨_, rfl⟩
  refine ⟨hdirect, by decide +kernel, ?_⟩
  have hrel := (registers_interchangeable hdirect f Unlimited.mk 9 [.run]).2
  obtain ⟨⟨answers, n⟩, h⟩ : ∃ x, m.performAll 9 [.run] = some x :=
    Option.isSome_iff_exists.mp (by decide +kernel)
  have hseen : (m.performAll 9 [.run]).map (fun x => (x.1, x.2.registers.get 0, x.2.registers.get 1)) =
      some ([.executed 5], 65, -65) := by decide +kernel
  generalize h' : m'.performAll 9 [.run] = x' at hrel ⊢
  simp only [h, Option.map_some, Option.some.injEq, Prod.mk.injEq] at hseen
  rw [h] at hrel ⊢
  obtain ⟨rfl, hzero, hone⟩ := hseen
  cases hrel with
  | @some _ x' hx =>
    obtain ⟨answers', n'⟩ := x'
    obtain ⟨rfl, _, _, hsink, _, hregisters⟩ := hx
    exact ⟨n, n', rfl, rfl, hsink, (hregisters 0).1.trans hzero, (hregisters 1).1.trans hone⟩

end Machine

end RegisterMachine
