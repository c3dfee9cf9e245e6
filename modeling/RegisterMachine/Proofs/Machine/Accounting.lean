import RegisterMachine.Proofs.Effect
import RegisterMachine.Proofs.Machine.SinkIndependence
import RegisterMachine.Proofs.RegisterFile

/-!
# Accounting for registers

Each instruction that is executed changes one register or none, and nothing else changes the registers.
So in every state that a machine comes to, what is in a register is the balance of the changes made to it
since the start. Which register an instruction changes and by how much can itself depend on registers, so
both are looked up in the state that the instruction was executed in.

* **`Instr.update?`** — the change that an instruction makes, **`Machine.executedUpdate?`** — that of the
  next attempt, and **`Instr.registers_of_effect`** — there is no other.
* **`registers_step`**, **`ReachesVia.registers_eq`** — the registers after an attempt, and after a history.
* **`Program.WritesDirectly`** — no register is written through another.
* **`registers_account_for_updates`** — contents and number of the written registers, in any state.
-/

namespace RegisterMachine

/-! ## What instructions change -/

/-- The change that an instruction makes, with both operands looked up in the registers before it. -/
def Instr.update? (registers : RegisterFile) : Instr → Option Update
  | inc register delta => some (.add (registers.resolve register) (registers.resolve delta))
  | dec register delta => some (.sub (registers.resolve register) (registers.resolve delta))
  | _ => none

theorem Instr.registers_of_effect {i : Instr} {registers : RegisterFile} {effect : Effect}
    (h : i.effect registers = .ok effect) :
    effect.registers = registers.applyAll (i.update? registers).toList := by
  cases i with
  | printChar value =>
    obtain ⟨c, _, rfl⟩ := exists_char_of_effect h
    rfl
  | _ => cases h; rfl

theorem Instr.update?_eq_none {i : Instr} (hinc : i.opcode ≠ .inc) (hdec : i.opcode ≠ .dec)
    (registers : RegisterFile) : i.update? registers = none := by
  cases i with
  | inc register delta => exact absurd rfl hinc
  | dec register delta => exact absurd rfl hdec
  | _ => rfl

/-- Instructions that change a register name it themselves, and not through another register. -/
def Program.WritesDirectly (p : Program) : Prop :=
  ∀ register delta, (.inc register delta ∈ p ∨ .dec register delta ∈ p) →
    ∃ value, register = .literal value

theorem Program.WritesDirectly.id_bounds {p : Program} (h : p.WritesDirectly) {i : Instr} (hi : i ∈ p)
    {registers : RegisterFile} {u : Update} (hu : i.update? registers = some u) :
    0 ≤ u.id ∧ u.id ≤ 255 := by
  cases i with
  | inc register delta =>
    cases hu
    obtain ⟨value, rfl⟩ := h register delta (.inl hi)
    exact Word.ofByte_bounds value
  | dec register delta =>
    cases hu
    obtain ⟨value, rfl⟩ := h register delta (.inr hi)
    exact Word.ofByte_bounds value
  | _ => cases hu

/-! ## What attempts change -/

namespace Machine

variable {μ : Type} [Medium μ]

/-- The change that the next attempt makes, if it executes an instruction that makes one. -/
def executedUpdate? (m : Machine μ) : Option Update :=
  if m.executes then m.fetch?.bind (Instr.update? m.registers) else none

theorem executedUpdate?_of_not_executes {m : Machine μ} (h : m.executes = false) :
    m.executedUpdate? = none := by
  rw [executedUpdate?, h]
  rfl

theorem executes_of_executedUpdate? {m : Machine μ} {u : Update} (h : m.executedUpdate? = some u) :
    m.executes = true ∧ ∃ i, m.fetch? = some i ∧ i.update? m.registers = some u := by
  cases hexecutes : m.executes with
  | false =>
    rw [executedUpdate?_of_not_executes hexecutes] at h
    cases h
  | true =>
    rw [executedUpdate?, hexecutes, if_pos rfl] at h
    exact ⟨rfl, Option.bind_eq_some_iff.mp h⟩

/-- **The registers after an attempt**: the change of the executed instruction has been made. -/
theorem registers_step (m : Machine μ) :
    m.step.2.registers = m.registers.applyAll m.executedUpdate?.toList := by
  cases m.attempt with
  | halted _ hexecutes hstep => rw [hstep, executedUpdate?_of_not_executes hexecutes]; rfl
  | invalid _ _ hexecutes hstep => rw [hstep, executedUpdate?_of_not_executes hexecutes]; rfl
  | blocked _ _ _ _ hexecutes hstep => rw [hstep, executedUpdate?_of_not_executes hexecutes]; rfl
  | executed hfetch heffect _ hexecutes hstep =>
    rw [hstep, executedUpdate?, hexecutes, if_pos rfl, hfetch, Option.bind_some]
    exact Instr.registers_of_effect heffect

theorem registers_step_of_no_update {m : Machine μ} (h : m.executedUpdate? = none) :
    m.step.2.registers = m.registers := by
  rw [registers_step, h]
  rfl

theorem executedUpdate?_eq_none {m : Machine μ}
    (h : m.executes = false ∨ ∀ i, m.fetch? = some i → i.opcode ≠ .inc ∧ i.opcode ≠ .dec) :
    m.executedUpdate? = none := by
  cases hupdate : m.executedUpdate? with
  | none => rfl
  | some u =>
    obtain ⟨hexecutes, i, hfetch, hu⟩ := executes_of_executedUpdate? hupdate
    rcases h with hfails | hother
    · rw [hexecutes] at hfails
      cases hfails
    · obtain ⟨hinc, hdec⟩ := hother i hfetch
      rw [Instr.update?_eq_none hinc hdec] at hu
      cases hu

/-- An attempt writes at most one register for the first time. -/
theorem size_registers_step (m : Machine μ) :
    m.registers.size ≤ m.step.2.registers.size ∧ m.step.2.registers.size ≤ m.registers.size + 1 := by
  cases hupdate : m.executedUpdate? with
  | none =>
    rw [registers_step_of_no_update hupdate]
    omega
  | some u =>
    have hstep : m.step.2.registers = u.applyTo m.registers := by
      rw [registers_step, hupdate]
      rfl
    rw [hstep, Update.size_applyTo]
    split <;> omega

/-! ## What a history has changed -/

theorem ReachesVia.registers_eq {m m' : Machine μ} {past : List (Machine μ)} (h : ReachesVia m past m') :
    m'.registers = m.registers.applyAll (past.filterMap executedUpdate?) := by
  induction h with
  | refl => rfl
  | adjust _ _ ih => exact ih
  | @attempt past m' _ ih =>
    rw [registers_step, List.filterMap_append, RegisterFile.applyAll_append, ih]
    cases hupdate : m'.executedUpdate? with
    | none => rw [List.filterMap_cons_none hupdate]; rfl
    | some u => rw [List.filterMap_cons_some hupdate]; rfl

theorem length_executedUpdates_le (past : List (Machine μ)) :
    (past.filterMap executedUpdate?).length ≤ past.countP executes := by
  rw [List.length_filterMap_eq_countP]
  apply List.countP_mono_left
  intro m _ hupdate
  obtain ⟨u, hu⟩ := Option.isSome_iff_exists.mp hupdate
  exact (executes_of_executedUpdate? hu).1

theorem ReachesVia.id_bounds {m m' : Machine μ} {past : List (Machine μ)} (h : ReachesVia m past m')
    (hdirect : m.program.WritesDirectly) {x : Word}
    (hx : x ∈ (past.filterMap executedUpdate?).map Update.id) : 0 ≤ x ∧ x ≤ 255 := by
  obtain ⟨u, hu, rfl⟩ := List.mem_map.mp hx
  obtain ⟨n, hn, hupdate⟩ := List.mem_filterMap.mp hu
  obtain ⟨_, i, hfetch, hi⟩ := executes_of_executedUpdate? hupdate
  have hmem : i ∈ n.program := Array.mem_of_getElem? hfetch
  rw [h.program_eq.2 n hn] at hmem
  exact hdirect.id_bounds hmem hi

/-- **Registers are accounted for by the executed instructions.** Let a machine be used from its start on,
on whatever medium and with whatever calls, and then make any number of attempts more, as it does in the
middle of a run. Each register holds what was added to it less what was subtracted from it, as an integer
reduced to a word, and there are as many written registers as were named by some change. An attempt
writes at most one register for the first time, and none if it fails or its instruction is none that
changes registers. There are at most as many written registers as executed instructions. If registers are
written directly only, no register above 255 or below 0 is ever written. -/
theorem registers_account_for_updates {p : Program} {medium : μ} {budget : Nat} {calls : List (Call μ)}
    {answers : List Answer} {m : Machine μ}
    (h : (Machine.start p medium).performAll budget calls = some (answers, m)) (n : Nat) :
    let past := (Machine.start p medium).history budget calls ++ m.trail n
    let updates := past.filterMap executedUpdate?
    let now := m.after n
    (∀ id, now.registers.get id =
        .ofInt ((updates.map (·.addend id)).sum - (updates.map (·.subtrahend id)).sum)) ∧
      (∀ id, id ∈ now.registers ↔ id ∈ updates.map Update.id) ∧
      now.registers.size = (updates.map Update.id).toFinset.card ∧
      (now.registers.size ≤ now.step.2.registers.size ∧
        now.step.2.registers.size ≤ now.registers.size + 1) ∧
      now.registers.size ≤ past.countP executes ∧
      (past.countP executes < UInt64.size → now.registers.size ≤ now.steps.toNat) ∧
      ((now.executes = false ∨ ∀ i, now.fetch? = some i → i.opcode ≠ .inc ∧ i.opcode ≠ .dec) →
        now.executedUpdate? = none ∧ now.step.2.registers = now.registers) ∧
      (p.WritesDirectly → ∀ id ∈ now.registers, 0 ≤ id ∧ id ≤ 255) := by
  intro past updates now
  have hreaches : ReachesVia (Machine.start p medium) past now :=
    (reachesVia_performAll h).trans (reachesVia_after m n)
  have hregisters : now.registers = RegisterFile.applyAll ∅ updates := hreaches.registers_eq
  have hwritten (id : Word) : id ∈ now.registers ↔ id ∈ updates.map Update.id := by
    rw [hregisters, RegisterFile.mem_applyAll]
    exact or_iff_left (RegisterFile.not_mem_empty id)
  have hsize : now.registers.size = (updates.map Update.id).toFinset.card := by
    rw [hregisters, RegisterFile.size_applyAll_empty]
  have hfew : now.registers.size ≤ past.countP executes := by
    calc now.registers.size = (updates.map Update.id).toFinset.card := hsize
      _ ≤ (updates.map Update.id).length := List.toFinset_card_le _
      _ = updates.length := List.length_map _
      _ ≤ past.countP executes := length_executedUpdates_le past
  refine ⟨fun id => ?_, hwritten, hsize, size_registers_step now, hfew, fun hcount => ?_, fun hnone => ?_,
    fun hdirect id hid => hreaches.id_bounds hdirect ((hwritten id).mp hid)⟩
  · rw [hregisters, RegisterFile.get_applyAll]
    exact Int64.zero_add _
  · rw [hreaches.toNat_steps hcount]
    exact hfew
  · have hupdate := executedUpdate?_eq_none hnone
    exact ⟨hupdate, registers_step_of_no_update hupdate⟩

/-- Register 1 is doubled through itself as both target and amount: it holds 1, so the instruction adds 1
to register 1. Then its own content 2 names the register that is subtracted from. The sink fails in
between, and the failed attempt leaves the account as it is. -/
theorem registers_account_for_updates_aliased :
    let p : Program := #[.inc (.literal 1) (.literal 1), .inc (.register 1) (.register 1),
      .printNumber (.register 1), .dec (.register 1) (.literal 5)]
    let b : Bounded := { limit := some 0 }
    let calls : List (Call Bounded) := [.run, .adjust fun b => { b with limit := none }]
    let start := Machine.start p b
    ∃ m, start.performAll 9 calls = some ([.failed (.output "closed"), .silent], m) ∧
      (start.history 9 calls ++ m.trail 2).filterMap executedUpdate? = [.add 1 1, .add 1 1, .sub 2 5] ∧
      (m.after 2).registers.get 1 = 2 ∧ (m.after 2).registers.get 2 = -5 ∧
      (m.after 2).registers.size = 2 := by
  intro p b calls start
  obtain ⟨⟨answers, m⟩, h⟩ : ∃ r, start.performAll 9 calls = some r :=
    Option.isSome_iff_exists.mp (by decide +kernel)
  have hseen : (start.performAll 9 calls).map (fun r =>
      (r.1, (start.history 9 calls ++ r.2.trail 2).filterMap executedUpdate?)) =
        some ([.failed (.output "closed"), .silent], [.add 1 1, .add 1 1, .sub 2 5]) := by
    decide +kernel
  simp only [h, Option.map_some, Option.some.injEq, Prod.mk.injEq] at hseen
  obtain ⟨rfl, hupdates⟩ := hseen
  obtain ⟨hget, _, hsize, _⟩ := registers_account_for_updates h 2
  rw [hupdates] at hsize
  have hone := hget 1
  have htwo := hget 2
  rw [hupdates] at hone htwo
  refine ⟨m, h, hupdates, hone.trans ?_, htwo.trans ?_, hsize.trans ?_⟩ <;> decide +kernel

end Machine

end RegisterMachine
