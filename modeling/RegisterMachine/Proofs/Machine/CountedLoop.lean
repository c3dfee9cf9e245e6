import RegisterMachine.Proofs.Machine.Iteration
import RegisterMachine.Sink.Media

/-!
# A counted loop

A comparison that leaves out the jump back makes a loop: register 0 is printed, counted down, and compared
with 0. The loop ends whatever is in the register. The count is that of the unsigned reading of the word:
negative words are counted down through the smallest word to the largest one, and from 0 it takes a round
for every word there is.

* **`countedLoop`** — the program, and **`Word.rounds`** — how often it goes round.
* **`Stands`** — all that matters of a machine on a medium that never fails; **`Stands.step`** — what an
  attempt makes of it.
* **`Stands.body`** — the instructions up to the comparison, **`Stands.round`** — a round that goes back,
  and **`Stands.last`** — the one that does not.
* **`Stands.rounds`** — all rounds, by induction on their number.
* **`counted_loop_counts_down`** — the loop from any word on.
-/

namespace RegisterMachine

/-- The number of words from `n` down to 1: the unsigned reading of `n`, and all words if that is 0. -/
def Word.rounds (n : Word) : Nat :=
  if n = 0 then UInt64.size else n.toUInt64.toNat

theorem Word.ofNat_unsigned (n : Word) : Int64.ofNat n.toUInt64.toNat = n := by
  calc Int64.ofNat n.toUInt64.toNat = (UInt64.ofNat n.toUInt64.toNat).toInt64 :=
        UInt64.toInt64_ofNat'.symm
    _ = n.toUInt64.toInt64 := by rw [UInt64.ofNat_toNat]
    _ = n := Int64.toInt64_toUInt64 n

theorem Word.ofNat_rounds (n : Word) : Int64.ofNat n.rounds = n := by
  unfold rounds
  split
  · next hzero => rw [hzero]; rfl
  · exact ofNat_unsigned n

theorem Word.rounds_bounds (n : Word) : 0 < n.rounds ∧ n.rounds ≤ UInt64.size := by
  unfold rounds
  split
  · decide
  · next hn =>
    refine ⟨Nat.pos_of_ne_zero fun hzero => hn ?_, Nat.le_of_lt n.toUInt64.toNat_lt⟩
    rw [← ofNat_unsigned n, hzero]
    rfl

/-- The last of the words that are counted down to is 1. -/
theorem Word.sub_ofNat_rounds (n : Word) : n - .ofNat (n.rounds - 1) = 1 := by
  have hcount : n.rounds - 1 + 1 = n.rounds := Nat.succ_pred_eq_of_pos n.rounds_bounds.1
  have hword : Int64.ofNat (n.rounds - 1) + 1 = n := by
    calc Int64.ofNat (n.rounds - 1) + 1 = Int64.ofNat (n.rounds - 1 + 1) := (Int64.ofNat_add _ _).symm
      _ = n := by rw [hcount, ofNat_rounds]
  grind

theorem Word.ofNat_ne_zero {k : Nat} (hpos : 0 < k) (hk : k < UInt64.size) : Int64.ofNat k ≠ 0 := by
  intro hzero
  have hunsigned := congrArg (·.toUInt64.toNat) hzero
  simp only [← UInt64.toInt64_ofNat', UInt64.toUInt64_toInt64, UInt64.toNat_ofNat'] at hunsigned
  rw [Nat.mod_eq_of_lt hk] at hunsigned
  exact Nat.ne_of_gt hpos hunsigned

/-- A loop that prints register 0 and counts it down, behind an instruction that is not part of it. -/
def countedLoop (first : Instr) : Program :=
  #[first, .printNumber (.register 0), .dec (.literal 0) (.literal 1),
    .test (.register 0) (.literal 0), .goto (.literal 1)]

namespace Machine

open Medium

variable {μ : Type}

/-! ## One instruction -/

/-- The machine is at `pc` in the program `p`, with `r` in its registers and `text` stored, on a medium that
never fails. -/
structure Stands [Medium μ] (p : Program) (pc : Nat) (r : RegisterFile) (text : Array UInt8)
    (m : Machine μ) : Prop where
  program : m.program = p
  pc : m.pc = pc
  registers : m.registers = r
  stored : m.sink.stored = text
  neverFails : NeverFails m.sink.medium

variable [Medium μ] {p : Program} {pc pc' : Nat} {r : RegisterFile} {text : Array UInt8}
  {m : Machine μ}

theorem Stands.isHalted_eq (h : Stands p pc r text m) : m.isHalted = decide (p.size ≤ pc) := by
  rw [isHalted, h.program, h.pc]

theorem Stands.step {i : Instr} {effect : Effect} (h : Stands p pc r text m)
    (hfetch : p[pc]? = some i) (heffect : i.effect r = .ok effect)
    (hfollow : m.follow effect.transfer = pc') :
    Stands p pc' effect.registers (text ++ effect.output.getD []) m.step.2 ∧
      m.step.1 = .ok (if p.size ≤ pc' then .halted else .running) := by
  have hinstr : m.fetch? = some i := by rw [fetch?, h.program, h.pc, hfetch]
  rw [← h.registers] at heffect
  obtain ⟨sink, hsink, hstored, hstep⟩ := step_of_effect_ok h.neverFails hinstr heffect
  have hnext : Stands p pc' effect.registers (text ++ effect.output.getD [])
      (commit { m with sink } effect) := by
    refine ⟨h.program, ?_, rfl, ?_, hsink⟩
    · rw [← hfollow]
      cases htransfer : effect.transfer <;> simp only [commit, follow, htransfer]
    · rw [← h.stored]
      exact hstored
  rw [hstep]
  refine ⟨hnext, congrArg Except.ok ?_⟩
  rw [status, hnext.isHalted_eq]
  simp

theorem Stands.step_of_output_none {i : Instr} {effect : Effect} (h : Stands p pc r text m)
    (hfetch : p[pc]? = some i) (heffect : i.effect r = .ok effect) (houtput : effect.output = none)
    (hfollow : m.follow effect.transfer = pc') :
    Stands p pc' effect.registers text m.step.2 ∧
      m.step.1 = .ok (if p.size ≤ pc' then .halted else .running) := by
  have hnext := h.step hfetch heffect hfollow
  rwa [houtput, Option.getD_none, Array.appendList_nil] at hnext

/-! ## One round -/

section Loop

variable {first : Instr}

/-- Up to the comparison, register 0 is printed and counted down. -/
theorem Stands.body (h : Stands (countedLoop first) 1 r text m) :
    (∀ j < 2, (m.after j).step.1 = .ok .running) ∧
      Stands (countedLoop first) 3 (r.set 0 (r.get 0 - 1)) (text ++ Text.utf8 (r.get 0).decimal)
        (m.after 2) := by
  obtain ⟨hprinted, hprint⟩ := h.step (i := .printNumber (.register 0)) rfl rfl
    (show m.follow .next = 2 by rw [follow, h.pc]; rfl)
  obtain ⟨hcounted, hcount⟩ := hprinted.step_of_output_none
    (i := .dec (.literal 0) (.literal 1)) rfl rfl rfl
    (show m.step.2.follow .next = 3 by rw [follow, hprinted.pc]; rfl)
  refine ⟨fun j hj => ?_, hcounted⟩
  obtain rfl | rfl : j = 0 ∨ j = 1 := by omega
  · exact hprint
  · exact hcount

/-- Unless register 0 has come down to 0, the loop goes back to its beginning. -/
theorem Stands.round (h : Stands (countedLoop first) 1 r text m) (hn : r.get 0 - 1 ≠ 0) :
    (∀ j < 4, (m.after j).step.1 = .ok .running) ∧
      Stands (countedLoop first) 1 (r.set 0 (r.get 0 - 1)) (text ++ Text.utf8 (r.get 0).decimal)
        (m.after 4) := by
  obtain ⟨hrunning, hbody⟩ := h.body
  have hne : (r.set 0 (r.get 0 - 1)).get 0 ≠ 0 := by rwa [RegisterFile.get_set, if_pos rfl]
  obtain ⟨hcompared, htest⟩ := hbody.step_of_output_none rfl
    (@Instr.effect_test_of_ne (.register 0) (.literal 0) _ hne) rfl
    (show (m.after 2).follow .next = 4 by rw [follow, hbody.pc]; rfl)
  obtain ⟨hback, hgoto⟩ := hcompared.step_of_output_none (i := .goto (.literal 1)) rfl rfl rfl
    (show (m.after 3).follow (.jump 1) = 1 by rw [follow]; rfl)
  refine ⟨fun j hj => ?_, hback⟩
  obtain hj | rfl | rfl : j < 2 ∨ j = 2 ∨ j = 3 := by omega
  · exact hrunning j hj
  · exact htest
  · exact hgoto

/-- If it has, the jump back is left out, and that was the end of the program. -/
theorem Stands.last (h : Stands (countedLoop first) 1 r text m) (hn : r.get 0 - 1 = 0) :
    m.EndsAt 2 ∧ (m.after 2).step.1 = .ok .halted ∧
      Stands (countedLoop first) 5 (r.set 0 0) (text ++ Text.utf8 (r.get 0).decimal)
        (m.after 3) := by
  obtain ⟨hrunning, hbody⟩ := h.body
  rw [hn] at hbody
  have heq : (r.set 0 0).get 0 = 0 := by rw [RegisterFile.get_set, if_pos rfl]
  obtain ⟨hout, htest⟩ := hbody.step_of_output_none rfl
    (@Instr.effect_test_of_eq (.register 0) (.literal 0) _ heq) rfl
    (show (m.after 2).follow .skip = 5 by rw [follow, hbody.pc]; rfl)
  have hhalted : (m.after 2).step.1 = .ok .halted := htest
  refine ⟨⟨hrunning, ?_⟩, hhalted, hout⟩
  rw [hhalted]
  nofun

/-! ## All rounds -/

/-- The decimals of `count` words, from `n` downwards. -/
def decimalsDown (n : Word) (count : Nat) : List UInt8 :=
  (List.range count).flatMap fun j => Text.utf8 (n - .ofNat j).decimal

theorem decimalsDown_zero (n : Word) : decimalsDown n 0 = [] :=
  rfl

theorem decimalsDown_succ (n : Word) (count : Nat) :
    decimalsDown n (count + 1) = Text.utf8 n.decimal ++ decimalsDown (n - 1) count := by
  have hlater (j : Nat) : n - Int64.ofNat (j + 1) = n - 1 - Int64.ofNat j := by
    rw [Int64.ofNat_add]
    grind
  have hfirst : n - Int64.ofNat 0 = n := Int64.sub_zero n
  simp only [decimalsDown, List.range_succ_eq_map, List.flatMap_cons, List.flatMap_map, hfirst,
    Nat.succ_eq_add_one, hlater]

/-- **All rounds.** From the word with the unsigned reading `k + 1` on, the loop goes back `k` times. -/
theorem Stands.rounds {k : Nat} (h : Stands (countedLoop first) 1 r text m)
    (hk : k + 1 ≤ UInt64.size) (hn : r.get 0 = Int64.ofNat (k + 1)) :
    m.EndsAt (4 * k + 2) ∧ (m.after (4 * k + 2)).step.1 = .ok .halted ∧
      Stands (countedLoop first) 5 (r.set 0 0)
        (text ++ decimalsDown (r.get 0) (k + 1)) (m.after (4 * k + 3)) := by
  -- on the number of rounds that go back; the first of them leaves a machine that goes back less often
  induction k generalizing m r text with
  | zero =>
    obtain ⟨hends, hhalted, hlast⟩ := h.last (by rw [hn]; rfl)
    refine ⟨hends, hhalted, ?_⟩
    rwa [decimalsDown_succ, decimalsDown_zero, List.append_nil]
  | succ k ih =>
    -- the words wrap around, but what is left to count is a number below all words
    have hcounted : r.get 0 - 1 = Int64.ofNat (k + 1) := by
      rw [hn, Int64.ofNat_add]
      grind
    have hne : r.get 0 - 1 ≠ 0 := hcounted ▸ Word.ofNat_ne_zero (Nat.succ_pos k) hk
    obtain ⟨hrunning, hround⟩ := h.round hne
    obtain ⟨hends, hhalted, hrest⟩ := ih hround (by omega) (by
      rw [RegisterFile.get_set, if_pos rfl, hcounted])
    rw [endsAt_after_iff hrunning] at hends
    rw [after_add] at hhalted hrest
    rw [show 4 * (k + 1) + 2 = 4 + (4 * k + 2) by omega, show 4 * (k + 1) + 3 = 4 + (4 * k + 3) by omega]
    refine ⟨hends, hhalted, ?_⟩
    rw [decimalsDown_succ, ← Sink.stored_append]
    rw [RegisterFile.set_set, RegisterFile.get_set, if_pos rfl] at hrest
    exact hrest

end Loop

/-- **The counted loop counts down from any word.** Let the machine stand at the beginning of the loop, on a
medium that never fails, with `n` in register 0, and let `N` be the unsigned reading of `n`, or the number of
all words if `n` is 0. The machine executes `4 * N - 1` instructions, none fewer and none more: it is running
until then and halted from there on. It is left at the address 5 with 0 in register 0 and the other registers
as they were, and it has printed the `N` words `n`, `n - 1` and so on, the last of which is 1. -/
theorem counted_loop_counts_down {first : Instr} (hprogram : m.program = countedLoop first)
    (hpc : m.pc = 1) (hsink : NeverFails m.sink.medium) :
    let n := m.registers.get 0
    let N := n.rounds
    let last := m.after (4 * N - 1)
    (m.executions (4 * N - 1) = 4 * N - 1 ∧ (∀ j < 4 * N - 1, (m.after j).isHalted = false) ∧
        last.isHalted = true ∧ m.RunsTo (.ok (.ofNat (4 * N - 1))) last ∧
        (m.steps.toNat + (4 * N - 1) < UInt64.size →
          last.steps.toNat = m.steps.toNat + (4 * N - 1))) ∧
      (last.pc = 5 ∧ last.registers = m.registers.set 0 0 ∧ last.registers.get 0 = 0 ∧
        ∀ id ≠ 0, last.registers.get id = m.registers.get id) ∧
      last.sink.stored = m.sink.stored ++
          (List.range N).flatMap (fun j => Text.utf8 (n - .ofNat j).decimal) ∧
      n - .ofNat (N - 1) = 1 := by
  intro n N last
  have hbounds : 0 < N ∧ N ≤ UInt64.size := n.rounds_bounds
  -- all rounds but the last go back
  obtain ⟨k, hk⟩ := Nat.exists_eq_succ_of_ne_zero (Nat.ne_of_gt hbounds.1)
  have hstands : Stands (countedLoop first) 1 m.registers m.sink.stored m :=
    ⟨hprogram, hpc, rfl, rfl, hsink⟩
  have hword : n = Int64.ofNat (k + 1) := by
    rw [← Nat.succ_eq_add_one, ← hk]
    exact n.ofNat_rounds.symm
  obtain ⟨hends, hhalted, hlast⟩ := hstands.rounds (by omega) hword
  have hcount : 4 * N - 1 = 4 * k + 2 + 1 := by omega
  have hinside : (m.after (4 * k + 2)).isHalted = false :=
    isHalted_step_of_running (hends.running (4 * k + 1) (Nat.lt_succ_self _))
  have hexecutions : m.executions (4 * N - 1) = 4 * N - 1 := by
    rw [hcount]
    exact executions_of_executes hends.running (executes_of_step_ok hinside hhalted)
  rw [← hcount] at hlast
  refine ⟨⟨hexecutions, fun j hj => isHalted_of_le hinside (by omega), ?_, ?_, ?_⟩,
    ⟨hlast.pc, hlast.registers, ?_, fun id hid => ?_⟩, ?_, ?_⟩
  · rw [hlast.isHalted_eq]
    rfl
  · have hruns := runsTo_of_endsAt hends
    rwa [hhalted, ← hcount, hexecutions] at hruns
  · intro hsteps
    rw [← hexecutions] at hsteps ⊢
    exact toNat_steps_after hsteps
  · rw [hlast.registers, RegisterFile.get_set, if_pos rfl]
  · rw [hlast.registers, RegisterFile.get_set, if_neg hid.symm]
  · rw [hlast.stored, hk]
    rfl
  · exact n.sub_ofNat_rounds

/-- From 3 the loop prints `321`, with two rounds that go back and one that does not. From 0 it goes through
all words, the step counter around its end, and it still ends. -/
theorem counted_loop_counts_down_wrapped :
    let m (first : Instr) := (Machine.start (countedLoop first) Unlimited.mk).after 1
    let three := m (.inc (.literal 0) (.literal 3))
    let zero := m (.dec (.literal 0) (.literal 0))
    three.executions 11 = 11 ∧ three.RunsTo (.ok 11) (three.after 11) ∧ (three.after 11).pc = 5 ∧
      (three.after 11).sink.stored.toList = [0x33, 0x32, 0x31] ∧
      zero.executions (4 * UInt64.size - 1) = 4 * UInt64.size - 1 ∧
      (zero.after (4 * UInt64.size - 1)).isHalted = true ∧
      (zero.after (4 * UInt64.size - 1)).pc = 5 := by
  intro m three zero
  have hthree : (three.registers.get 0).rounds = 3 := by decide +kernel
  have hzero : (zero.registers.get 0).rounds = UInt64.size := by decide +kernel
  obtain ⟨⟨hcount, _, _, hruns, _⟩, ⟨hend, _⟩, hstored, _⟩ :=
    counted_loop_counts_down (m := three) rfl (by decide +kernel) (neverFails_unlimited _)
  obtain ⟨⟨hcount', _, hhalted', _⟩, ⟨hend', _⟩, _⟩ :=
    counted_loop_counts_down (m := zero) rfl (by decide +kernel) (neverFails_unlimited _)
  rw [hthree] at hcount hruns hend hstored
  rw [hzero] at hcount' hhalted' hend'
  refine ⟨hcount, hruns, hend, ?_, hcount', hhalted', hend'⟩
  rw [hstored, Array.toList_appendList]
  decide +kernel

end Machine

end RegisterMachine
