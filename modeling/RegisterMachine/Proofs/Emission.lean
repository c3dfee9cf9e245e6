import RegisterMachine.Sink.Media

/-!
# Emission

What arrives at a sink is decided by its medium, call by call. Whatever the medium does, a front part of
the data arrives, and all of it if the emission succeeds. A medium that takes at least one byte at every
write call and fails at no call lets all of the data through, in however many calls.

* **`Sink.writeAll_appends`** — writing adds a front part of the data to the sink, on any medium.
* **`Sink.Interrupted`**, **`Sink.interrupted_of_emit_error`** — an emission fails in a write call or in
  its flush call, and which of the two can be told from the sink.
* **`Sink.Completed`**, **`Sink.completed_of_emit_ok`** — an emission that succeeds stores all and flushes
  once.
* **`Medium.NeverFails`** — no call on the medium fails, now or later. The medium may change at
  every call, so this is said through a set of states that no call leaves.
* **`Sink.writeAll_of_neverFails`**, **`Sink.emit_of_neverFails`** — all data is stored, and after an
  emission all of it is flushed.
-/

namespace RegisterMachine

/-! ## Media that never fail -/

namespace Medium

variable {μ : Type} [Medium μ]

/-- A set of states in which write calls take something, flush calls work out, and which no call
leaves. -/
structure Safe (safe : μ → Prop) : Prop where
  write : ∀ medium, safe medium → ∀ (stored : Nat) (b : UInt8) (rest : List UInt8),
    ∃ n medium', Medium.write medium stored (b :: rest) = (.ok (n + 1), medium') ∧ safe medium'
  flush : ∀ medium, safe medium → ∀ calls : Nat,
    ∃ medium', Medium.flush medium calls = (.ok (), medium') ∧ safe medium'

/-- No call on the medium fails, now or later. -/
def NeverFails (medium : μ) : Prop :=
  ∃ safe : μ → Prop, Safe safe ∧ safe medium

theorem NeverFails.write {medium : μ} (h : NeverFails medium) (stored : Nat) (b : UInt8)
    (rest : List UInt8) :
    ∃ n medium', Medium.write medium stored (b :: rest) = (.ok (n + 1), medium') ∧
      NeverFails medium' := by
  obtain ⟨safe, hsafe, hmedium⟩ := h
  obtain ⟨n, medium', hwrite, hmedium'⟩ := hsafe.write medium hmedium stored b rest
  exact ⟨n, medium', hwrite, safe, hsafe, hmedium'⟩

theorem NeverFails.flush {medium : μ} (h : NeverFails medium) (calls : Nat) :
    ∃ medium', Medium.flush medium calls = (.ok (), medium') ∧ NeverFails medium' := by
  obtain ⟨safe, hsafe, hmedium⟩ := h
  obtain ⟨medium', hflush, hmedium'⟩ := hsafe.flush medium hmedium calls
  exact ⟨medium', hflush, safe, hsafe, hmedium'⟩

theorem neverFails_unlimited (medium : Unlimited) : NeverFails medium := by
  refine ⟨fun _ => True, ⟨?_, ?_⟩, trivial⟩
  · intro medium _ stored b rest
    exact ⟨rest.length, medium, rfl, trivial⟩
  · intro medium _ calls
    exact ⟨medium, rfl, trivial⟩

end Medium

/-! ## Emission to any medium -/

namespace Sink

variable {μ : Type} [Medium μ]

open Medium

/-- What is stored in two parts is stored at once. -/
theorem stored_append (stored : Array UInt8) (part part' : List UInt8) :
    stored ++ part ++ part' = stored ++ (part ++ part') := by
  apply Array.toList_inj.mp
  simp

theorem size_stored_append (stored : Array UInt8) (part : List UInt8) :
    (stored ++ part).size = stored.size + part.length := by
  rw [← Array.length_toList]
  simp

theorem writeAll_of_error {s : Sink μ} {b : UInt8} {rest : List UInt8} {fault : Fault} {medium : μ}
    (h : Medium.write s.medium s.stored.size (b :: rest) = (.error fault, medium)) :
    s.writeAll (b :: rest) = (.error fault, { s with medium }) := by
  rw [writeAll, h]

theorem writeAll_of_nothing {s : Sink μ} {b : UInt8} {rest : List UInt8} {medium : μ}
    (h : Medium.write s.medium s.stored.size (b :: rest) = (.ok 0, medium)) :
    s.writeAll (b :: rest) = (.error nothingTaken, { s with medium }) := by
  rw [writeAll, h]

theorem writeAll_of_taken {s : Sink μ} {b : UInt8} {rest : List UInt8} {n : Nat} {medium : μ}
    (h : Medium.write s.medium s.stored.size (b :: rest) = (.ok (n + 1), medium)) :
    s.writeAll (b :: rest) =
      writeAll { s with medium, stored := s.stored ++ (b :: rest).take (n + 1) } (rest.drop n) := by
  rw [writeAll, h]

/-- What a call took and what is then written are, one after the other, a front part of the data. -/
theorem take_append_prefix {rest part : List UInt8} {b : UInt8} {n : Nat} (h : part <+: rest.drop n) :
    (b :: rest).take (n + 1) ++ part <+: b :: rest := by
  have hdrop : part <+: (b :: rest).drop (n + 1) := h
  have := List.prefix_append_right_inj ((b :: rest).take (n + 1)) |>.mpr hdrop
  rwa [List.take_append_drop] at this

/-- **Writing adds a front part of the data**, and all of it if it succeeds. -/
theorem writeAll_appends (s : Sink μ) (data : List UInt8) :
    ∃ medium part, part <+: data ∧
      (s.writeAll data).2 = { s with medium, stored := s.stored ++ part } ∧
      ((s.writeAll data).1 = .ok () → part = data) := by
  -- on the number of bytes left: a write call that does not fail takes at least one
  induction hlen : data.length using Nat.strongRecOn generalizing s data with
  | ind len ih =>
    cases data with
    | nil =>
      refine ⟨s.medium, [], List.nil_prefix, ?_, fun _ => rfl⟩
      rw [writeAll, Array.appendList_nil]
    | cons b rest =>
      obtain ⟨answer, medium, hwrite⟩ :
          ∃ answer medium, Medium.write s.medium s.stored.size (b :: rest) = (answer, medium) :=
        ⟨_, _, rfl⟩
      cases answer with
      | error fault =>
        rw [writeAll_of_error hwrite]
        refine ⟨medium, [], List.nil_prefix, ?_, fun hok => by cases hok⟩
        rw [Array.appendList_nil]
      | ok taken =>
        cases taken with
        | zero =>
          rw [writeAll_of_nothing hwrite]
          refine ⟨medium, [], List.nil_prefix, ?_, fun hok => by cases hok⟩
          rw [Array.appendList_nil]
        | succ n =>
          have hshorter : (rest.drop n).length < len := by
            rw [List.length_drop, ← hlen, List.length_cons]
            omega
          rw [writeAll_of_taken hwrite]
          obtain ⟨medium', part, hpart, hsink, hall⟩ := ih _ hshorter
            { s with medium, stored := s.stored ++ (b :: rest).take (n + 1) } (rest.drop n) rfl
          refine ⟨medium', (b :: rest).take (n + 1) ++ part, take_append_prefix hpart, ?_, ?_⟩
          · rw [hsink, stored_append]
          · intro hok
            rw [hall hok]
            exact List.take_append_drop (n + 1) (b :: rest)

@[simp] theorem stored_flush (s : Sink μ) : s.flush.2.stored = s.stored := by
  rw [flush]
  split <;> rfl

@[simp] theorem flushes_flush (s : Sink μ) : s.flush.2.flushes = s.flushes + 1 := by
  rw [flush]
  split <;> rfl

theorem flushed_of_flush_ok {s : Sink μ} (h : s.flush.1 = .ok ()) :
    s.flush.2.flushed = s.stored.size := by
  rw [flush] at h ⊢
  split at h
  · rfl
  · cases h

theorem flushed_of_flush_error {s : Sink μ} {fault : Fault} (h : s.flush.1 = .error fault) :
    s.flush.2.flushed = s.flushed := by
  rw [flush] at h ⊢
  split at h
  · cases h
  · rfl

/-- An emission of `data` to `s` broke off with `fault` and left `s'`: either in a write call, when a
front part of the data was stored, or in the flush call, when all of it was. -/
inductive Interrupted (s : Sink μ) (data : List UInt8) (fault : Fault) (s' : Sink μ) : Prop where
  | write {part : List UInt8} (hwrite : (s.writeAll data).1 = .error fault)
      (hpart : part <+: data) (hstored : s'.stored = s.stored ++ part)
      (hflushed : s'.flushed = s.flushed) (hflushes : s'.flushes = s.flushes)
  | flush (hwrite : (s.writeAll data).1 = .ok ())
      (hflush : (s.writeAll data).2.flush.1 = .error fault)
      (hstored : s'.stored = s.stored ++ data) (hflushed : s'.flushed = s.flushed)
      (hflushes : s'.flushes = s.flushes + 1)

theorem interrupted_of_emit_error {s s' : Sink μ} {data : List UInt8} {fault : Fault}
    (h : s.emit data = (.error fault, s')) : Interrupted s data fault s' := by
  obtain ⟨medium, part, hpart, hsink, hall⟩ := writeAll_appends s data
  obtain ⟨written, s₁, hwrite⟩ : ∃ written s₁, s.writeAll data = (written, s₁) := ⟨_, _, rfl⟩
  rw [hwrite] at hsink hall
  subst hsink
  cases written with
  | error fault' =>
    rw [emit, hwrite] at h
    cases h
    exact .write (congrArg Prod.fst hwrite) hpart rfl rfl rfl
  | ok _ =>
    obtain rfl := hall rfl
    rw [emit, hwrite] at h
    have hflush := congrArg Prod.fst h
    obtain rfl := congrArg Prod.snd h
    exact .flush (congrArg Prod.fst hwrite) (by rwa [hwrite]) (stored_flush _)
      (flushed_of_flush_error hflush) (flushes_flush _)

/-- An emission of `data` to `s` went through and left `s'`: all of the data was stored, and the flush call
after that worked out. -/
structure Completed (s : Sink μ) (data : List UInt8) (s' : Sink μ) : Prop where
  write : (s.writeAll data).1 = .ok ()
  flush : (s.writeAll data).2.flush.1 = .ok ()
  stored : s'.stored = s.stored ++ data
  flushed : s'.flushed = s'.stored.size
  flushes : s'.flushes = s.flushes + 1

theorem completed_of_emit_ok {s s' : Sink μ} {data : List UInt8} (h : s.emit data = (.ok (), s')) :
    Completed s data s' := by
  obtain ⟨medium, part, _, hsink, hall⟩ := writeAll_appends s data
  obtain ⟨written, s₁, hwrite⟩ : ∃ written s₁, s.writeAll data = (written, s₁) := ⟨_, _, rfl⟩
  rw [hwrite] at hsink hall
  subst hsink
  rw [emit, hwrite] at h
  cases written with
  | error fault => cases h
  | ok _ =>
    obtain rfl := hall rfl
    have hflush := congrArg Prod.fst h
    obtain rfl := congrArg Prod.snd h
    refine ⟨congrArg Prod.fst hwrite, by rwa [hwrite], stored_flush _, ?_, flushes_flush _⟩
    rw [stored_flush]
    exact flushed_of_flush_ok hflush

/-! ## Emission to a medium that never fails -/

/-- All data is stored. Induction on the number of bytes left: a write call takes at least one. -/
theorem writeAll_of_neverFails {s : Sink μ} (h : NeverFails s.medium) (data : List UInt8) :
    ∃ medium, NeverFails medium ∧
      s.writeAll data = (.ok (), { s with medium, stored := s.stored ++ data }) := by
  induction hlen : data.length using Nat.strongRecOn generalizing s data with
  | ind len ih =>
    cases data with
    | nil =>
      refine ⟨s.medium, h, ?_⟩
      rw [writeAll, Array.appendList_nil]
    | cons b rest =>
      obtain ⟨n, medium, hwrite, hmedium⟩ := h.write s.stored.size b rest
      -- the call took `n + 1` bytes, so fewer are left
      have hshorter : (rest.drop n).length < len := by
        rw [List.length_drop, ← hlen, List.length_cons]
        omega
      obtain ⟨medium', hmedium', hrest⟩ := ih _ hshorter
        (s := { s with medium, stored := s.stored ++ (b :: rest).take (n + 1) }) hmedium _ rfl
      refine ⟨medium', hmedium', ?_⟩
      rw [writeAll_of_taken hwrite, hrest]
      -- what the call took and what was left are the data
      have hstored : s.stored ++ (b :: rest).take (n + 1) ++ rest.drop n = s.stored ++ b :: rest := by
        have hdata : (b :: rest).take (n + 1) ++ rest.drop n = b :: rest :=
          List.take_append_drop (n + 1) (b :: rest)
        rw [stored_append, hdata]
      rw [← hstored]

/-- All data is stored and flushed, with a single flush call. -/
theorem emit_of_neverFails {s : Sink μ} (h : NeverFails s.medium) (data : List UInt8) :
    ∃ medium, NeverFails medium ∧
      s.emit data = (.ok (), {
        medium := medium
        stored := s.stored ++ data
        flushed := (s.stored ++ data).size
        flushes := s.flushes + 1 }) := by
  obtain ⟨medium, hmedium, hwrite⟩ := writeAll_of_neverFails h data
  obtain ⟨medium', hflush, hmedium'⟩ := hmedium.flush s.flushes
  refine ⟨medium', hmedium', ?_⟩
  rw [emit, hwrite]
  show Sink.flush _ = _
  rw [Sink.flush, hflush]

end Sink

end RegisterMachine
