import RegisterMachine.CommandLine.Invocation

/-!
# What arguments ask for

An accepted command line says nothing that cannot be understood. So it can be read off its arguments whether
the summary of the run was asked for: the option `--time` stands among them, not behind the mark after
which there are only words.

* **`AsksForTime`**, **`ArgumentParser.ReadsTime`** — parsers that take the option in this way.
* **`Invocation.exists_setting_of_cons`** — an accepted command line says settings only, and `run`.
* **`time_iff_of_items`** — before `run`, the option is not understood; after it, it is what asks for the
  summary.
* **`ArgumentParser.readsTime_plain`** — the usual parser.
-/

namespace RegisterMachine.CommandLine

/-- The option for the summary stands among the arguments, in front of the mark `--` if there is one. -/
def AsksForTime (args : List String) : Prop :=
  "--time" ∈ args.takeWhile (· ≠ "--")

instance (args : List String) : Decidable (AsksForTime args) :=
  inferInstanceAs (Decidable (_ ∈ _))

/-- A flag is set exactly if its name stands among the arguments. Behind the mark `--` all arguments are
values, and no value of an option begins with a dash. -/
def ArgumentParser.ReadsTime (parser : ArgumentParser) : Prop :=
  ∀ args request, parser.invocation args = .run request → (request.time = true ↔ AsksForTime args)

/-! ## Forms of arguments -/

namespace ArgumentForm

theorem eq_of_of_eq_endOfOptions {cs : List Char} (h : of cs = .endOfOptions) : cs = ['-', '-'] := by
  unfold of at h
  split at h
  · rfl
  · split at h <;> cases h
  · cases h
  · cases h

theorem eq_of_of_eq_long {cs name : List Char} (h : of cs = .long name none) :
    cs = '-' :: '-' :: name := by
  unfold of at h
  split at h
  · cases h
  · split at h
    · cases h
      rfl
    · cases h
  · cases h
  · cases h

end ArgumentForm

theorem eq_mark_of_form {arg : String} (h : ArgumentForm.of arg.toList = .endOfOptions) :
    arg = "--" :=
  String.toList_inj.mp (ArgumentForm.eq_of_of_eq_endOfOptions h)

theorem eq_time_iff_form {arg : String} :
    arg = "--time" ↔ ArgumentForm.of arg.toList = .long "time".toList none := by
  constructor
  · rintro rfl
    decide
  · intro h
    exact String.toList_inj.mp (ArgumentForm.eq_of_of_eq_long h)

theorem ne_mark_of_form {arg : String} (h : ArgumentForm.of arg.toList ≠ .endOfOptions) :
    arg ≠ "--" := by
  rintro rfl
  exact h (by decide)

theorem asksForTime_cons_iff {arg : String} {rest : List String} (h : arg ≠ "--") :
    AsksForTime (arg :: rest) ↔ arg = "--time" ∨ AsksForTime rest := by
  rw [AsksForTime, List.takeWhile_cons_of_pos (by simpa using h), List.mem_cons, eq_comm, AsksForTime]

/-- An argument of another form does not matter. -/
theorem asksForTime_cons_of_form {arg : String} {rest : List String} {form : ArgumentForm}
    (h : ArgumentForm.of arg.toList = form) (hmark : form ≠ .endOfOptions)
    (htime : form ≠ .long "time".toList none) : AsksForTime (arg :: rest) ↔ AsksForTime rest := by
  subst h
  rw [asksForTime_cons_iff (ne_mark_of_form hmark), or_iff_right]
  exact mt eq_time_iff_form.mp htime

/-! ## Settings -/

theorem RunRequest.meet_of_new {seen : List Setting} {r : RunRequest} {x : Setting}
    (h : ∀ y ∈ seen, y.argument ≠ x.argument) :
    r.meet seen x = if x.isValid then some (r.store x) else none := by
  have hany : seen.any (·.argument = x.argument) = false := by simpa using h
  rw [meet, hany]
  rfl

theorem RunRequest.meet_of_met {seen : List Setting} {r : RunRequest} {x : Setting}
    (h : ∃ y ∈ seen, y.argument = x.argument) :
    r.meet seen x = if x.isValid ∧ x.argument.action = .count then
      some { r with verbosity := counted r.verbosity } else none := by
  have hany : seen.any (·.argument = x.argument) = true := by simpa using h
  rw [meet, hany]
  cases x.isValid <;> cases x.argument.action <;> rfl

/-- **Meeting a setting.** The first of its argument is stored; after that only a counter goes up. -/
theorem RunRequest.meet_eq_some_iff {seen : List Setting} {r r' : RunRequest} {x : Setting} :
    r.meet seen x = some r' ↔ x.isValid = true ∧
      ((∀ y ∈ seen, y.argument ≠ x.argument) ∧ r.store x = r' ∨
        (∃ y ∈ seen, y.argument = x.argument) ∧ x.argument.action = .count ∧
          { r with verbosity := counted r.verbosity } = r') := by
  by_cases hmet : ∃ y ∈ seen, y.argument = x.argument
  · have hold : ¬ ∀ y ∈ seen, y.argument ≠ x.argument := by simpa using hmet
    rw [meet_of_met hmet]
    simp [hmet, hold, and_assoc]
  · have hnew : ∀ y ∈ seen, y.argument ≠ x.argument := by simpa using hmet
    rw [meet_of_new hnew, and_iff_right hnew, or_iff_left fun h => hmet h.1]
    simp

theorem RunRequest.meet_eq_none_iff {seen : List Setting} {r : RunRequest} {x : Setting} :
    r.meet seen x = none ↔
      x.isValid = false ∨ (∃ y ∈ seen, y.argument = x.argument) ∧ x.argument.action ≠ .count := by
  by_cases hmet : ∃ y ∈ seen, y.argument = x.argument
  · rw [meet_of_met hmet, and_iff_right hmet]
    cases x.isValid <;> simp
  · have hnew : ∀ y ∈ seen, y.argument ≠ x.argument := by simpa using hmet
    rw [meet_of_new hnew, or_iff_left fun h => hmet h.1]
    simp

theorem RunRequest.time_store {r : RunRequest} {x : Setting} :
    (r.store x).time = true ↔ r.time = true ∨ x = .time := by
  cases x <;> simp [store]

theorem RunRequest.time_of_meet {seen : List Setting} {r r' : RunRequest} {x : Setting}
    (h : r.meet seen x = some r') : r'.time = true ↔ r.time = true ∨ x = .time := by
  obtain ⟨_, ⟨_, rfl⟩ | ⟨_, hcount, rfl⟩⟩ := meet_eq_some_iff.mp h
  · exact time_store
  · refine (or_iff_left ?_).symm
    rintro rfl
    cases hcount

theorem RunRequest.time_of_meet_of_ne {seen : List Setting} {r r' : RunRequest} {x : Setting}
    (h : r.meet seen x = some r') (hx : x ≠ .time) : r'.time = true ↔ r.time = true := by
  rw [time_of_meet h, or_iff_left hx]

theorem ColorMode.ofName?_of_meet {seen : List Setting} {r r' : RunRequest} {name : String}
    (h : r.meet seen (.color name) = some r') : ∃ mode, ofName? name = some mode :=
  Option.isSome_iff_exists.mp (RunRequest.meet_eq_some_iff.mp h).1

/-- The name of a colour mode does not matter either. -/
theorem asksForTime_cons_of_colorName {name : String} {rest : List String}
    (h : ∃ mode, ColorMode.ofName? name = some mode) : AsksForTime (name :: rest) ↔ AsksForTime rest := by
  obtain ⟨mode, hmode⟩ := h
  have hmark : name ≠ "--" := by
    rintro rfl
    cases hmode
  rw [asksForTime_cons_iff hmark, or_iff_right]
  rintro rfl
  cases hmode

theorem Item.ofShort_ne (s : Side) (c : Char) :
    Item.ofShort s c ≠ .setting .time ∧ Item.ofShort s c ≠ .run := by
  unfold ofShort
  split <;> (try split) <;> exact ⟨nofun, nofun⟩

theorem Item.ofLong_ne_run (s : Side) (name : List Char) : Item.ofLong s name ≠ .run := by
  unfold ofLong
  repeat' split
  all_goals nofun

theorem Item.eq_time_of_ofLong {s : Side} {name : List Char} (h : Item.ofLong s name = .setting .time) :
    name = "time".toList := by
  unfold ofLong at h
  repeat' split at h
  all_goals first | assumption | cases h

theorem Item.ofLong_time {s : Side} {x : Setting} (h : Item.ofLong s "time".toList = .setting x) :
    x = .time := by
  cases s with
  | before => cases h
  | after =>
    cases h
    rfl

/-! ## Command lines -/

namespace Invocation

theorem exists_meet_of_setting {s : Side} {seen : List Setting} {r request : RunRequest} {x : Setting}
    {items : List Item} (h : ofItems s seen r (.setting x :: items) = .run request) :
    ∃ r', r.meet seen x = some r' ∧ ofItems s (seen ++ [x]) r' items = .run request := by
  rw [ofItems] at h
  cases hmeet : r.meet seen x with
  | none => rw [hmeet] at h; cases h
  | some r' => exact ⟨r', rfl, by rwa [hmeet] at h⟩

/-- What an accepted command line says, it says by settings, but for `run`. -/
theorem exists_setting_of_cons {s : Side} {seen : List Setting} {r request : RunRequest} {item : Item}
    {items : List Item} (hrun : item ≠ .run) (h : ofItems s seen r (item :: items) = .run request) :
    ∃ x r', item = .setting x ∧ r.meet seen x = some r' ∧
      ofItems s (seen ++ [x]) r' items = .run request := by
  cases item with
  | setting x =>
    obtain ⟨r', hmeet, hrest⟩ := exists_meet_of_setting h
    exact ⟨x, r', rfl, hmeet, hrest⟩
  | run => exact absurd rfl hrun
  | help | version | invalid => cases h

/-- Items that are no `run` and do not ask for the summary leave what is asked for to the rest. -/
theorem exists_of_append {s : Side} {seen : List Setting} {r request : RunRequest} {items rest : List Item}
    (hitems : ∀ item ∈ items, item ≠ .setting .time ∧ item ≠ .run)
    (h : ofItems s seen r (items ++ rest) = .run request) :
    ∃ seen' r', ofItems s seen' r' rest = .run request ∧ (r'.time = true ↔ r.time = true) := by
  induction items generalizing seen r with
  | nil => exact ⟨seen, r, h, Iff.rfl⟩
  | cons item items ih =>
    obtain ⟨htime, hrun⟩ := hitems item (by simp)
    obtain ⟨x, r', rfl, hmeet, hrest⟩ := exists_setting_of_cons hrun h
    obtain ⟨seen', r'', hrest', hsame⟩ := ih (fun item h => hitems item (by simp [h])) hrest
    have hx : x ≠ .time := fun heq => htime (congrArg Item.setting heq)
    exact ⟨seen', r'', hrest', hsame.trans (RunRequest.time_of_meet_of_ne hmeet hx)⟩

theorem ofItems_ofHelp {s : Side} {seen : List Setting} {r request : RunRequest} {words : List String}
    (h : ofItems s seen r [.ofHelp words] = .run request) : False := by
  unfold Item.ofHelp at h
  split at h <;> cases h

end Invocation

open Invocation in
theorem time_iff_of_items {s : Side} {args : List String} {seen : List Setting} {r request : RunRequest}
    (h : ofItems s seen r (scan s args) = .run request) :
    request.time = true ↔ r.time = true ∨ AsksForTime args := by
  -- on the arguments as they are scanned; each of them is `--time`, or leaves the question to the rest
  fun_induction scan s args generalizing seen r with
  | case1 s =>
    cases s with
    | before => cases h
    | after =>
      cases h
      simp [AsksForTime]
  | case2 arg rest hform => cases h
  | case3 arg rest hform =>
    -- the words behind the mark are programs
    rw [← List.append_nil (rest.map _)] at h
    obtain ⟨seen', r', hend, hsame⟩ := exists_of_append (by simp) h
    cases hend
    rw [hsame, eq_mark_of_form hform, or_iff_left]
    simp [AsksForTime]
  | case4 rest hform ih =>
    rw [asksForTime_cons_of_form hform nofun nofun]
    exact ih h
  | case5 => cases ofItems_ofHelp h
  | case6 | case10 | case11 => cases h
  | case7 arg rest hform ih =>
    obtain ⟨_, hmeet, hrest⟩ := exists_meet_of_setting h
    rw [ih hrest, RunRequest.time_of_meet_of_ne hmeet nofun, asksForTime_cons_of_form hform nofun nofun]
  | case8 s arg rest names hform ih =>
    have hitems : ∀ item ∈ names.map (Item.ofShort s), item ≠ .setting .time ∧ item ≠ .run := by
      intro item hitem
      obtain ⟨c, _, rfl⟩ := List.mem_map.mp hitem
      exact Item.ofShort_ne s c
    obtain ⟨_, _, hrest, hsame⟩ := exists_of_append hitems h
    rw [ih hrest, hsame, asksForTime_cons_of_form hform nofun nofun]
  | case9 s arg rest value hform ih =>
    obtain ⟨_, hmeet, hrest⟩ := exists_meet_of_setting h
    rw [ih hrest, RunRequest.time_of_meet_of_ne hmeet nofun, asksForTime_cons_of_form hform nofun nofun]
  | case12 s arg value rest hform ih =>
    obtain ⟨_, hmeet, hrest⟩ := exists_meet_of_setting h
    -- the next argument is the value of the option, and no value of it is `--time` or `--`
    rw [ih hrest, RunRequest.time_of_meet_of_ne hmeet nofun,
      asksForTime_cons_of_form hform nofun (by decide),
      asksForTime_cons_of_colorName (ColorMode.ofName?_of_meet hmeet)]
  | case13 s arg rest name hform hcolor ih =>
    obtain ⟨x, r', hitem, hmeet, hrest⟩ := exists_setting_of_cons (Item.ofLong_ne_run s name) h
    have hmark : ArgumentForm.of arg.toList ≠ .endOfOptions := by
      rw [hform]
      nofun
    have htime : x = .time ↔ arg = "--time" := by
      rw [eq_time_iff_form, hform, ArgumentForm.long.injEq, and_iff_left rfl]
      constructor
      · rintro rfl
        exact Item.eq_time_of_ofLong hitem
      · rintro rfl
        exact Item.ofLong_time hitem
    rw [ih hrest, RunRequest.time_of_meet hmeet, htime, asksForTime_cons_iff (ne_mark_of_form hmark),
      or_assoc]

/-- **The summary is asked for by its option** on a command line that is read in the usual way. -/
theorem ArgumentParser.readsTime_plain : ArgumentParser.plain.ReadsTime := by
  intro args request h
  rw [time_iff_of_items h]
  exact or_iff_right nofun

end RegisterMachine.CommandLine
