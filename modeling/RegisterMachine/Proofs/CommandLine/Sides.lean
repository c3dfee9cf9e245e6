import Mathlib.Data.List.Perm.Basic
import RegisterMachine.CommandLine.Exit
import RegisterMachine.Proofs.CommandLine.Plain

/-!
# The two sides of `run`

What a command line asks for depends on what is said on each side of `run`, and not on the order in which
it is said there or on how it is written. This holds for any parser that does what is documented.

* **`Acceptable`** — which settings can stand on one side together; **`requestOf`** — what those on both
  sides come to.
* **`RunRequest.meet_requestOf`**, **`RunRequest.meetAll_requestOf`** — settings that are met come to that.
* **`ArgumentParser.Documented.invocation_eq_run_iff`** — how a command line is read.
* **`Rearranged`** — the same settings in another order, or in other clusters.
* **`options_depend_on_sides`** — the settings on each side decide.
-/

namespace RegisterMachine.CommandLine

/-- What the units on a side say. -/
def said {s : Side} (us : List (OptionUnit s)) : List Setting :=
  us.flatMap OptionUnit.settings

/-- The command line with these units before and after `run`. -/
def commandLine (before : List (OptionUnit .before)) (after : List (OptionUnit .after)) : List String :=
  before.flatMap OptionUnit.arguments ++ "run" :: after.flatMap OptionUnit.arguments

namespace Setting

/-- The colour mode that is chosen. -/
def mode? : Setting → Option ColorMode
  | color name => ColorMode.ofName? name
  | _ => none

/-- The program that is named. -/
def programName? : Setting → Option String
  | program name => some name
  | _ => none

end Setting

/-- The settings can stand on one side together. Only for more detail it can be asked again and again, a
colour mode is one of three, and a program has a name. -/
structure Acceptable (ss : List Setting) : Prop where
  once : ∀ argument ≠ .verbose, ss.countP (·.argument = argument) ≤ 1
  colors : ∀ name, .color name ∈ ss → name ∈ ["auto", "always", "never"]
  programs : ∀ name, .program name ∈ ss → name ≠ ""

/-- How often more detail is asked for: what is said after `run` counts, or else what is said before. -/
def saidVerbosity (before after : List Setting) : Nat :=
  if after.count .verbose = 0 then before.count .verbose else after.count .verbose

/-- What the settings before and after `run` ask for. A counter stops at the largest byte. -/
def requestOf (before after : List Setting) : RunRequest where
  verbosity := .ofNat (min (saidVerbosity before after) 255)
  quiet := decide (.quiet ∈ before ∨ .quiet ∈ after)
  color := ((after.findSome? Setting.mode?).or (before.findSome? Setting.mode?)).getD .auto
  time := decide (.time ∈ before ∨ .time ∈ after)
  program := (after.findSome? Setting.programName?).or (before.findSome? Setting.programName?)

/-- The most detailed level that is asked for, by the full count. -/
def saidLevel (before after : List Setting) : Level :=
  if .quiet ∈ before ∨ .quiet ∈ after then .error
  else
    match saidVerbosity before after with
    | 0 => .warn
    | 1 => .info
    | 2 => .debug
    | _ => .trace

/-! ## Settings that can stand together -/

theorem ColorMode.isSome_ofName?_iff {name : String} :
    (ofName? name).isSome = true ↔ name ∈ ["auto", "always", "never"] := by
  unfold ofName?
  split <;> simp_all

theorem Setting.isValid_iff {x : Setting} :
    x.isValid = true ↔ (∀ name, x = .color name → name ∈ ["auto", "always", "never"]) ∧
      ∀ name, x = .program name → name ≠ "" := by
  cases x with
  | color name => simp only [isValid, ColorMode.isSome_ofName?_iff]; simp
  | program name => simp [isValid]
  | _ => simp [isValid]

theorem Argument.action_eq_count_iff {a : Argument} : a.action = .count ↔ a = .verbose := by
  cases a <;> simp [action]

theorem acceptable_nil : Acceptable [] :=
  ⟨fun _ _ => Nat.zero_le 1, nofun, nofun⟩

theorem Acceptable.of_append {ss ts : List Setting} (h : Acceptable (ss ++ ts)) : Acceptable ss where
  once a ha := Nat.le_trans (List.sublist_append_left ss ts).countP_le (h.once a ha)
  colors name hmem := h.colors name (List.mem_append_left ts hmem)
  programs name hmem := h.programs name (List.mem_append_left ts hmem)

/-- One more setting can stand behind others if its value can be understood and its argument is new, or
counted. -/
theorem acceptable_concat_iff {ss : List Setting} {x : Setting} :
    Acceptable (ss ++ [x]) ↔ Acceptable ss ∧ x.isValid = true ∧
      (x.argument ≠ .verbose → ∀ y ∈ ss, y.argument ≠ x.argument) := by
  have hcount (a : Argument) : (ss ++ [x]).countP (·.argument = a) =
      ss.countP (·.argument = a) + if x.argument = a then 1 else 0 := by
    simp [List.countP_append, List.countP_singleton]
  rw [Setting.isValid_iff]
  constructor
  · intro h
    refine ⟨h.of_append, ⟨fun name heq => h.colors name (by simp [heq]),
      fun name heq => h.programs name (by simp [heq])⟩, fun hx y hy hsame => ?_⟩
    have hpos : 0 < ss.countP (·.argument = x.argument) :=
      List.countP_pos_iff.mpr ⟨y, hy, by simpa using hsame⟩
    have hone := h.once x.argument hx
    rw [hcount, if_pos rfl] at hone
    omega
  · rintro ⟨⟨honce, hcolors, hprograms⟩, ⟨hcolor, hprogram⟩, hnew⟩
    refine ⟨fun a ha => ?_, fun name h => ?_, fun name h => ?_⟩
    · rw [hcount]
      split
      · next heq =>
        -- the new setting is the first of its argument
        subst heq
        have hzero : ss.countP (·.argument = x.argument) = 0 :=
          List.countP_eq_zero.mpr fun y hy => by simpa using hnew ha y hy
        omega
      · exact honce a ha
    · rcases List.mem_append.mp h with h | h
      · exact hcolors name h
      · exact hcolor name (List.mem_singleton.mp h).symm
    · rcases List.mem_append.mp h with h | h
      · exact hprograms name h
      · exact hprogram name (List.mem_singleton.mp h).symm

/-! ## What settings come to -/

section

variable {before ss : List Setting} {x : Setting}

theorem requestOf_nil (ss : List Setting) : requestOf ss [] = requestOf [] ss := by
  have hcount : saidVerbosity ss [] = saidVerbosity [] ss := by
    simp only [saidVerbosity, List.count_nil]
    split <;> simp_all
  simp [requestOf, hcount]

theorem count_verbose_eq_zero (h : ∀ y ∈ ss, y.argument ≠ .verbose) : ss.count .verbose = 0 :=
  List.count_eq_zero.mpr fun hmem => h _ hmem rfl

theorem Setting.argument_of_mode? (y : Setting) (h : y.mode?.isSome = true) : y.argument = .color := by
  cases y with
  | color name => rfl
  | _ => cases h

theorem Setting.argument_of_programName? (y : Setting) (h : y.programName?.isSome = true) :
    y.argument = .program := by
  cases y with
  | program name => rfl
  | _ => cases h

/-- What only one argument can give is not found among the others. -/
theorem findSome?_eq_none_of_argument {β : Type} {p : Setting → Option β} {a : Argument}
    (hp : ∀ y, (p y).isSome = true → y.argument = a) (h : ∀ y ∈ ss, y.argument ≠ a) :
    ss.findSome? p = none := by
  rw [List.findSome?_eq_none_iff]
  intro y hy
  rw [← Option.not_isSome_iff_eq_none]
  exact fun hsome => h y hy (hp y hsome)

/-- The first setting of its argument on the side behind `run` counts, whatever was said in front. -/
theorem RunRequest.store_requestOf (hvalid : x.isValid = true) (h : ∀ y ∈ ss, y.argument ≠ x.argument) :
    (requestOf before ss).store x = requestOf before (ss ++ [x]) := by
  cases x with
  | verbose =>
    have hcount := count_verbose_eq_zero h
    simp [store, requestOf, saidVerbosity, hcount, List.findSome?_append, Setting.mode?, Setting.programName?]
  | color name =>
    have hnone := findSome?_eq_none_of_argument Setting.argument_of_mode? h
    obtain ⟨mode, hmode⟩ : ∃ mode, ColorMode.ofName? name = some mode := Option.isSome_iff_exists.mp hvalid
    simp [store, requestOf, saidVerbosity, hnone, hmode, List.findSome?_append, Setting.mode?,
      Setting.programName?]
  | quiet | time =>
    simp [store, requestOf, saidVerbosity, List.findSome?_append, Setting.mode?, Setting.programName?]
  | program name =>
    have hnone := findSome?_eq_none_of_argument Setting.argument_of_programName? h
    simp [store, requestOf, saidVerbosity, hnone, List.findSome?_append, Setting.mode?, Setting.programName?]

/-- Stopping on the way comes to the same as stopping at the end. -/
theorem RunRequest.counted_ofNat (n : Nat) :
    counted (.ofNat (min n 255)) = .ofNat (min (n + 1) 255) := by
  by_cases hn : n < 255
  · have hsmall : UInt8.ofNat n ≠ 255 := fun h => by
      have := congrArg UInt8.toNat h
      rw [UInt8.toNat_ofNat_of_lt' (by show n < 256; omega)] at this
      exact absurd this (by show ¬ n = 255; omega)
    rw [Nat.min_eq_left (by omega), Nat.min_eq_left (by omega), counted, if_neg hsmall, UInt8.ofNat_add]
    rfl
  · -- the counter has stopped already
    rw [Nat.min_eq_right (by omega), Nat.min_eq_right (by omega)]
    rfl

/-- A counter goes up with each setting, if there has been one on the same side. -/
theorem RunRequest.counted_requestOf (h : ∃ y ∈ ss, y.argument = .verbose) :
    { requestOf before ss with verbosity := counted (requestOf before ss).verbosity } =
      requestOf before (ss ++ [.verbose]) := by
  have hmem : Setting.verbose ∈ ss := by
    obtain ⟨y, hy, harg⟩ := h
    cases y with
    | verbose => exact hy
    | _ => cases harg
  have hpos : ss.count .verbose ≠ 0 := by
    have := List.count_pos_iff.mpr hmem
    omega
  simp [requestOf, saidVerbosity, hpos, counted_ofNat, List.findSome?_append, Setting.mode?,
    Setting.programName?]

/-- **One more setting** that is met comes to what all of them come to, if they can stand together. -/
theorem RunRequest.meet_requestOf (hss : Acceptable ss) {r : RunRequest} :
    (requestOf before ss).meet ss x = some r ↔
      Acceptable (ss ++ [x]) ∧ requestOf before (ss ++ [x]) = r := by
  rw [meet_eq_some_iff, acceptable_concat_iff, and_iff_right hss, and_assoc]
  refine and_congr_right fun hvalid => ?_
  by_cases hnew : ∀ y ∈ ss, y.argument ≠ x.argument
  · have hnot : ¬ ∃ y ∈ ss, y.argument = x.argument := by simpa using hnew
    rw [and_iff_right hnew, and_iff_right fun _ => hnew, or_iff_left fun h => hnot h.1,
      store_requestOf hvalid hnew]
  · have hmet : ∃ y ∈ ss, y.argument = x.argument := by simpa using hnew
    rw [or_iff_right fun h => hnew h.1, and_iff_right hmet, Argument.action_eq_count_iff]
    -- only a setting that is counted can stand behind another of its argument
    constructor
    · rintro ⟨hverbose, rfl⟩
      cases x with
      | verbose => exact ⟨fun h => absurd rfl h, (counted_requestOf hmet).symm⟩
      | _ => cases hverbose
    · rintro ⟨hold, rfl⟩
      have hverbose : x.argument = .verbose := by
        by_contra h
        exact hnew (hold h)
      cases x with
      | verbose => exact ⟨rfl, counted_requestOf hmet⟩
      | _ => cases hverbose

/-- **Settings that are met** one after the other come to what all of them come to, if they can stand
together. -/
theorem RunRequest.meetAll_requestOf (hss : Acceptable ss) {xs : List Setting} {r : RunRequest} :
    (requestOf before ss).meetAll ss xs = some r ↔
      Acceptable (ss ++ xs) ∧ requestOf before (ss ++ xs) = r := by
  -- on the settings still to be met; those met already can stand together
  induction xs generalizing ss with
  | nil =>
    rw [List.append_nil, and_iff_right hss, meetAll]
    exact Option.some_inj
  | cons x xs ih =>
    rw [meetAll, Option.bind_eq_some_iff, List.append_cons ss x xs]
    constructor
    · rintro ⟨r', hmeet, hrest⟩
      obtain ⟨hx, rfl⟩ := (meet_requestOf hss).mp hmeet
      exact (ih hx).mp hrest
    · rintro ⟨hall, rfl⟩
      have hx : Acceptable (ss ++ [x]) := hall.of_append
      exact ⟨_, (meet_requestOf hss).mpr ⟨hx, rfl⟩, (ih hx).mpr ⟨hall, rfl⟩⟩

end

instance (ss : List Setting) : Decidable (Acceptable ss) :=
  decidable_of_iff (((requestOf [] []).meetAll [] ss).isSome = true) (by
    simp [Option.isSome_iff_exists, RunRequest.meetAll_requestOf acceptable_nil])

/-! ## How a command line is read -/

namespace Line

/-- The line with several units more. -/
def addAll {s : Side} (line : Line s) (us : List (OptionUnit s)) : Line s :=
  us.foldl add line

variable {s : Side} (line : Line s)

theorem written_addAll (us : List (OptionUnit s)) :
    (line.addAll us).written = line.written ++ us.flatMap OptionUnit.arguments := by
  induction us generalizing line with
  | nil => simp [addAll]
  | cons u us ih =>
    show ((line.add u).addAll us).written = _
    rw [ih, written, List.flatMap_cons, List.append_assoc]

theorem request?_addAll (us : List (OptionUnit s)) :
    (line.addAll us).request? = line.request?.bind fun r => r.meetAll line.said (CommandLine.said us) := by
  induction us generalizing line with
  | nil => simp [addAll, CommandLine.said, RunRequest.meetAll]
  | cons u us ih =>
    show ((line.add u).addAll us).request? = _
    simp only [ih, request?, said, CommandLine.said, List.flatMap_cons, RunRequest.meetAll_append,
      Option.bind_assoc]

/-- The line with these units before and after `run`. -/
def ofUnits (before : List (OptionUnit .before)) (after : List (OptionUnit .after)) : Line .after :=
  (run (start.addAll before)).addAll after

variable (before : List (OptionUnit .before)) (after : List (OptionUnit .after))

theorem arguments_ofUnits : (ofUnits before after).arguments = commandLine before after := by
  show (ofUnits before after).written = _
  rw [ofUnits, written_addAll, written, written_addAll]
  simp [written, commandLine]

theorem request?_ofUnits {r : RunRequest} :
    (ofUnits before after).request? = some r ↔
      Acceptable (CommandLine.said before) ∧ Acceptable (CommandLine.said after) ∧
        requestOf (CommandLine.said before) (CommandLine.said after) = r := by
  have hbefore {r : RunRequest} : (run (start.addAll before)).request? = some r ↔
      Acceptable (CommandLine.said before) ∧ requestOf (CommandLine.said before) [] = r := by
    rw [request?, request?_addAll, requestOf_nil]
    show (requestOf [] []).meetAll [] (CommandLine.said before) = some r ↔ _
    exact RunRequest.meetAll_requestOf acceptable_nil
  rw [ofUnits, request?_addAll, Option.bind_eq_some_iff]
  constructor
  · rintro ⟨r', hr', hafter⟩
    obtain ⟨hacceptable, rfl⟩ := hbefore.mp hr'
    exact ⟨hacceptable, (RunRequest.meetAll_requestOf acceptable_nil).mp hafter⟩
  · rintro ⟨hacceptable, hafter⟩
    exact ⟨_, hbefore.mpr ⟨hacceptable, rfl⟩, (RunRequest.meetAll_requestOf acceptable_nil).mpr hafter⟩

end Line

namespace ArgumentParser.Documented

variable {parser : ArgumentParser} {before : List (OptionUnit .before)} {after : List (OptionUnit .after)}

/-- A command line is accepted exactly if the settings on each side can stand together. -/
theorem invocation_eq_run_iff (h : parser.Documented) {request : RunRequest} :
    parser.invocation (commandLine before after) = .run request ↔
      Acceptable (said before) ∧ Acceptable (said after) ∧
        requestOf (said before) (said after) = request := by
  rw [← Line.request?_ofUnits, ← Line.arguments_ofUnits]
  show parser.reads (Line.ofUnits before after) = _ ↔ _
  rw [h.reads_eq]
  cases (Line.ofUnits before after).request? with
  | none => exact ⟨nofun, nofun⟩
  | some r => simp [Invocation.ofRequest?]

theorem invocation_eq_unusable (h : parser.Documented)
    (hnot : ¬ (Acceptable (said before) ∧ Acceptable (said after))) :
    parser.invocation (commandLine before after) = .unusable := by
  rw [← Line.arguments_ofUnits]
  show parser.reads (Line.ofUnits before after) = _
  rw [h.reads_eq]
  cases hrequest : (Line.ofUnits before after).request? with
  | none => rfl
  | some r =>
    obtain ⟨hbefore, hafter, _⟩ := (Line.request?_ofUnits before after).mp hrequest
    exact absurd ⟨hbefore, hafter⟩ hnot

end ArgumentParser.Documented

/-- Counting further than a byte can would not show more of the log. -/
theorem level_requestOf (before after : List Setting) :
    (requestOf before after).level = saidLevel before after := by
  have htrace (b : UInt8) (hb : 3 ≤ b.toNat) :
      RunRequest.level { verbosity := b } = .trace := by
    rw [RunRequest.level, if_neg Bool.false_ne_true]
    split <;> simp_all
  simp only [RunRequest.level, requestOf, saidLevel, decide_eq_true_eq]
  split
  · rfl
  · match saidVerbosity before after with
    | 0 | 1 | 2 => rfl
    | n + 3 =>
      refine htrace (.ofNat (min (n + 3) 255)) ?_
      rw [UInt8.toNat_ofNat_of_lt' (by show _ < 256; omega)]
      omega

/-! ## The same settings written otherwise -/

/-- The units of one side in another order, or with some clusters split or merged. -/
inductive Rearranged {s : Side} : List (OptionUnit s) → List (OptionUnit s) → Prop where
  | reorder {us us' : List (OptionUnit s)} : us.Perm us' → Rearranged us us'
  | split (us us' : List (OptionUnit s)) (first first' : Switch) (others others' : List Switch) :
      Rearranged (us ++ .cluster first (others ++ first' :: others') :: us')
        (us ++ .cluster first others :: .cluster first' others' :: us')
  | merge (us us' : List (OptionUnit s)) (first first' : Switch) (others others' : List Switch) :
      Rearranged (us ++ .cluster first others :: .cluster first' others' :: us')
        (us ++ .cluster first (others ++ first' :: others') :: us')
  | trans {us us' us'' : List (OptionUnit s)} :
      Rearranged us us' → Rearranged us' us'' → Rearranged us us''

theorem settings_split {s : Side} (us us' : List (OptionUnit s)) (first first' : Switch)
    (others others' : List Switch) :
    said (us ++ .cluster first (others ++ first' :: others') :: us') =
      said (us ++ .cluster first others :: .cluster first' others' :: us') := by
  simp [said, OptionUnit.settings]

/-- It says the same settings in some order. -/
theorem Rearranged.said_perm {s : Side} {us us' : List (OptionUnit s)} (h : Rearranged us us') :
    (said us).Perm (said us') := by
  induction h with
  | reorder h => exact h.flatMap_right _
  | split us us' first first' others others' =>
    exact .of_eq (settings_split us us' first first' others others')
  | merge us us' first first' others others' =>
    exact .of_eq (settings_split us us' first first' others others').symm
  | trans _ _ ih ih' => exact ih.trans ih'

theorem Acceptable.of_perm {ss ss' : List Setting} (hperm : ss.Perm ss') (h : Acceptable ss) :
    Acceptable ss' where
  once a ha := hperm.countP_eq _ ▸ h.once a ha
  colors name hmem := h.colors name (hperm.mem_iff.mpr hmem)
  programs name hmem := h.programs name (hperm.mem_iff.mpr hmem)

/-- What is chosen once at most can be found in any order. -/
theorem findSome?_of_perm {β : Type} {ss ss' : List Setting} (hperm : ss.Perm ss') (hss : Acceptable ss)
    {a : Argument} (ha : a ≠ .verbose) {p : Setting → Option β}
    (hp : ∀ x, (p x).isSome = true → x.argument = a) : ss.findSome? p = ss'.findSome? p := by
  have hone : (ss.filterMap p).length ≤ 1 := by
    rw [List.length_filterMap_eq_countP]
    exact Nat.le_trans (List.countP_mono_left fun x _ h => decide_eq_true (hp x h)) (hss.once a ha)
  -- at most one setting is found, so what is found stands in one order only
  have hsame : ss.filterMap p = ss'.filterMap p := by
    have hfound := hperm.filterMap p
    match hcase : ss.filterMap p with
    | [] => rw [hcase] at hfound; exact hfound.nil_eq
    | [b] => rw [hcase] at hfound; exact (List.singleton_perm.mp hfound)
    | _ :: _ :: _ => rw [hcase] at hone; simp at hone
  rw [← List.head?_filterMap, ← List.head?_filterMap, hsame]

/-- The order of settings does not matter. -/
theorem requestOf_of_perm {before before' after after' : List Setting} (hbefore : before.Perm before')
    (hafter : after.Perm after') (hb : Acceptable before) (ha : Acceptable after) :
    requestOf before' after' = requestOf before after := by
  have hmode {ss ss' : List Setting} (hperm : ss.Perm ss') (hss : Acceptable ss) :=
    findSome?_of_perm hperm hss (by decide) Setting.argument_of_mode?
  have hprogram {ss ss' : List Setting} (hperm : ss.Perm ss') (hss : Acceptable ss) :=
    findSome?_of_perm hperm hss (by decide) Setting.argument_of_programName?
  simp only [requestOf, saidVerbosity, hbefore.count_eq, hafter.count_eq, hbefore.mem_iff, hafter.mem_iff,
    hmode hbefore hb, hmode hafter ha, hprogram hbefore hb, hprogram hafter ha]

/-- **The settings on each side of `run` decide**, for any parser that does what is documented. A command line
is accepted exactly if the settings on each side can stand together, and the settings alone tell what it
asks for. So it does not matter in which order they stand on a side, or in which clusters. -/
theorem options_depend_on_sides {parser : ArgumentParser} (h : parser.Documented)
    (before : List (OptionUnit .before)) (after : List (OptionUnit .after)) :
    (∀ request, parser.invocation (commandLine before after) = .run request ↔
      Acceptable (said before) ∧ Acceptable (said after) ∧
        requestOf (said before) (said after) = request) ∧
    (¬ (Acceptable (said before) ∧ Acceptable (said after)) →
      parser.invocation (commandLine before after) = .unusable) ∧
    (requestOf (said before) (said after)).level = saidLevel (said before) (said after) ∧
    ∀ (before' : List (OptionUnit .before)) (after' : List (OptionUnit .after)),
      Rearranged before before' → Rearranged after after' →
        parser.invocation (commandLine before' after') = parser.invocation (commandLine before after) ∧
        (Acceptable (said before) → Acceptable (said after) →
          ∀ (budget : Nat) (s : Surroundings), s.arguments = parser →
            perform budget s (commandLine before' after') =
              perform budget s (commandLine before after)) := by
  refine ⟨fun _ => h.invocation_eq_run_iff, h.invocation_eq_unusable, level_requestOf _ _, ?_⟩
  intro before' after' hbefore hafter
  have hb := hbefore.said_perm
  have ha := hafter.said_perm
  have hsame : parser.invocation (commandLine before' after') =
      parser.invocation (commandLine before after) := by
    -- what can stand together does so in any order, so both lines are accepted or neither
    by_cases hboth : Acceptable (said before) ∧ Acceptable (said after)
    · obtain ⟨hbs, has⟩ := hboth
      rw [h.invocation_eq_run_iff.mpr ⟨hbs, has, rfl⟩]
      exact h.invocation_eq_run_iff.mpr ⟨hbs.of_perm hb, has.of_perm ha, requestOf_of_perm hb ha hbs has⟩
    · rw [h.invocation_eq_unusable hboth]
      exact h.invocation_eq_unusable fun hboth' =>
        hboth ⟨hboth'.1.of_perm hb.symm, hboth'.2.of_perm ha.symm⟩
  refine ⟨hsame, fun hbs has budget s hs => ?_⟩
  have hrun := h.invocation_eq_run_iff.mpr ⟨hbs, has, rfl⟩
  subst hs
  rw [perform, perform, hsame, hrun]

/-- Colour is chosen on both sides, in both ways, and a cluster is taken apart. Being quiet twice on one side
is not understood. -/
theorem options_depend_on_sides_rearranged :
    ArgumentParser.plain.invocation
        ["--color", "never", "-v", "-q", "run", "--time", "--color=always", "-v", "a.tb"] =
      ArgumentParser.plain.invocation
        ["-qv", "--color", "never", "run", "-v", "a.tb", "--time", "--color=always"] ∧
    ArgumentParser.plain.invocation
        ["-qv", "--color", "never", "run", "-v", "a.tb", "--time", "--color=always"] =
      .run { verbosity := 1, quiet := true, color := .always, time := true, program := some "a.tb" } ∧
    ArgumentParser.plain.invocation ["-q", "--quiet", "run"] = .unusable := by
  let never : ColorWord := ⟨"never", by decide⟩
  let always : ColorWord := ⟨"always", by decide⟩
  let before : List (OptionUnit .before) := [.cluster .quiet [.verbose], .color never]
  let after : List (OptionUnit .after) :=
    [.cluster .verbose [], .program ⟨"a.tb", nofun⟩, .time, .colorAttached always]
  have hbefore : Rearranged before [.color never, .cluster .verbose [], .cluster .quiet []] :=
    .trans (.split [] _ .quiet .verbose [] []) (.reorder (List.reverse_perm _).symm)
  have hafter : Rearranged after
      [.time, .colorAttached always, .cluster .verbose [], .program ⟨"a.tb", nofun⟩] :=
    .reorder (List.perm_append_comm : ([_, _] ++ [_, _]).Perm _)
  obtain ⟨haccepted, -, -, hrearranged⟩ :=
    options_depend_on_sides ArgumentParser.documented_plain before after
  refine ⟨(hrearranged _ _ hbefore hafter).1, (haccepted _).mpr ⟨by decide, by decide, rfl⟩, ?_⟩
  exact (options_depend_on_sides ArgumentParser.documented_plain
      [.cluster .quiet [], .long .quiet] []).2.1 (by decide)

end RegisterMachine.CommandLine
