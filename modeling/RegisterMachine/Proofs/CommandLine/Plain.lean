import RegisterMachine.Proofs.CommandLine.Documented

/-!
# The usual parser

`ArgumentParser.plain` does what is documented of parsers: what is written is scanned as what it says, and
the settings are met one after the other.

* **`scan_arguments`**, **`Line.scan_written`** — scanning what is written gives back what is said.
* **`Line.ofItems_append`** — what is said on a line is taken in as its request.
* **`ArgumentParser.documented_plain`** — the usual parser is as documented.
-/

namespace RegisterMachine.CommandLine

/-! ## Scanning -/

namespace ArgumentForm

theorem of_cluster {c : Char} (hc : c ≠ '-') (cs : List Char) : of ('-' :: c :: cs) = .cluster (c :: cs) := by
  unfold of
  split <;> simp_all

theorem of_long_attached {name : List Char} (h : '=' ∉ name) (value : List Char) :
    of ('-' :: '-' :: (name ++ '=' :: value)) = .long name (some value) := by
  have hname : ∀ c ∈ name, decide (c ≠ '=') = true := by
    intro c hc
    simpa using fun heq : c = '=' => h (heq ▸ hc)
  have hdrop : (name ++ '=' :: value).dropWhile (· ≠ '=') = '=' :: value := by
    rw [List.dropWhile_append_of_pos hname]
    simp
  have htake : (name ++ '=' :: value).takeWhile (· ≠ '=') = name := by
    rw [List.takeWhile_append_of_pos hname]
    simp
  unfold of
  split
  · simp_all
  · next heq =>
    cases heq
    rw [hdrop]
    show long ((name ++ '=' :: value).takeWhile (· ≠ '=')) (some value) = _
    rw [htake]
  · grind
  · simp_all

theorem of_word {cs : List Char} (h : cs.head? = some '-' → cs = ['-']) : of cs = .word := by
  unfold of
  split <;> simp_all

end ArgumentForm

section

variable {s : Side} {arg : String}

theorem scan_of_cluster {names : List Char} (h : ArgumentForm.of arg.toList = .cluster names)
    (rest : List String) : scan s (arg :: rest) = names.map (Item.ofShort s) ++ scan s rest := by
  rw [scan.eq_def]
  simp only [h]

theorem scan_of_long {name : List Char} (h : ArgumentForm.of arg.toList = .long name none)
    (hname : name ≠ "color".toList) (rest : List String) :
    scan s (arg :: rest) = Item.ofLong s name :: scan s rest := by
  rw [scan.eq_def]
  simp only [h]
  exact if_neg hname

theorem scan_of_color (h : ArgumentForm.of arg.toList = .long "color".toList none) (name : String)
    (rest : List String) : scan s (arg :: name :: rest) = .setting (.color name) :: scan s rest := by
  rw [scan.eq_def]
  simp only [h]
  exact if_pos trivial

theorem scan_of_color_attached {name : List Char}
    (h : ArgumentForm.of arg.toList = .long "color".toList (some name)) (rest : List String) :
    scan s (arg :: rest) = .setting (.color (String.ofList name)) :: scan s rest := by
  rw [scan.eq_def]
  simp only [h]
  exact if_pos trivial

theorem scan_of_word (h : ArgumentForm.of arg.toList = .word) (rest : List String) :
    scan .after (arg :: rest) = .setting (.program arg) :: scan .after rest := by
  rw [scan.eq_def]
  simp only [h]

end

theorem Item.ofShort_letter (s : Side) (switch : Switch) :
    ofShort s switch.letter = .setting switch.setting := by
  cases switch <;> rfl

theorem Item.ofLong_longName (s : Side) (switch : Switch) :
    ofLong s switch.longName.toList = .setting switch.setting := by
  cases s <;> cases switch <;> decide

/-- **What is written is scanned as what it says**, and scanning goes on behind it. -/
theorem scan_arguments {s : Side} (u : OptionUnit s) (rest : List String) :
    scan s (u.arguments ++ rest) = u.settings.map Item.setting ++ scan s rest := by
  cases u with
  | cluster first others =>
    -- a cluster does not begin with a second dash, so it is no long option
    have hdash : first.letter ≠ '-' := by cases first <;> decide
    have hform : ArgumentForm.of (String.ofList ('-' :: (first :: others).map Switch.letter)).toList =
        .cluster ((first :: others).map Switch.letter) := by
      rw [String.toList_ofList]
      exact ArgumentForm.of_cluster hdash _
    show scan s (_ :: rest) = _
    rw [scan_of_cluster hform, OptionUnit.settings, List.map_map, List.map_map]
    congr 1
    exact List.map_congr_left fun switch _ => Item.ofShort_letter s switch
  | long switch =>
    have hform : ArgumentForm.of ("--" ++ switch.longName).toList =
        .long switch.longName.toList none := by
      cases switch <;> decide
    have hname : switch.longName.toList ≠ "color".toList := by cases switch <;> decide
    show scan s (_ :: rest) = _
    rw [scan_of_long hform hname, Item.ofLong_longName]
    rfl
  | color word =>
    exact scan_of_color (by decide) word.text rest
  | colorAttached word =>
    have hform : ArgumentForm.of ("--color=" ++ word.text).toList =
        .long "color".toList (some word.text.toList) := by
      rw [String.toList_append]
      exact ArgumentForm.of_long_attached (show '=' ∉ "color".toList by decide) word.text.toList
    show scan s (_ :: rest) = _
    rw [scan_of_color_attached hform, String.ofList_toList]
    rfl
  | time =>
    have hform : ArgumentForm.of "--time".toList = .long "time".toList none := by decide
    exact scan_of_long hform (by decide) rest
  | program word =>
    have hform : ArgumentForm.of word.text.toList = .word := by
      apply ArgumentForm.of_word
      intro hdash
      rw [word.plain hdash]
      rfl
    exact scan_of_word hform rest

namespace Line

/-- What a line says. -/
def items {s : Side} : Line s → List Item
  | start => []
  | run line => line.items ++ [.run]
  | add line u => line.items ++ u.settings.map .setting

/-- Scanning a line gives back what it says. -/
theorem scan_written {s : Side} (line : Line s) (rest : List String) :
    scan .before (line.written ++ rest) = line.items ++ scan s rest := by
  -- on the line from its end, so that scanning goes on with what comes behind
  induction line generalizing rest with
  | start => rfl
  | run line ih =>
    rw [written, List.append_assoc, ih, items, List.append_assoc]
    rfl
  | add line u ih => rw [written, List.append_assoc, ih, scan_arguments, items, List.append_assoc]

end Line

/-! ## Taking in -/

namespace Invocation

/-- Settings are met one after the other. -/
theorem ofItems_settings (s : Side) (seen : List Setting) (r : RunRequest) (xs : List Setting)
    (items : List Item) :
    ofItems s seen r (xs.map .setting ++ items) =
      (r.meetAll seen xs).elim unusable fun r => ofItems s (seen ++ xs) r items := by
  induction xs generalizing seen r with
  | nil => simp [RunRequest.meetAll]
  | cons x xs ih =>
    rw [List.map_cons, List.cons_append, ofItems, RunRequest.meetAll]
    cases r.meet seen x with
    | none => rfl
    | some r => simp [ih]

end Invocation

namespace Line

open Invocation

/-- What is said on a line is taken in as its request. -/
theorem ofItems_append {s : Side} (line : Line s) (items : List Item) :
    ofItems .before [] {} (line.items ++ items) =
      line.request?.elim unusable fun r => ofItems s line.said r items := by
  induction line generalizing items with
  | start => rfl
  | run line ih =>
    rw [Line.items, List.append_assoc, ih]
    rfl
  | add line u ih =>
    rw [Line.items, List.append_assoc, ih, request?]
    cases line.request? with
    | none => rfl
    | some r => exact ofItems_settings _ line.said r u.settings items

theorem reads_plain {s : Side} (line : Line s) :
    ArgumentParser.plain.reads line = .ofRequest? line.request? := by
  have hends (answer : Option RunRequest) :
      (answer.elim unusable Invocation.run) = .ofRequest? answer := by
    cases answer <;> rfl
  cases s with
  | before =>
    show ofItems .before [] {} (scan .before (line.written ++ ["run"])) = _
    rw [line.scan_written, line.ofItems_append, ← hends]
    rfl
  | after =>
    show ofItems .before [] {} (scan .before line.written) = _
    rw [← List.append_nil line.written, line.scan_written, line.ofItems_append, ← hends]
    rfl

end Line

namespace ArgumentParser

theorem request?_of_reads_plain {s : Side} {line : Line s} {r : RunRequest}
    (h : plain.reads line = .run r) : line.request? = some r := by
  rw [line.reads_plain] at h
  cases hrequest : line.request? with
  | none => rw [hrequest] at h; cases h
  | some r' => rw [hrequest] at h; cases h; rfl

theorem reads_plain_add {s : Side} {line : Line s} {r : RunRequest} (u : OptionUnit s) {x : Setting}
    (hu : u.settings = [x]) (h : plain.reads line = .run r) :
    plain.reads (line.add u) = .ofRequest? (r.meet line.said x) := by
  rw [Line.reads_plain, Line.request?, request?_of_reads_plain h, hu, Option.bind_some,
    RunRequest.meetAll_singleton]

theorem reads_plain_add_of_refused {s : Side} {line : Line s} (u : OptionUnit s) {x : Setting}
    (hu : u.settings = [x]) (h : ∀ r : RunRequest, r.meet line.said x = none) :
    plain.reads (line.add u) = .unusable := by
  rw [Line.reads_plain, Line.request?, hu]
  cases line.request? with
  | none => rfl
  | some r => rw [Option.bind_some, RunRequest.meetAll_singleton, h r]; rfl

/-- **The usual parser is as documented.** -/
theorem documented_plain : plain.Documented where
  bare := Line.start.reads_plain
  cluster line first second others := by
    rw [Line.reads_plain, Line.reads_plain, Line.request?_cluster]
  first line u x r hu h hvalid hnew := by
    rw [reads_plain_add u hu h, RunRequest.meet_of_new hnew, if_pos hvalid]
    rfl
  counted line u x r hu h hmet hcount := by
    have hvalid : x.isValid = true := by cases x <;> first | rfl | cases hcount
    rw [reads_plain_add u hu h, RunRequest.meet_of_met hmet, if_pos ⟨hvalid, hcount⟩]
    rfl
  repeated line u x hu hmet haction :=
    reads_plain_add_of_refused u hu fun _ => RunRequest.meet_eq_none_iff.mpr (.inr ⟨hmet, haction⟩)
  invalid line u x hu hinvalid :=
    reads_plain_add_of_refused u hu fun _ => RunRequest.meet_eq_none_iff.mpr (.inl hinvalid)
  refused line u h := by
    rw [Line.reads_plain] at h ⊢
    cases hrequest : line.request? with
    | none => rw [Line.request?, hrequest]; rfl
    | some r => rw [hrequest] at h; cases h

end ArgumentParser

end RegisterMachine.CommandLine
