import DepthGauge.Proofs.CommandLine.Understood
import DepthGauge.Proofs.Program.Ending

/-!
# Accepted arguments and configurations

What is accepted on a command line makes a configuration, unless two checkpoints are for one line.
Neither a line zero nor a part that is missing can be the reason, since everything that was taken
over has been checked.

## Main definitions

* `Arguments.IsSound`: what is known of accepted arguments.

## Main results

* `Arguments.isSound_of_parse`: whatever is accepted is sound.
* `Arguments.IsSound.toConfig_eq_error_iff`: sound arguments make a configuration, or repeat a line.
* `Arguments.accepted_toConfig`: the two together, up to the failures of a run.
-/

namespace DepthGauge.Arguments

variable {argv : List String} {args : Arguments} {config : Config} {e : TableError}

/-- Nothing that was taken over is out of bounds. -/
structure IsSound (args : Arguments) : Prop where
  path_ne : args.path ≠ ""
  notBoth : ¬ (args.quiet = true ∧ 0 < args.verbose)
  one_le_line : ∀ c ∈ args.checkpoints, 1 ≤ c.line
  line_le : ∀ c ∈ args.checkpoints, c.line ≤ maxLineNumber
  label_ne : ∀ c ∈ args.checkpoints, c.label ≠ ""
  trim_label : ∀ c ∈ args.checkpoints, trim c.label.toList = c.label.toList

theorem isSound_of_parse (h : parse argv = .ok args) : args.IsSound := by
  obtain ⟨hcheckpoints, hpath⟩ := of_parse_eq_ok h
  have hwritable (c : Checkpoint) (hc : c ∈ args.checkpoints) : c.IsWritable := by
    obtain ⟨value, hvalue⟩ := hcheckpoints c hc
    exact Checkpoint.isWritable_of_parse_eq_ok hvalue
  obtain ⟨items, -, hitems, rfl⟩ := parse_eq_ok_iff.1 h
  refine ⟨hpath, ?_, fun c hc => (hwritable c hc).one_le_line,
    fun c hc => (hwritable c hc).line_le, fun c hc => (hwritable c hc).label_ne,
    fun c hc => trim_eq_self_iff.2 (hwritable c hc).isTrimmed_label⟩
  rintro ⟨hquiet, hverbose⟩
  have hnone := hitems.notBoth (by simpa [ofItems] using hquiet)
  simp [ofItems, List.count_eq_zero.2 hnone] at hverbose

namespace IsSound

theorem line_ne_zero (h : args.IsSound) : ∀ c ∈ args.checkpoints, c.line ≠ 0 :=
  fun c hc => Nat.one_le_iff_ne_zero.1 (h.one_le_line c hc)

theorem toConfig_eq_error_iff (h : args.IsSound) :
    args.toConfig = .error e ↔ ∃ line, args.Repeats line ∧ e = .duplicate line := by
  constructor
  · exact of_toConfig_eq_error_of_ne_zero h.line_ne_zero
  · rintro ⟨line, hline, rfl⟩
    cases hconfig : args.toConfig with
    | ok config => exact absurd (nodup_of_toConfig_eq_ok hconfig) hline.not_nodup
    | error e =>
      obtain ⟨other, hother, rfl⟩ := of_toConfig_eq_error_of_ne_zero h.line_ne_zero hconfig
      rw [hline.unique hother]

theorem exists_toConfig_eq_error_iff (h : args.IsSound) :
    (∃ e, args.toConfig = .error e) ↔ ¬ (args.checkpoints.map Checkpoint.line).Nodup := by
  constructor
  · rintro ⟨e, he⟩
    obtain ⟨line, hline, -⟩ := h.toConfig_eq_error_iff.1 he
    exact hline.not_nodup
  · intro hrepeated
    cases hconfig : args.toConfig with
    | error e => exact ⟨e, rfl⟩
    | ok config => exact absurd (nodup_of_toConfig_eq_ok hconfig) hrepeated

theorem failure?_run_ne_config (h : args.IsSound) (files : FileReader) (stdout : Sink)
    (fault : ConfigError) :
    (args.run files stdout).failure? ≠ some (.inspection (.config fault)) := by
  obtain ⟨ending, hends⟩ := run_ends_of_ne_zero h.line_ne_zero files stdout
  intro hfailure
  have hending := hends.ending?_eq
  simp [Session.ending?, hfailure] at hending

end IsSound

theorem of_toConfig_eq_ok (h : args.toConfig = .ok config) : config.path = args.path ∧
    (args.checkpoints = [] → config.checkpoints = .adminPage) ∧
    (args.checkpoints ≠ [] → config.checkpoints.toList = args.checkpoints) := by
  obtain ⟨hpath, ⟨hnil, htable⟩ | ⟨hne, htable⟩⟩ := toConfig_eq_ok_iff.1 h
  · exact ⟨hpath, fun _ => htable, fun hne => absurd hnil hne⟩
  · exact ⟨hpath, fun hnil => absurd hnil hne, fun _ => (Table.of_ofEntries_eq_ok htable).2⟩

/-- The default checkpoints make a table too. -/
theorem exists_ofEntries_of_toConfig_eq_ok (h : args.toConfig = .ok config) :
    ∃ entries, Table.ofEntries entries = .ok config.checkpoints := by
  obtain ⟨-, ⟨-, htable⟩ | ⟨-, htable⟩⟩ := toConfig_eq_ok_iff.1 h
  · exact ⟨_, htable ▸ Table.ofEntries_adminPageEntries⟩
  · exact ⟨_, htable⟩

/-- Accepted arguments are sound, with the checkpoints in the order of the command line. Sound
arguments make a configuration of just what they say, unless a line is given twice: then the first
checkpoint for the line of an earlier one is the reason, and no other reason is left. -/
theorem accepted_toConfig :
    (∀ argv args, parse argv = .ok args → args.IsSound ∧
      ∃ items, Item.Spells Checkpoint.IsReadFrom items argv ∧ args = ofItems items) ∧
    ∀ args : Arguments, args.IsSound →
      (∀ e, args.toConfig = .error e ↔ ∃ line, args.Repeats line ∧ e = .duplicate line) ∧
      ((∃ e, args.toConfig = .error e) ↔ ¬ (args.checkpoints.map Checkpoint.line).Nodup) ∧
      (∀ config, args.toConfig = .ok config → config.path = args.path ∧
        (args.checkpoints = [] → config.checkpoints = .adminPage) ∧
        (args.checkpoints ≠ [] → config.checkpoints.toList = args.checkpoints)) ∧
      ∀ files stdout fault,
        (args.run files stdout).failure? ≠ some (.inspection (.config fault)) := by
  refine ⟨fun argv args h => ⟨isSound_of_parse h, ?_⟩, fun args h => ?_⟩
  · obtain ⟨items, hspells, -, hargs⟩ := parse_eq_ok_iff.1 h
    exact ⟨items, hspells, hargs⟩
  · exact ⟨fun e => h.toConfig_eq_error_iff, h.exists_toConfig_eq_error_iff,
      fun config => of_toConfig_eq_ok, h.failure?_run_ne_config⟩

/-- Of two lines that are given twice, the one whose second checkpoint comes first. -/
theorem accepted_toConfig_two_repeats : ∃ args : Arguments,
    parse ["-c3=a", "-c", "2=b", "x", "--checkpoint=2=c", "-c3=d"] = .ok args ∧
      args.toConfig = .error (.duplicate 2) := by
  have hparse : parse ["-c3=a", "-c", "2=b", "x", "--checkpoint=2=c", "-c3=d"] =
      .ok ⟨"x", [⟨3, "a"⟩, ⟨2, "b"⟩, ⟨2, "c"⟩, ⟨3, "d"⟩], 0, false⟩ := by rfl
  obtain ⟨haccepted, hconfigures⟩ := accepted_toConfig
  have hfails := (hconfigures _ (haccepted _ _ hparse).1).1 (.duplicate 2)
  exact ⟨_, hparse, hfails.2
    ⟨2, ⟨[⟨3, "a"⟩, ⟨2, "b"⟩], ⟨2, "c"⟩, [⟨3, "d"⟩], rfl, by simp, by simp, rfl⟩, rfl⟩⟩

end DepthGauge.Arguments
