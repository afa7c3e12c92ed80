import DepthGauge.CommandLine.Reading
import DepthGauge.Proofs.Checkpoint.Lookup

/-!
# Checked arguments

A value that is held back is checked before it is taken over. So nothing that was taken over is
unchecked, whatever order flags and values come in.

## Main definitions

* `Reading.IsChecked`: what is known of the values that were taken over.
* `Arguments.Repeats`: the first checkpoint for the line of an earlier one.

## Main results

* `Reading.IsChecked.step`: an argument keeps it.
* `Arguments.of_parse_eq_ok`: what is known of the meaning of a command line.
* `Arguments.of_toConfig_eq_error`: a repeated line is all that can be wrong with it.
-/

namespace DepthGauge

namespace Reading

structure IsChecked (r : Reading) : Prop where
  checkpoints : ∀ c ∈ r.checkpoints.toList, ∃ value, Checkpoint.parse value = .ok c
  path : r.path? ≠ some ""

theorem isChecked_start : ({} : Reading).IsChecked := ⟨nofun, nofun⟩

namespace IsChecked

variable {r r' : Reading}

theorem addCheckpoint (h : r.IsChecked) {value : String} (hr : r.addCheckpoint value = .ok r') :
    r'.IsChecked := by
  unfold Reading.addCheckpoint at hr
  split at hr
  · next c hc =>
    cases hr
    refine ⟨?_, h.path⟩
    intro d hd
    rw [Array.toList_push, List.mem_append, List.mem_singleton] at hd
    rcases hd with hd | rfl
    · exact h.checkpoints d hd
    · exact ⟨value, hc⟩
  · cases hr

theorem settle (h : r.IsChecked) (hr : r.settle = .ok r') : r'.IsChecked := by
  unfold Reading.settle at hr
  split at hr
  · cases hr
    exact h
  · cases hr
  · exact addCheckpoint (r := { r with held := .nothing }) ⟨h.checkpoints, h.path⟩ hr
  · next value _ =>
    split at hr
    · cases hr
    · next hne =>
      cases hr
      exact ⟨h.checkpoints, fun hpath => hne (Option.some.inj hpath)⟩

theorem takePath (h : r.IsChecked) {arg : String} (hr : r.takePath arg = .ok r') :
    r'.IsChecked := by
  unfold Reading.takePath at hr
  split at hr
  · cases hr
  · obtain ⟨s, hs, hr⟩ := bind_eq_ok_iff.1 hr
    cases hr
    have hchecked := h.settle hs
    exact ⟨hchecked.checkpoints, hchecked.path⟩

theorem takeValue (h : r.IsChecked) {arg : String} (hr : r.takeValue arg = .ok r') :
    r'.IsChecked := by
  unfold Reading.takeValue at hr
  split at hr
  · cases hr
    exact ⟨h.checkpoints, h.path⟩
  · exact h.takePath hr

theorem set (h : r.IsChecked) {flag : Flag} {value? : Option (List Char)}
    (hr : r.set flag value? = .ok r') : r'.IsChecked := by
  unfold Reading.set at hr
  split at hr
  · cases hr
    exact ⟨h.checkpoints, h.path⟩
  · exact h.addCheckpoint hr
  · cases hr
    exact ⟨h.checkpoints, h.path⟩
  · split at hr
    · cases hr
    · cases hr
      exact ⟨h.checkpoints, h.path⟩
  · cases hr
  · cases hr

theorem apply (h : r.IsChecked) {flag : Flag} {value? : Option (List Char)}
    (hr : r.apply flag value? = .ok r') : r'.IsChecked := by
  obtain ⟨s, hs, hr⟩ := bind_eq_ok_iff.1 hr
  exact (h.settle hs).set hr

theorem takeLetters (h : r.IsChecked) {letters : List Char} (hr : r.takeLetters letters = .ok r') :
    r'.IsChecked := by
  induction letters generalizing r with
  | nil =>
    cases hr
    exact h
  | cons letter rest ih =>
    unfold Reading.takeLetters at hr
    split at hr
    · cases hr
    · -- The letter of the checkpoint option ends the letters.
      split at hr
      · exact h.apply hr
      · exact h.apply hr
      · exact h.apply hr
    · obtain ⟨s, hs, hr⟩ := bind_eq_ok_iff.1 hr
      exact ih (h.apply hs) hr

theorem takeWord (h : r.IsChecked) {word : List Char} (hr : r.takeWord word = .ok r') :
    r'.IsChecked := by
  unfold Reading.takeWord at hr
  split at hr
  · cases hr
  · dsimp only at hr
    split at hr
    · cases hr
    · exact h.apply hr

theorem step (h : r.IsChecked) {arg : String} (hr : r.step arg = .ok r') : r'.IsChecked := by
  unfold Reading.step at hr
  split at hr
  · exact h.takePath hr
  · split at hr
    · cases hr
      exact ⟨h.checkpoints, h.path⟩
    · exact h.takeWord hr
    · exact h.takeLetters hr
    · exact h.takeValue hr

theorem foldlM_step (h : r.IsChecked) {argv : List String}
    (hr : argv.foldlM Reading.step r = .ok r') : r'.IsChecked := by
  induction argv generalizing r with
  | nil =>
    cases hr
    exact h
  | cons arg argv ih =>
    rw [List.foldlM_cons] at hr
    obtain ⟨s, hs, hr⟩ := bind_eq_ok_iff.1 hr
    exact ih (h.step hs) hr

end IsChecked

end Reading

/-- The checkpoints were read from texts, and the path has characters. -/
theorem Arguments.of_parse_eq_ok {argv : List String} {args : Arguments}
    (h : Arguments.parse argv = .ok args) :
    (∀ c ∈ args.checkpoints, ∃ value, Checkpoint.parse value = .ok c) ∧ args.path ≠ "" := by
  obtain ⟨r, hr, hfinish⟩ := bind_eq_ok_iff.1 h
  obtain ⟨s, hs, hend⟩ := bind_eq_ok_iff.1 hfinish
  have hchecked := (Reading.isChecked_start.foldlM_step hr).settle hs
  split at hend
  · cases hend
  · cases hend
    refine ⟨hchecked.checkpoints, ?_⟩
    cases hpath : s.path? with
    | none => simp [defaultPath]
    | some path =>
      rintro rfl
      exact hchecked.path hpath

/-! ## The table of the checkpoints -/

/-- The first checkpoint for the line of an earlier one is for this line. -/
def Arguments.Repeats (args : Arguments) (line : Nat) : Prop :=
  ∃ before c after, args.checkpoints = before ++ c :: after ∧
    (before.map Checkpoint.line).Nodup ∧ c.line ∈ before.map Checkpoint.line ∧ c.line = line

namespace Arguments

variable {argv : List String} {args : Arguments} {config : Config} {e : TableError}

theorem toConfig_eq_ok_iff : args.toConfig = .ok config ↔ config.path = args.path ∧
    (args.checkpoints = [] ∧ config.checkpoints = .adminPage ∨
      args.checkpoints ≠ [] ∧ Table.ofEntries args.checkpoints = .ok config.checkpoints) := by
  obtain ⟨path, checkpoints⟩ := config
  by_cases hnil : args.checkpoints = []
  · simp [toConfig_of_nil hnil, hnil, eq_comm (b := path), eq_comm (b := checkpoints)]
  · have hsome := toConfig_of_ne_nil hnil
    cases htable : Table.ofEntries args.checkpoints with
    | error e => simp [hsome, htable, hnil, Except.map]
    | ok table => simp [hsome, htable, hnil, Except.map, eq_comm (b := path)]

theorem exists_toConfig_eq_ok (hne : args.checkpoints ≠ [])
    (hzero : ∀ c ∈ args.checkpoints, c.line ≠ 0)
    (hnodup : (args.checkpoints.map Checkpoint.line).Nodup) : ∃ table,
      Table.ofEntries args.checkpoints = .ok table ∧ args.toConfig = .ok ⟨args.path, table⟩ := by
  obtain ⟨table, htable⟩ := Table.ofEntries_isOk_iff.2 ⟨hzero, hnodup⟩
  exact ⟨table, htable, toConfig_eq_ok_iff.2 ⟨rfl, .inr ⟨hne, htable⟩⟩⟩

theorem ofEntries_eq_error_of_toConfig (h : args.toConfig = .error e) :
    Table.ofEntries args.checkpoints = .error e := by
  by_cases hnil : args.checkpoints = []
  · cases (toConfig_of_nil hnil).symm.trans h
  · rw [toConfig_of_ne_nil hnil] at h
    cases htable : Table.ofEntries args.checkpoints with
    | ok table => simp [htable, Except.map] at h
    | error e' => simpa [htable, Except.map] using h

theorem of_toConfig_eq_error_of_ne_zero (hne : ∀ c ∈ args.checkpoints, c.line ≠ 0)
    (he : args.toConfig = .error e) : ∃ line, args.Repeats line ∧ e = .duplicate line := by
  obtain ⟨before, c, after, hsplit, ⟨u, hbefore⟩, hbad⟩ :=
    Table.of_ofEntries_eq_error (ofEntries_eq_error_of_toConfig he)
  rcases hbad with ⟨hzero, -⟩ | ⟨-, hused, rfl⟩
  · exact absurd hzero (hne c (by simp [hsplit]))
  · exact ⟨c.line, ⟨before, c, after, hsplit, (Table.ofEntries_isOk_iff.1 ⟨u, hbefore⟩).2,
      hused, rfl⟩, rfl⟩

/-- No checkpoint that was read is for line zero. -/
theorem line_ne_zero_of_parse (h : parse argv = .ok args) : ∀ c ∈ args.checkpoints, c.line ≠ 0 := by
  intro c hc
  obtain ⟨value, hvalue⟩ := (of_parse_eq_ok h).1 c hc
  exact Nat.one_le_iff_ne_zero.1 (Checkpoint.parse_bounds hvalue).1

theorem of_toConfig_eq_error (h : parse argv = .ok args) (he : args.toConfig = .error e) :
    ∃ line, args.Repeats line ∧ e = .duplicate line :=
  of_toConfig_eq_error_of_ne_zero (line_ne_zero_of_parse h) he

theorem Repeats.mem {line : Nat} (h : args.Repeats line) :
    line ∈ args.checkpoints.map Checkpoint.line := by
  obtain ⟨before, c, after, hsplit, -, -, rfl⟩ := h
  simp [hsplit]

theorem not_nodup_of_mem {before after : List Checkpoint} {c : Checkpoint}
    (h : c.line ∈ before.map Checkpoint.line) :
    ¬ ((before ++ c :: after).map Checkpoint.line).Nodup := by
  rw [List.map_append, List.nodup_append]
  exact fun hnodup => hnodup.2.2 c.line h c.line (by simp) rfl

theorem Repeats.not_nodup {line : Nat} (h : args.Repeats line) :
    ¬ (args.checkpoints.map Checkpoint.line).Nodup := by
  obtain ⟨before, c, after, hsplit, -, hused, rfl⟩ := h
  exact hsplit ▸ not_nodup_of_mem hused

/-- Only one checkpoint is the first for the line of an earlier one. -/
theorem Repeats.unique {line other : Nat} (h : args.Repeats line) (h' : args.Repeats other) :
    line = other := by
  obtain ⟨before, c, after, hsplit, hnodup, hused, rfl⟩ := h
  obtain ⟨before', c', after', hsplit', hnodup', hused', rfl⟩ := h'
  -- If one of them comes first, those before the other one repeat a line already.
  obtain ⟨between, rfl, heq⟩ | ⟨between, rfl, heq⟩ :=
    List.append_eq_append_iff.1 (hsplit.symm.trans hsplit')
  · cases between with
    | nil => cases heq; rfl
    | cons d between =>
      cases heq
      exact absurd hnodup' (not_nodup_of_mem hused)
  · cases between with
    | nil => cases heq; rfl
    | cons d between =>
      cases heq
      exact absurd hnodup (not_nodup_of_mem hused')

theorem nodup_of_toConfig_eq_ok (h : args.toConfig = .ok config) :
    (args.checkpoints.map Checkpoint.line).Nodup := by
  obtain ⟨-, ⟨hnil, -⟩ | ⟨-, htable⟩⟩ := toConfig_eq_ok_iff.1 h
  · simp [hnil]
  · exact (Table.ofEntries_isOk_iff.1 ⟨_, htable⟩).2

end Arguments

end DepthGauge
