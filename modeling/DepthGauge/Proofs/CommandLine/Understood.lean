import DepthGauge.Proofs.CommandLine.Settling

/-!
# What is understood of a command line

A command line is accepted exactly if it spells items that go together, and then its meaning is what
they amount to.

## Main definitions

* `Reading.after`: what is taken over at the end of some arguments.

## Main results

* `Reading.after_iff_settle`: a value that is held back makes no difference to what follows.
* `Reading.after_eq_ok_iff`: the arguments that can follow are those that spell items.
* `Arguments.parse_eq_ok_iff`: the command lines that are accepted, and what they mean.
* `Arguments.parse_of_spells`: every spelling is understood.
-/

namespace DepthGauge

namespace Reading

variable {r u t : Reading} {value arg : String} {argv : List String} {letters : List Char}
  {items : List Item}

/-! ## The arguments that follow -/

/-- What is taken over at the end, if some arguments follow. That `--` was among them is
forgotten. -/
def after (r : Reading) (argv : List String) : Except Stop Reading :=
  (argv.foldlM step r >>= settle).map fun u => { u with onlyPaths := false }

theorem after_eq_ok_iff_settle : r.after argv = .ok t ↔
    ∃ s u, argv.foldlM step r = .ok s ∧ s.settle = .ok u ∧ t = { u with onlyPaths := false } := by
  have hmap {x : Except Stop Reading} {f : Reading → Reading} :
      x.map f = .ok t ↔ ∃ u, x = .ok u ∧ t = f u := by
    cases x <;> simp [Except.map, eq_comm]
  simp only [after, hmap]
  constructor
  · rintro ⟨u, hrun, rfl⟩
    obtain ⟨s, hs, hu⟩ := bind_eq_ok_iff.1 hrun
    exact ⟨s, u, hs, hu, rfl⟩
  · rintro ⟨s, u, hs, hu, rfl⟩
    exact ⟨u, bind_eq_ok_iff.2 ⟨s, hs, hu⟩, rfl⟩

theorem after_nil : r.after [] = r.settle.map fun u => { u with onlyPaths := false } := rfl

theorem after_cons_eq_ok_iff :
    r.after (arg :: argv) = .ok t ↔ ∃ s, r.step arg = .ok s ∧ s.after argv = .ok t := by
  simp only [after_eq_ok_iff_settle, List.foldlM_cons, bind_eq_ok_iff]
  grind

theorem after_iff_settle (hheld : r.held ≠ .checkpoint none) :
    r.after argv = .ok t ↔ ∃ u, r.settle = .ok u ∧ u.after argv = .ok t := by
  induction argv generalizing r with
  | nil =>
    cases hsettle : r.settle with
    | error e => simp [after_nil, hsettle, Except.map]
    | ok u =>
      have hu := settle_of_held_eq_nothing (held_of_settle hsettle)
      simp [after_nil, hsettle, hu]
  | cons arg argv ih =>
    simp only [after_cons_eq_ok_iff]
    by_cases harg : r.onlyPaths = true ∨ arg ≠ "--"
    · simp only [step_iff_settle hheld harg]
      grind
    · obtain ⟨hpaths, rfl⟩ : r.onlyPaths = false ∧ arg = "--" := by simpa using harg
      rw [step_dashes hpaths]
      have hopen := ih (r := { r with onlyPaths := true }) hheld
      cases hsettle : r.settle with
      | error e => simpa [settle_onlyPaths, hsettle, Except.map] using hopen
      | ok u =>
        have hu := onlyPaths_of_settle hsettle
        simpa [settle_onlyPaths, hsettle, Except.map, step_dashes (hu.trans hpaths)] using hopen

theorem held_eq_self (h : u.held = .nothing) : { u with held := .nothing } = u := by
  rw [← h]

theorem after_held_checkpoint_iff (h : u.held = .nothing) :
    { u with held := .checkpoint (some value) }.after argv = .ok t ↔
      ∃ c : Checkpoint, ∃ s, c.IsReadFrom value ∧ u.add? (.checkpoint c) = some s ∧
        s.after argv = .ok t := by
  have hsettle (s : Reading) : { u with held := .checkpoint (some value) }.settle = .ok s ↔
      ∃ c : Checkpoint, c.IsReadFrom value ∧ u.add? (.checkpoint c) = some s := by
    simp [settle_eq_ok_iff, held_eq_self h]
  rw [after_iff_settle (by simp)]
  simp only [hsettle]
  grind

theorem after_held_path_iff (h : u.held = .nothing) (hpath : u.path? = none) :
    { u with held := .path arg }.after argv = .ok t ↔
      ∃ s, u.add? (.path arg) = some s ∧ s.after argv = .ok t := by
  have hsettle (s : Reading) : { u with held := .path arg }.settle = .ok s ↔
      u.add? (.path arg) = some s := by
    simp [settle_eq_ok_iff, add?, hpath, h, eq_comm (b := s)]
  rw [after_iff_settle (by simp)]
  simp only [hsettle]

theorem takePath_after_iff (h : u.held = .nothing) :
    (∃ s, u.takePath arg = .ok s ∧ s.after argv = .ok t) ↔
      ∃ s, u.add? (.path arg) = some s ∧ s.after argv = .ok t := by
  simp only [takePath_eq_ok_iff, settle_of_held_eq_nothing h]
  cases hpath : u.path? with
  | none => simp [hpath, ← after_held_path_iff h hpath]
  | some path => simp [hpath, add?]

theorem after_plain_iff (h : u.IsOpen) (hplain : Item.IsPlain arg) :
    u.after (arg :: argv) = .ok t ↔
      ∃ s, u.add? (.path arg) = some s ∧ s.after argv = .ok t := by
  have hheld : u.held ≠ .checkpoint none := by simp [h.held]
  rw [after_cons_eq_ok_iff, ← takePath_after_iff h.held, step_of_isPlain h.onlyPaths hplain,
    takeValue_of_held_ne hheld]

theorem after_iff_of_path_of_onlyPaths (h : u.held = .nothing) (hpaths : u.onlyPaths = true)
    (hpath : u.path?.isSome) :
    u.after argv = .ok t ↔ argv = [] ∧ t = { u with onlyPaths := false } := by
  cases argv with
  | nil => simp [after_nil, settle_of_held_eq_nothing h, Except.map, eq_comm]
  | cons arg argv =>
    simp [after_cons_eq_ok_iff, step_of_onlyPaths hpaths, takePath_after_iff h, add?, hpath]

/-- At most one argument can follow `--`. -/
theorem after_dashes_iff (h : u.IsOpen) : u.after ("--" :: argv) = .ok t ↔
      argv = [] ∧ t = u ∨ ∃ arg, argv = [arg] ∧ u.add? (.path arg) = some t := by
  have hback : { u with onlyPaths := false } = u := by rw [← h.onlyPaths]
  simp only [after_cons_eq_ok_iff, step_dashes h.onlyPaths, Except.ok.injEq, exists_eq_left']
  cases argv with
  | nil =>
    have hsettle := settle_of_held_eq_nothing (u := { u with onlyPaths := true }) h.held
    simp [after_nil, hsettle, Except.map, hback, eq_comm]
  | cons arg argv =>
    simp only [after_cons_eq_ok_iff, step_of_onlyPaths,
      takePath_after_iff (u := { u with onlyPaths := true }) h.held]
    have hend : { u with onlyPaths := true, path? := some arg }.after argv = .ok t ↔
        argv = [] ∧ t = { u with onlyPaths := false, path? := some arg } :=
      after_iff_of_path_of_onlyPaths h.held rfl rfl
    simp only [add?_path_eq_some_iff]
    constructor
    · rintro ⟨s, ⟨hpath, harg, rfl⟩, hafter⟩
      obtain ⟨rfl, rfl⟩ := hend.1 hafter
      exact .inr ⟨arg, rfl, hpath, harg, by rw [h.onlyPaths]⟩
    · rintro (⟨hnil, -⟩ | ⟨last, hlast, hpath, harg, rfl⟩)
      · cases hnil
      · cases hlast
        exact ⟨_, ⟨hpath, harg, rfl⟩, hend.2 ⟨rfl, by rw [h.onlyPaths]⟩⟩

theorem after_ne_ok_of_waiting (h : r.held = .checkpoint none) (hpaths : r.onlyPaths = true) :
    r.after argv ≠ .ok t := by
  have hsettle : r.settle = .error (.usage .missingValue) := by simp [settle, h]
  cases argv with
  | nil => simp [after_nil, hsettle, Except.map]
  | cons arg argv =>
    simp [after_cons_eq_ok_iff, step_of_onlyPaths hpaths, takePath_eq_ok_iff, hsettle]

/-- A checkpoint option that waits for its value gets it from the next argument. -/
theorem after_waiting_iff (h : u.IsOpen) :
    { u with held := .checkpoint none }.after argv = .ok t ↔
      ∃ value rest, ∃ c : Checkpoint, ∃ s, argv = value :: rest ∧ c.IsReadFrom value ∧
        u.add? (.checkpoint c) = some s ∧ s.after rest = .ok t := by
  have hopen : { u with held := .checkpoint none }.onlyPaths = false := h.onlyPaths
  have hwait (value : String) : { u with held := .checkpoint none }.takeValue value =
      .ok { u with held := .checkpoint (some value) } := rfl
  constructor
  · intro hafter
    cases argv with
    | nil => cases hafter
    | cons value rest =>
      obtain ⟨s, hstep, hrest⟩ := after_cons_eq_ok_iff.1 hafter
      obtain ⟨-, rfl⟩ | ⟨word, -, hword⟩ | ⟨letters, hne, -, hletters⟩ | ⟨hplain, hvalue⟩ :=
        of_step_eq_ok hopen hstep
      · exact absurd hrest (after_ne_ok_of_waiting rfl rfl)
      · obtain ⟨v, hv, -⟩ := takeWord_iff_settle.1 hword
        cases hv
      · obtain ⟨v, hv, -⟩ := (takeLetters_iff_settle hne).1 hletters
        cases hv
      · rw [hwait] at hvalue
        cases hvalue
        obtain ⟨c, s, hc, hadd, hrest⟩ := (after_held_checkpoint_iff h.held).1 hrest
        exact ⟨value, rest, c, s, rfl, hc, hadd, hrest⟩
  · rintro ⟨value, rest, c, s, rfl, hc, hadd, hrest⟩
    have hplain : Item.IsPlain value := by
      obtain ⟨x, hx, -, hdash⟩ := Checkpoint.head?_of_parse_eq_ok hc
      exact .inl (by simpa [hx] using hdash)
    exact after_cons_eq_ok_iff.2 ⟨_, (step_of_isPlain hopen hplain).trans (hwait value),
      (after_held_checkpoint_iff h.held).2 ⟨c, s, hc, hadd, hrest⟩⟩

/-- Letters, with what follows them, say the items that they spell. -/
theorem exists_spellsLetters_of_after {s : Reading} (h : u.IsOpen)
    (hs : u.takeLetters letters = .ok s) (hafter : s.after argv = .ok t) :
    ∃ group values rest v, argv = values ++ rest ∧
      Item.SpellsLetters Checkpoint.IsReadFrom group letters values ∧
      group.foldlM add? u = some v ∧ v.after rest = .ok t := by
  induction letters generalizing u with
  | nil =>
    cases hs
    exact ⟨[], [], argv, s, rfl, .nil, rfl, hafter⟩
  | cons letter letters ih =>
    obtain ⟨hnil, -⟩ | ⟨rest, v, heq, hv, hs⟩ | ⟨rest, v, heq, hv, hs⟩ | ⟨heq, hs⟩ |
      ⟨value, heq, hs⟩ := of_takeLetters_eq_ok hs
    · cases hnil
    · cases heq
      rw [apply_verbose_eq_ok_iff h.held] at hv
      obtain ⟨group, values, rest, s, rfl, hspells, hfold, hafter⟩ := ih (h.add? hv) hs
      exact ⟨.verbose :: group, values, rest, s, rfl, .verbose hspells,
        foldlM_add?_cons_iff.2 ⟨v, hv, hfold⟩, hafter⟩
    · cases heq
      rw [apply_quiet_eq_ok_iff h.held] at hv
      obtain ⟨group, values, rest, s, rfl, hspells, hfold, hafter⟩ := ih (h.add? hv) hs
      exact ⟨.quiet :: group, values, rest, s, rfl, .quiet hspells,
        foldlM_add?_cons_iff.2 ⟨v, hv, hfold⟩, hafter⟩
    · cases heq
      cases (apply_waiting h.held).symm.trans hs
      obtain ⟨value, rest, c, s, rfl, hc, hadd, hafter⟩ := (after_waiting_iff h).1 hafter
      exact ⟨[.checkpoint c], [value], rest, s, rfl, .separate hc, by simp [hadd], hafter⟩
    · obtain ⟨c, hc, hadd⟩ := (apply_checkpoint_eq_ok_iff h.held).1 hs
      refine ⟨[.checkpoint c], [], argv, s, rfl, ?_, by simp [hadd], hafter⟩
      obtain heq | heq := heq
      · simpa [heq] using Item.SpellsLetters.assigned hc
      · simpa [heq] using Item.SpellsLetters.attached hc

theorem exists_takeLetters_of_spells {group : List Item} {values rest : List String} {s : Reading}
    (h : u.IsOpen) (hspells : Item.SpellsLetters Checkpoint.IsReadFrom group letters values)
    (hfold : group.foldlM add? u = some s) (hafter : s.after rest = .ok t) :
    ∃ v, u.takeLetters letters = .ok v ∧ v.after (values ++ rest) = .ok t := by
  induction hspells generalizing u with
  | nil =>
    cases hfold
    exact ⟨s, rfl, hafter⟩
  | verbose hletters ih =>
    obtain ⟨v, hv, hfold⟩ := foldlM_add?_cons_iff.1 hfold
    obtain ⟨t, ht, hafter⟩ := ih (h.add? hv) hfold
    exact ⟨t, bind_eq_ok_iff.2 ⟨v, (apply_verbose_eq_ok_iff h.held).2 hv, ht⟩, hafter⟩
  | quiet hletters ih =>
    obtain ⟨v, hv, hfold⟩ := foldlM_add?_cons_iff.1 hfold
    obtain ⟨t, ht, hafter⟩ := ih (h.add? hv) hfold
    exact ⟨t, bind_eq_ok_iff.2 ⟨v, (apply_quiet_eq_ok_iff h.held).2 hv, ht⟩, hafter⟩
  | @separate c value hc =>
    have hadd : u.add? (.checkpoint c) = some s := by simpa using hfold
    exact ⟨_, apply_waiting h.held,
      (after_waiting_iff h).2 ⟨value, rest, c, s, rfl, hc, hadd, hafter⟩⟩
  | @attached c value hc =>
    have hadd : u.add? (.checkpoint c) = some s := by simpa using hfold
    have hs : u.apply .checkpoint (some value.toList) = .ok s :=
      (apply_checkpoint_eq_ok_iff h.held).2 ⟨c, by simpa using hc, hadd⟩
    obtain ⟨x, hx, hassign, -⟩ := Checkpoint.head?_of_parse_eq_ok hc
    have hne : value.toList ≠ [] := fun hnil => by simp [hnil] at hx
    exact ⟨s, (takeLetters_attached hne (by simpa [hx] using hassign)).trans hs, hafter⟩
  | @assigned c value hc =>
    have hadd : u.add? (.checkpoint c) = some s := by simpa using hfold
    exact ⟨s, (apply_checkpoint_eq_ok_iff h.held).2 ⟨c, by simpa using hc, hadd⟩, hafter⟩

/-! ## Spelled items -/

theorem after_nil_of_isOpen (h : u.IsOpen) : u.after [] = .ok u := by
  rw [after_nil, settle_of_held_eq_nothing h.held, ← h.onlyPaths]
  rfl

theorem ofList_assigned (value : List Char) :
    "--checkpoint=" ++ String.ofList value =
      String.ofList ('-' :: '-' :: ("checkpoint=".toList ++ value)) :=
  String.toList_injective (by simp)

theorem exists_spells_of_after (h : u.IsOpen) (hafter : u.after argv = .ok t) :
    ∃ items, Item.Spells Checkpoint.IsReadFrom items argv ∧ items.foldlM add? u = some t := by
  -- A checkpoint option and its value can be two arguments, so the induction is on their number.
  induction hlength : argv.length using Nat.strong_induction_on generalizing u argv with
  | _ n ih =>
    have hnext {item : Item} {s : Reading} {rest : List String} (hlt : rest.length < n)
        (hadd : u.add? item = some s) (hrest : s.after rest = .ok t) :
        ∃ items, Item.Spells Checkpoint.IsReadFrom items rest ∧
          (item :: items).foldlM add? u = some t := by
      obtain ⟨items, hspells, hfold⟩ := ih _ hlt (h.add? hadd) hrest rfl
      exact ⟨items, hspells, foldlM_add?_cons_iff.2 ⟨s, hadd, hfold⟩⟩
    cases argv with
    | nil =>
      cases (after_nil_of_isOpen h).symm.trans hafter
      exact ⟨[], .nil, rfl⟩
    | cons arg argv =>
      have hlt : argv.length < n := by simp [← hlength]
      obtain ⟨s, hstep, hrest⟩ := after_cons_eq_ok_iff.1 hafter
      obtain ⟨rfl, -⟩ | ⟨word, rfl, hword⟩ | ⟨letters, hne, rfl, hletters⟩ | ⟨hplain, -⟩ :=
        of_step_eq_ok h.onlyPaths hstep
      · obtain ⟨rfl, rfl⟩ | ⟨arg, rfl, hadd⟩ := (after_dashes_iff h).1 hafter
        · exact ⟨[], .ending, rfl⟩
        · exact ⟨[.path arg], .lastPath, by simp [hadd]⟩
      · obtain ⟨rfl, hs⟩ | ⟨rfl, hs⟩ | ⟨rfl, hs⟩ | ⟨value, rfl, hs⟩ := of_takeWord_eq_ok hword
        · obtain ⟨items, hspells, hfold⟩ := hnext hlt ((apply_verbose_eq_ok_iff h.held).1 hs) hrest
          exact ⟨_, .verbose hspells, hfold⟩
        · obtain ⟨items, hspells, hfold⟩ := hnext hlt ((apply_quiet_eq_ok_iff h.held).1 hs) hrest
          exact ⟨_, .quiet hspells, hfold⟩
        · cases (apply_waiting h.held).symm.trans hs
          obtain ⟨value, rest, c, s, rfl, hc, hadd, hrest⟩ := (after_waiting_iff h).1 hrest
          obtain ⟨items, hspells, hfold⟩ := hnext (by grind) hadd hrest
          exact ⟨_, .separate hc hspells, hfold⟩
        · obtain ⟨c, hc, hadd⟩ := (apply_checkpoint_eq_ok_iff h.held).1 hs
          obtain ⟨items, hspells, hfold⟩ := hnext hlt hadd hrest
          exact ⟨_, ofList_assigned value ▸ .assigned hc hspells, hfold⟩
      · obtain ⟨group, values, rest, s, rfl, hspells, hgroup, hrest⟩ :=
          exists_spellsLetters_of_after h hletters hrest
        obtain ⟨items, hitems, hfold⟩ := ih rest.length (by grind)
          (h.foldlM_add? hgroup) hrest rfl
        exact ⟨_, .letters hspells hne hitems, foldlM_add?_append_iff.2 ⟨s, hgroup, hfold⟩⟩
      · obtain ⟨s, hadd, hrest⟩ := (after_plain_iff h hplain).1 hafter
        obtain ⟨items, hspells, hfold⟩ := hnext hlt hadd hrest
        exact ⟨_, .path hplain hspells, hfold⟩

theorem after_of_spells (h : u.IsOpen) (hspells : Item.Spells Checkpoint.IsReadFrom items argv)
    (hfold : items.foldlM add? u = some t) : u.after argv = .ok t := by
  induction hspells generalizing u with
  | nil =>
    cases hfold
    exact after_nil_of_isOpen h
  | @letters group letters values items argv hletters hne hrest ih =>
    obtain ⟨v, hgroup, hfold⟩ := foldlM_add?_append_iff.1 hfold
    have hafter := ih (h.foldlM_add? hgroup) hfold
    obtain ⟨s, hs, hafter⟩ := exists_takeLetters_of_spells h hletters hgroup hafter
    exact after_cons_eq_ok_iff.2 ⟨s, step_of_takeLetters h.onlyPaths hne hs, hafter⟩
  | verbose hrest ih =>
    obtain ⟨v, hadd, hfold⟩ := foldlM_add?_cons_iff.1 hfold
    have hafter := ih (h.add? hadd) hfold
    have hs : u.takeWord "verbose".toList = .ok v := (apply_verbose_eq_ok_iff h.held).2 hadd
    exact after_cons_eq_ok_iff.2 ⟨v, step_of_takeWord h.onlyPaths hs, hafter⟩
  | quiet hrest ih =>
    obtain ⟨v, hadd, hfold⟩ := foldlM_add?_cons_iff.1 hfold
    have hafter := ih (h.add? hadd) hfold
    have hs : u.takeWord "quiet".toList = .ok v := (apply_quiet_eq_ok_iff h.held).2 hadd
    exact after_cons_eq_ok_iff.2 ⟨v, step_of_takeWord h.onlyPaths hs, hafter⟩
  | @separate c value items argv hc hrest ih =>
    obtain ⟨v, hadd, hfold⟩ := foldlM_add?_cons_iff.1 hfold
    have hafter := ih (h.add? hadd) hfold
    have hs : u.takeWord "checkpoint".toList = .ok { u with held := .checkpoint none } :=
      apply_waiting h.held
    exact after_cons_eq_ok_iff.2 ⟨_, step_of_takeWord h.onlyPaths hs,
      (after_waiting_iff h).2 ⟨value, argv, c, v, rfl, hc, hadd, hafter⟩⟩
  | @assigned c value items argv hc hrest ih =>
    obtain ⟨v, hadd, hfold⟩ := foldlM_add?_cons_iff.1 hfold
    have hafter := ih (h.add? hadd) hfold
    have hs : u.takeWord ("checkpoint=".toList ++ value.toList) = .ok v := by
      rw [takeWord_checkpoint]
      exact (apply_checkpoint_eq_ok_iff h.held).2 ⟨c, by simpa using hc, hadd⟩
    have hstep := step_of_takeWord h.onlyPaths hs
    rw [← ofList_assigned, String.ofList_toList] at hstep
    exact after_cons_eq_ok_iff.2 ⟨v, hstep, hafter⟩
  | path hplain hrest ih =>
    obtain ⟨v, hadd, hfold⟩ := foldlM_add?_cons_iff.1 hfold
    have hafter := ih (h.add? hadd) hfold
    exact (after_plain_iff h hplain).2 ⟨v, hadd, hafter⟩
  | ending =>
    cases hfold
    exact (after_dashes_iff h).2 (.inl ⟨rfl, rfl⟩)
  | @lastPath arg => exact (after_dashes_iff h).2 (.inr ⟨arg, rfl, by simpa using hfold⟩)

/-- The arguments that can follow are those that spell items that can be taken over. -/
theorem after_eq_ok_iff (h : u.IsOpen) : u.after argv = .ok t ↔
    ∃ items, Item.Spells Checkpoint.IsReadFrom items argv ∧ items.foldlM add? u = some t :=
  ⟨exists_spells_of_after h, fun ⟨_, hspells, hfold⟩ => after_of_spells h hspells hfold⟩

end Reading

namespace Arguments

variable {items : List Item} {argv : List String} {args : Arguments}

theorem parse_eq_ok_iff_after : parse argv = .ok args ↔
    ∃ u, Reading.after {} argv = .ok u ∧ ¬ (u.quiet ∧ u.verbose ≠ 0) ∧
      args = ⟨u.path?.getD defaultPath, u.checkpoints.toList, u.verbose, u.quiet⟩ := by
  constructor
  · intro h
    obtain ⟨r, hr, hfinish⟩ := bind_eq_ok_iff.1 h
    obtain ⟨u, hu, hend⟩ := bind_eq_ok_iff.1 hfinish
    split at hend
    · cases hend
    · next hboth =>
      cases hend
      exact ⟨_, Reading.after_eq_ok_iff_settle.2 ⟨r, u, hr, hu, rfl⟩, hboth, rfl⟩
  · rintro ⟨t, hafter, hboth, rfl⟩
    obtain ⟨r, u, hr, hu, rfl⟩ := Reading.after_eq_ok_iff_settle.1 hafter
    exact bind_eq_ok_iff.2 ⟨r, hr, bind_eq_ok_iff.2 ⟨u, hu, if_neg hboth⟩⟩

/-- The command lines that are accepted are those that spell items that go together. -/
theorem parse_eq_ok_iff : parse argv = .ok args ↔
    ∃ items, Item.Spells Checkpoint.IsReadFrom items argv ∧ Item.AreConsistent items ∧
      args = ofItems items := by
  have hboth (items : List Item) :
      ¬ (decide (.quiet ∈ items) ∧ min (items.count .verbose) maxVerbosity ≠ 0) ↔
        (.quiet ∈ items → .verbose ∉ items) := by
    simp [maxVerbosity, List.count_eq_zero]
  have hafter {u : Reading} : Reading.after {} argv = .ok u ↔
      ∃ items, Item.Spells Checkpoint.IsReadFrom items argv ∧
        items.foldlM Reading.add? {} = some u :=
    Reading.after_eq_ok_iff Reading.isOpen_start
  simp only [parse_eq_ok_iff_after, hafter, Reading.foldlM_add?_eq_some_iff]
  constructor
  · rintro ⟨_, ⟨items, hspells, ⟨hpath, hone, hquiet⟩, rfl⟩, hnotBoth, rfl⟩
    exact ⟨items, hspells, ⟨hpath, hone, hquiet, (hboth items).1 hnotBoth⟩, rfl⟩
  · rintro ⟨items, hspells, hitems, rfl⟩
    exact ⟨_, ⟨items, hspells, ⟨hitems.path_ne, hitems.onePath, hitems.oneQuiet⟩, rfl⟩,
      (hboth items).2 hitems.notBoth, rfl⟩

/-- Reading a command line undoes every spelling of it. -/
theorem parse_of_spells (hitems : Item.AreConsistent items)
    (hwritable : ∀ c, .checkpoint c ∈ items → c.IsWritable)
    (hspells : Item.Spells (fun c value => value = s!"{c.line}={c.label}") items argv) :
    parse argv = .ok (ofItems items) := by
  refine parse_eq_ok_iff.2 ⟨items, hspells.imp ?_, hitems, rfl⟩
  rintro c value hc rfl
  exact (hwritable c hc).parse_eq_ok

/-- A cluster that ends in an assigned value, a number of twenty digits, and a path behind `--`. -/
theorem parse_of_spells_cluster :
    parse ["-vvc=1==a", "--checkpoint", "18446744073709551615=x y", "--", "-p"] =
      .ok ⟨"-p", [⟨1, "=a"⟩, ⟨18446744073709551615, "x y"⟩], 2, false⟩ := by
  have hgroup : Item.SpellsLetters (fun c value => value = s!"{c.line}={c.label}")
      [.verbose, .verbose, .checkpoint ⟨1, "=a"⟩]
      ('v' :: 'v' :: 'c' :: '=' :: "1==a".toList) [] :=
    .verbose (.verbose (.assigned rfl))
  have hspells : Item.Spells (fun c value => value = s!"{c.line}={c.label}")
      [.verbose, .verbose, .checkpoint ⟨1, "=a"⟩, .checkpoint ⟨18446744073709551615, "x y"⟩,
        .path "-p"]
      ["-vvc=1==a", "--checkpoint", "18446744073709551615=x y", "--", "-p"] :=
    .letters hgroup (List.cons_ne_nil _ _) (.separate rfl .lastPath)
  refine parse_of_spells ?_ ?_ hspells
  · exact ⟨by simp, by simp [List.filterMap_cons], by simp, by simp⟩
  · intro c hc
    obtain rfl | rfl : c = ⟨1, "=a"⟩ ∨ c = ⟨18446744073709551615, "x y"⟩ := by simpa using hc
    · exact ⟨by simp, by simp [maxLineNumber], by simp, by simp [IsTrimmed]; decide⟩
    · exact ⟨by simp, by simp [maxLineNumber], by simp, by simp [IsTrimmed]; decide⟩

end Arguments

end DepthGauge
