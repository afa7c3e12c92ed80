import DepthGauge.Proofs.Checkpoint.Lookup
import DepthGauge.Proofs.CommandLine.Spelling

/-!
# Arguments behind a value that is held back

A value that is held back is checked before the next argument is read, and the argument is then read
as if the value had been taken over before. Only `--`, and the value that a checkpoint option waits
for, are read without a check.

## Main results

* `Reading.settle_eq_ok_iff`: what checking a value amounts to.
* `Reading.of_takeLetters_eq_ok`, `Reading.of_takeWord_eq_ok`, `Reading.of_step_eq_ok`: the
  arguments that can be read.
* `Reading.step_iff_settle`: checking comes first.
-/

namespace DepthGauge

namespace Flag

/-! ## Names of flags -/

variable {flag : Flag}

def short : Flag → Char
  | checkpoint => 'c'
  | verbose => 'v'
  | quiet => 'q'
  | help => 'h'
  | version => 'V'

def long : Flag → String
  | checkpoint => "checkpoint"
  | verbose => "verbose"
  | quiet => "quiet"
  | help => "help"
  | version => "version"

theorem ofShort?_eq_some_iff {letter : Char} :
    ofShort? letter = some flag ↔ letter = flag.short := by
  constructor
  · intro h
    unfold ofShort? at h
    split at h <;> cases h <;> rfl
  · rintro rfl
    cases flag <;> rfl

theorem ofLong?_eq_some_iff {name : List Char} :
    ofLong? name = some flag ↔ name = flag.long.toList := by
  constructor
  · intro h
    rw [← String.toList_ofList (l := name)]
    unfold ofLong? at h
    split at h <;> cases h <;> rw [‹String.ofList name = _›] <;> rfl
  · rintro rfl
    cases flag <;> rfl

end Flag

namespace Reading

variable {r u t : Reading} {value arg : String} {flag : Flag} {value? : Option (List Char)}
  {letters word : List Char}

/-! ## What is held back -/

theorem addCheckpoint_eq_ok_iff : r.addCheckpoint value = .ok u ↔
    ∃ c : Checkpoint, c.IsReadFrom value ∧ r.add? (.checkpoint c) = some u := by
  simp only [addCheckpoint, Checkpoint.IsReadFrom]
  cases Checkpoint.parse value <;> simp [add?]

/-- What is held back is nothing, the value of a checkpoint option, or a path. -/
theorem settle_eq_ok_iff : r.settle = .ok u ↔
    r.held = .nothing ∧ u = r ∨
    (∃ value, ∃ c : Checkpoint, r.held = .checkpoint (some value) ∧ c.IsReadFrom value ∧
      { r with held := .nothing }.add? (.checkpoint c) = some u) ∨
    ∃ path, r.held = .path path ∧ path ≠ "" ∧
      u = { r with held := .nothing, path? := some path } := by
  cases hheld : r.held with
  | nothing => simp [settle, hheld, eq_comm]
  | checkpoint value? =>
    cases value? with
    | none => simp [settle, hheld]
    | some value => simp [settle, hheld, addCheckpoint_eq_ok_iff]
  | path value =>
    by_cases hvalue : value = ""
    · simp [settle, hheld, hvalue]
    · simp [settle, hheld, hvalue, eq_comm]

theorem settle_of_held_eq_nothing (h : u.held = .nothing) : u.settle = .ok u :=
  settle_eq_ok_iff.2 (.inl ⟨h, rfl⟩)

theorem held_of_settle (h : r.settle = .ok u) : u.held = .nothing := by
  obtain ⟨hheld, rfl⟩ | ⟨value, c, -, -, hadd⟩ | ⟨path, -, -, rfl⟩ := settle_eq_ok_iff.1 h
  · exact hheld
  · exact held_of_add? hadd
  · rfl

theorem onlyPaths_of_settle (h : r.settle = .ok u) : u.onlyPaths = r.onlyPaths := by
  obtain ⟨-, rfl⟩ | ⟨value, c, -, -, hadd⟩ | ⟨path, -, -, rfl⟩ := settle_eq_ok_iff.1 h
  · rfl
  · exact (onlyPaths_of_add? hadd).trans rfl
  · rfl

theorem hasPath_of_settle (h : r.settle = .ok u) : r.hasPath = u.path?.isSome := by
  obtain ⟨hheld, rfl⟩ | ⟨value, c, hheld, -, hadd⟩ | ⟨path, hheld, -, rfl⟩ := settle_eq_ok_iff.1 h
  · simp [hasPath, hheld]
  · obtain rfl := Option.some.inj hadd
    simp [hasPath, hheld]
  · simp [hasPath, hheld]

theorem settle_onlyPaths (r : Reading) (b : Bool) :
    { r with onlyPaths := b }.settle = r.settle.map fun u => { u with onlyPaths := b } := by
  cases hheld : r.held with
  | nothing => simp [settle, hheld, Except.map]
  | checkpoint value? =>
    cases value? with
    | none => simp [settle, hheld, Except.map]
    | some value =>
      simp only [settle, hheld, addCheckpoint]
      cases Checkpoint.parse value <;> rfl
  | path value =>
    simp only [settle, hheld]
    split <;> rfl

/-! ## One argument -/

theorem apply_of_held_eq_nothing (h : u.held = .nothing) :
    u.apply flag value? = u.set flag value? := by
  rw [apply, settle_of_held_eq_nothing h]
  rfl

theorem apply_verbose_eq_ok_iff (h : u.held = .nothing) :
    u.apply .verbose none = .ok t ↔ u.add? .verbose = some t := by
  rw [apply_of_held_eq_nothing h]
  simp [set, add?]

theorem apply_quiet_eq_ok_iff (h : u.held = .nothing) :
    u.apply .quiet none = .ok t ↔ u.add? .quiet = some t := by
  rw [apply_of_held_eq_nothing h]
  by_cases hquiet : u.quiet = true <;> simp [set, add?, hquiet]

theorem apply_checkpoint_eq_ok_iff (h : u.held = .nothing) {value : List Char} :
    u.apply .checkpoint (some value) = .ok t ↔
      ∃ c : Checkpoint, c.IsReadFrom (String.ofList value) ∧ u.add? (.checkpoint c) = some t := by
  rw [apply_of_held_eq_nothing h]
  exact addCheckpoint_eq_ok_iff

theorem apply_waiting (h : u.held = .nothing) :
    u.apply .checkpoint none = .ok { u with held := .checkpoint none } :=
  apply_of_held_eq_nothing h

theorem takePath_eq_ok_iff : r.takePath arg = .ok t ↔
    ∃ u, r.settle = .ok u ∧ u.path? = none ∧ t = { u with held := .path arg } := by
  constructor
  · intro h
    unfold takePath at h
    split at h
    · cases h
    · next hpath =>
      obtain ⟨u, hu, h⟩ := bind_eq_ok_iff.1 h
      cases h
      exact ⟨u, hu, by simpa [hasPath_of_settle hu] using hpath, rfl⟩
  · rintro ⟨u, hu, hnone, rfl⟩
    simp [takePath, hasPath_of_settle hu, hnone, hu]

theorem flag_of_apply_eq_ok (h : r.apply flag value? = .ok t) :
    flag = .checkpoint ∨ flag = .verbose ∨ flag = .quiet := by
  obtain ⟨u, -, hset⟩ := bind_eq_ok_iff.1 h
  cases flag with
  | checkpoint => simp
  | verbose => simp
  | quiet => simp
  | help => cases hset
  | version => cases hset

theorem takeLetters_attached {value : List Char} (hne : value ≠ [])
    (hassign : value.head? ≠ some '=') :
    r.takeLetters ('c' :: value) = r.apply .checkpoint (some value) := by
  simp only [takeLetters, Flag.ofShort?]
  split
  · exact absurd rfl hne
  · exact absurd rfl hassign
  · rfl

/-- The letters behind one dash: what the first of them asks for, and the rest. -/
theorem of_takeLetters_eq_ok (h : r.takeLetters letters = .ok t) :
    letters = [] ∧ t = r ∨
    (∃ rest s, letters = 'v' :: rest ∧ r.apply .verbose none = .ok s ∧ s.takeLetters rest = .ok t) ∨
    (∃ rest s, letters = 'q' :: rest ∧ r.apply .quiet none = .ok s ∧ s.takeLetters rest = .ok t) ∨
    letters = ['c'] ∧ r.apply .checkpoint none = .ok t ∨
    ∃ value, (letters = 'c' :: '=' :: value ∨ letters = 'c' :: value) ∧
      r.apply .checkpoint (some value) = .ok t := by
  cases letters with
  | nil =>
    cases h
    simp
  | cons letter rest =>
    unfold takeLetters at h
    split at h
    · cases h
    · next hflag =>
      obtain rfl := Flag.ofShort?_eq_some_iff.1 hflag
      split at h <;> simp [h, Flag.short]
    · next flag hne hflag =>
      obtain rfl := Flag.ofShort?_eq_some_iff.1 hflag
      obtain ⟨s, hs, hrest⟩ := bind_eq_ok_iff.1 h
      obtain rfl | rfl | rfl := flag_of_apply_eq_ok hs
      · exact absurd rfl hne
      · exact .inr (.inl ⟨rest, s, rfl, hs, hrest⟩)
      · exact .inr (.inr (.inl ⟨rest, s, rfl, hs, hrest⟩))

theorem takeWord_checkpoint (value : List Char) :
    r.takeWord ("checkpoint=".toList ++ value) = r.apply .checkpoint (some value) := by
  simp [takeWord, Flag.ofLong?]

/-- What stands behind two dashes: a flag, or the checkpoint option with a value or without. -/
theorem of_takeWord_eq_ok (h : r.takeWord word = .ok t) :
    word = "verbose".toList ∧ r.apply .verbose none = .ok t ∨
    word = "quiet".toList ∧ r.apply .quiet none = .ok t ∨
    word = "checkpoint".toList ∧ r.apply .checkpoint none = .ok t ∨
    ∃ value, word = "checkpoint=".toList ++ value ∧ r.apply .checkpoint (some value) = .ok t := by
  unfold takeWord at h
  split at h
  · cases h
  · next flag hflag =>
    dsimp only at h
    by_cases hmem : '=' ∈ word
    · obtain ⟨name, value, rfl, hname⟩ := List.eq_append_cons_of_mem hmem
      rw [takeWhile_ne_append_cons hname] at hflag
      rw [dropWhile_ne_append_cons hname] at h
      obtain rfl := Flag.ofLong?_eq_some_iff.1 hflag
      split at h
      · cases h
      · next hnone =>
        obtain rfl : flag = .checkpoint := by simpa using hnone
        exact .inr (.inr (.inr ⟨value, by simp [Flag.long], h⟩))
    · have hname : ∀ x ∈ word, decide (x ≠ '=') = true := by grind
      rw [List.takeWhile_eq_self_iff.2 hname] at hflag
      rw [List.dropWhile_eq_nil_iff.2 hname] at h
      obtain rfl := Flag.ofLong?_eq_some_iff.1 hflag
      have hset : r.apply flag none = .ok t := by simpa using h
      obtain rfl | rfl | rfl := flag_of_apply_eq_ok hset
      · exact .inr (.inr (.inl ⟨rfl, hset⟩))
      · exact .inl ⟨rfl, hset⟩
      · exact .inr (.inl ⟨rfl, hset⟩)

theorem step_dashes (h : r.onlyPaths = false) : r.step "--" = .ok { r with onlyPaths := true } := by
  simp [step, h]

theorem step_of_onlyPaths (h : r.onlyPaths = true) : r.step arg = r.takePath arg := by
  simp [step, h]

theorem step_of_isPlain (h : r.onlyPaths = false) (hplain : Item.IsPlain arg) :
    r.step arg = r.takeValue arg := by
  simp only [step, h, Bool.false_eq_true, if_false]
  obtain hhead | rfl := hplain
  · split
    · next harg => simp [harg] at hhead
    · next harg => simp [harg] at hhead
    · next harg => simp [harg] at hhead
    · rfl
  · rfl

theorem step_of_takeWord (h : r.onlyPaths = false) (hword : r.takeWord word = .ok t) :
    r.step (String.ofList ('-' :: '-' :: word)) = .ok t := by
  cases word with
  | nil => cases hword
  | cons x word => simpa [step, h] using hword

theorem step_of_takeLetters (h : r.onlyPaths = false) (hne : letters ≠ [])
    (hletters : r.takeLetters letters = .ok t) :
    r.step (String.ofList ('-' :: letters)) = .ok t := by
  obtain ⟨letter, rest, rfl⟩ := List.exists_cons_of_ne_nil hne
  have hdash : letter ≠ '-' := by
    rintro rfl
    cases hletters
  simpa [step, h, hdash] using hletters

/-- An argument ends the flags, or it is a word or letters or neither. -/
theorem of_step_eq_ok (h : r.onlyPaths = false) (hstep : r.step arg = .ok t) :
    arg = "--" ∧ t = { r with onlyPaths := true } ∨
    (∃ word, arg = String.ofList ('-' :: '-' :: word) ∧ r.takeWord word = .ok t) ∨
    (∃ letters, letters ≠ [] ∧ arg = String.ofList ('-' :: letters) ∧
      r.takeLetters letters = .ok t) ∨
    Item.IsPlain arg ∧ r.takeValue arg = .ok t := by
  simp only [step, h, Bool.false_eq_true, if_false] at hstep
  split at hstep
  · next harg =>
    cases hstep
    exact .inl ⟨String.toList_injective harg, rfl⟩
  · next word _ harg => exact .inr (.inl ⟨word, by simp [← harg], hstep⟩)
  · next letter rest _ _ harg =>
    exact .inr (.inr (.inl ⟨letter :: rest, by simp, by simp [← harg], hstep⟩))
  · next hletters =>
    refine .inr (.inr (.inr ⟨?_, hstep⟩))
    by_cases hhead : arg.toList.head? = some '-'
    · obtain ⟨letters, harg⟩ := List.head?_eq_some_iff.1 hhead
      cases letters with
      | nil => exact .inr (String.toList_injective harg)
      | cons letter rest => exact absurd harg (hletters letter rest)
    · exact .inl hhead

/-! ## A value that is held back -/

theorem apply_of_settle_eq_error {e : Stop} (h : r.settle = .error e) :
    r.apply flag value? = .error e := by
  rw [apply, h]
  rfl

theorem apply_of_settle (h : r.settle = .ok u) : r.apply flag value? = u.apply flag value? := by
  rw [apply_of_held_eq_nothing (held_of_settle h), apply, h]
  rfl

theorem takePath_iff_settle :
    r.takePath arg = .ok t ↔ ∃ u, r.settle = .ok u ∧ u.takePath arg = .ok t := by
  cases hsettle : r.settle with
  | error e => simp [takePath_eq_ok_iff, hsettle]
  | ok u =>
    have hu := settle_of_held_eq_nothing (held_of_settle hsettle)
    simp [takePath_eq_ok_iff, hsettle, hu]

theorem takeWord_iff_settle :
    r.takeWord word = .ok t ↔ ∃ u, r.settle = .ok u ∧ u.takeWord word = .ok t := by
  cases hsettle : r.settle with
  | error e =>
    refine iff_of_false (fun h => ?_) (by simp)
    simpa [apply_of_settle_eq_error hsettle] using of_takeWord_eq_ok h
  | ok u => simp [takeWord, apply_of_settle hsettle]

theorem takeLetters_iff_settle (hne : letters ≠ []) :
    r.takeLetters letters = .ok t ↔ ∃ u, r.settle = .ok u ∧ u.takeLetters letters = .ok t := by
  cases hsettle : r.settle with
  | error e =>
    refine iff_of_false (fun h => ?_) (by simp)
    simpa [hne, apply_of_settle_eq_error hsettle] using of_takeLetters_eq_ok h
  | ok u =>
    obtain ⟨letter, rest, rfl⟩ := List.exists_cons_of_ne_nil hne
    simp [takeLetters, apply_of_settle hsettle]

theorem takeValue_of_held_ne (h : r.held ≠ .checkpoint none) : r.takeValue arg = r.takePath arg :=
  if_neg h

/-- What is held back is checked before an argument is read, but for the end of the flags and for
the value that a checkpoint option waits for. -/
theorem step_iff_settle (hheld : r.held ≠ .checkpoint none)
    (harg : r.onlyPaths = true ∨ arg ≠ "--") :
    r.step arg = .ok t ↔ ∃ u, r.settle = .ok u ∧ u.step arg = .ok t := by
  cases hpaths : r.onlyPaths with
  | true =>
    have hstep (u : Reading) (hu : r.settle = .ok u) : u.step arg = u.takePath arg :=
      step_of_onlyPaths ((onlyPaths_of_settle hu).trans hpaths)
    rw [step_of_onlyPaths hpaths, takePath_iff_settle]
    exact exists_congr fun u => and_congr_right fun hu => by rw [hstep u hu]
  | false =>
    have hopen {u : Reading} (hu : r.settle = .ok u) : u.onlyPaths = false :=
      (onlyPaths_of_settle hu).trans hpaths
    have hfree {u : Reading} (hu : r.settle = .ok u) : u.held ≠ .checkpoint none := by
      simp [held_of_settle hu]
    have hdashes : arg ≠ "--" := by simpa [hpaths] using harg
    constructor
    · intro h
      obtain ⟨rfl, -⟩ | ⟨word, rfl, hword⟩ | ⟨letters, hne, rfl, hletters⟩ | ⟨hplain, hvalue⟩ :=
        of_step_eq_ok hpaths h
      · exact absurd rfl hdashes
      · obtain ⟨u, hu, hword⟩ := takeWord_iff_settle.1 hword
        exact ⟨u, hu, step_of_takeWord (hopen hu) hword⟩
      · obtain ⟨u, hu, hletters⟩ := (takeLetters_iff_settle hne).1 hletters
        exact ⟨u, hu, step_of_takeLetters (hopen hu) hne hletters⟩
      · rw [takeValue_of_held_ne hheld] at hvalue
        obtain ⟨u, hu, hpath⟩ := takePath_iff_settle.1 hvalue
        rw [← takeValue_of_held_ne (hfree hu)] at hpath
        exact ⟨u, hu, (step_of_isPlain (hopen hu) hplain).trans hpath⟩
    · rintro ⟨u, hu, h⟩
      obtain ⟨rfl, -⟩ | ⟨word, rfl, hword⟩ | ⟨letters, hne, rfl, hletters⟩ | ⟨hplain, hvalue⟩ :=
        of_step_eq_ok (hopen hu) h
      · exact absurd rfl hdashes
      · exact step_of_takeWord hpaths (takeWord_iff_settle.2 ⟨u, hu, hword⟩)
      · exact step_of_takeLetters hpaths hne ((takeLetters_iff_settle hne).2 ⟨u, hu, hletters⟩)
      · rw [takeValue_of_held_ne (hfree hu)] at hvalue
        have hpath := takePath_iff_settle.2 ⟨u, hu, hvalue⟩
        rw [← takeValue_of_held_ne hheld] at hpath
        exact (step_of_isPlain hpaths hplain).trans hpath

end Reading

end DepthGauge
