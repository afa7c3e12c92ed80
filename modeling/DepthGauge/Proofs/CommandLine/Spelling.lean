import DepthGauge.CommandLine.Reading
import DepthGauge.Proofs.Checkpoint.Written

/-!
# Spelling a command line

A command line says a list of items, and each item has several spellings: a checkpoint option has
five, short flags can share a dash, and a path that looks like a flag can stand last behind `--`.

## Main definitions

* `Item`: what a part of a command line says.
* `Item.Spells`: the command lines that say a list of items.
* `Item.AreConsistent`: the items that go together on one command line.
* `Arguments.ofItems`: what they amount to.
* `Reading.add?`: taking over an item, however it was spelled.

## Main results

* `Item.Spells.imp`: checkpoints written in one way are written in another.
* `Reading.foldlM_add?_eq_some_iff`: the items that can be taken over one after the other.
-/

namespace DepthGauge

/-! ## Items -/

/-- What a part of a command line says. -/
inductive Item where
  | checkpoint (c : Checkpoint)
  | verbose
  | quiet
  | path (path : String)
deriving DecidableEq

namespace Item

def checkpoint? : Item → Option Checkpoint
  | checkpoint c => some c
  | _ => none

def path? : Item → Option String
  | path arg => some arg
  | _ => none

section Parts

variable {c : Checkpoint} {arg : String}

@[simp] theorem checkpoint?_checkpoint : (checkpoint c).checkpoint? = some c := rfl
@[simp] theorem checkpoint?_verbose : verbose.checkpoint? = none := rfl
@[simp] theorem checkpoint?_quiet : quiet.checkpoint? = none := rfl
@[simp] theorem checkpoint?_path : (path arg).checkpoint? = none := rfl
@[simp] theorem path?_checkpoint : (checkpoint c).path? = none := rfl
@[simp] theorem path?_verbose : verbose.path? = none := rfl
@[simp] theorem path?_quiet : quiet.path? = none := rfl
@[simp] theorem path?_path : (path arg).path? = some arg := rfl

end Parts

/-- An argument that is not read as a flag. -/
def IsPlain (arg : String) : Prop := arg.toList.head? ≠ some '-' ∨ arg = "-"

section Spelling

variable (Writes : Checkpoint → String → Prop)

/-- The letters behind one dash, and the arguments that belong to the last of them. The letter of
the checkpoint option ends the letters, and its value follows with or without an equals sign, or is
an argument of its own. -/
inductive SpellsLetters : List Item → List Char → List String → Prop where
  | nil : SpellsLetters [] [] []
  | verbose {items letters values} (h : SpellsLetters items letters values) :
    SpellsLetters (verbose :: items) ('v' :: letters) values
  | quiet {items letters values} (h : SpellsLetters items letters values) :
    SpellsLetters (quiet :: items) ('q' :: letters) values
  | separate {c value} (h : Writes c value) : SpellsLetters [checkpoint c] ['c'] [value]
  | attached {c value} (h : Writes c value) : SpellsLetters [checkpoint c] ('c' :: value.toList) []
  | assigned {c value} (h : Writes c value) :
    SpellsLetters [checkpoint c] ('c' :: '=' :: value.toList) []

/-- The command lines that say some items, in this order, where `Writes` tells which texts stand for
a checkpoint. -/
inductive Spells : List Item → List String → Prop where
  | nil : Spells [] []
  | letters {group letters values items argv} (h : SpellsLetters Writes group letters values)
    (hne : letters ≠ []) (hrest : Spells items argv) :
    Spells (group ++ items) (String.ofList ('-' :: letters) :: (values ++ argv))
  | verbose {items argv} (hrest : Spells items argv) :
    Spells (verbose :: items) ("--verbose" :: argv)
  | quiet {items argv} (hrest : Spells items argv) : Spells (quiet :: items) ("--quiet" :: argv)
  | separate {c value items argv} (h : Writes c value) (hrest : Spells items argv) :
    Spells (checkpoint c :: items) ("--checkpoint" :: value :: argv)
  | assigned {c value items argv} (h : Writes c value) (hrest : Spells items argv) :
    Spells (checkpoint c :: items) (("--checkpoint=" ++ value) :: argv)
  | path {arg items argv} (h : IsPlain arg) (hrest : Spells items argv) :
    Spells (path arg :: items) (arg :: argv)
  | ending : Spells [] ["--"]
  | lastPath {arg} : Spells [path arg] ["--", arg]

end Spelling

section Imp

variable {Writes Reads : Checkpoint → String → Prop} {items : List Item} {letters : List Char}
  {values argv : List String}

theorem SpellsLetters.imp (h : SpellsLetters Writes items letters values)
    (himp : ∀ c value, checkpoint c ∈ items → Writes c value → Reads c value) :
    SpellsLetters Reads items letters values := by
  induction h with
  | nil => exact .nil
  | verbose _ ih => exact .verbose (ih fun c value hc => himp c value (.tail _ hc))
  | quiet _ ih => exact .quiet (ih fun c value hc => himp c value (.tail _ hc))
  | separate hc => exact .separate (himp _ _ (.head _) hc)
  | attached hc => exact .attached (himp _ _ (.head _) hc)
  | assigned hc => exact .assigned (himp _ _ (.head _) hc)

theorem Spells.imp (h : Spells Writes items argv)
    (himp : ∀ c value, checkpoint c ∈ items → Writes c value → Reads c value) :
    Spells Reads items argv := by
  induction h with
  | nil => exact .nil
  | letters hletters hne _ ih =>
    exact .letters (hletters.imp fun c value hc => himp c value (List.mem_append_left _ hc)) hne
      (ih fun c value hc => himp c value (List.mem_append_right _ hc))
  | verbose _ ih => exact .verbose (ih fun c value hc => himp c value (.tail _ hc))
  | quiet _ ih => exact .quiet (ih fun c value hc => himp c value (.tail _ hc))
  | separate hc _ ih =>
    exact .separate (himp _ _ (.head _) hc) (ih fun c value hc => himp c value (.tail _ hc))
  | assigned hc _ ih =>
    exact .assigned (himp _ _ (.head _) hc) (ih fun c value hc => himp c value (.tail _ hc))
  | path hplain _ ih => exact .path hplain (ih fun c value hc => himp c value (.tail _ hc))
  | ending => exact .ending
  | lastPath => exact .lastPath

end Imp

/-- The items that go together on one command line. -/
structure AreConsistent (items : List Item) : Prop where
  path_ne : path "" ∉ items
  onePath : (items.filterMap path?).length ≤ 1
  oneQuiet : items.count quiet ≤ 1
  notBoth : quiet ∈ items → verbose ∉ items

end Item

/-- What the items of a command line amount to. -/
def Arguments.ofItems (items : List Item) : Arguments where
  path := (items.filterMap Item.path?).head?.getD defaultPath
  checkpoints := items.filterMap Item.checkpoint?
  verbose := min (items.count .verbose) 255
  quiet := decide (.quiet ∈ items)

namespace Reading

/-! ## Taking over items -/

variable {u t : Reading} {item : Item} {items : List Item}

/-- Takes over an item when nothing is held back. -/
def add? (u : Reading) : Item → Option Reading
  | .checkpoint c => some { u with checkpoints := u.checkpoints.push c }
  | .verbose => some { u with verbose := min (u.verbose + 1) maxVerbosity }
  | .quiet => if u.quiet then none else some { u with quiet := true }
  | .path arg => if u.path?.isSome ∨ arg = "" then none else some { u with path? := some arg }

theorem held_of_add? (h : u.add? item = some t) : t.held = u.held := by
  cases item <;> grind [add?]

theorem onlyPaths_of_add? (h : u.add? item = some t) : t.onlyPaths = u.onlyPaths := by
  cases item <;> grind [add?]

theorem add?_path_eq_some_iff {arg : String} : u.add? (.path arg) = some t ↔
    u.path? = none ∧ arg ≠ "" ∧ t = { u with path? := some arg } := by
  cases hpath : u.path? <;> simp [add?, hpath, eq_comm]

theorem foldlM_add?_cons_iff : (item :: items).foldlM add? u = some t ↔
    ∃ v, u.add? item = some v ∧ items.foldlM add? v = some t := by
  simp [Option.bind_eq_some_iff]

theorem foldlM_add?_append_iff {group : List Item} : (group ++ items).foldlM add? u = some t ↔
    ∃ v, group.foldlM add? u = some v ∧ items.foldlM add? v = some t := by
  simp [List.foldlM_append, Option.bind_eq_some_iff]

/-- Nothing is held back, and flags are still read. -/
structure IsOpen (u : Reading) : Prop where
  held : u.held = .nothing
  onlyPaths : u.onlyPaths = false

theorem isOpen_start : ({} : Reading).IsOpen := ⟨rfl, rfl⟩

theorem IsOpen.add? (h : u.IsOpen) (hadd : u.add? item = some t) : t.IsOpen :=
  ⟨(held_of_add? hadd).trans h.held, (onlyPaths_of_add? hadd).trans h.onlyPaths⟩

theorem IsOpen.foldlM_add? (h : u.IsOpen) (hfold : items.foldlM Reading.add? u = some t) :
    t.IsOpen := by
  induction items generalizing u with
  | nil =>
    cases hfold
    exact h
  | cons item items ih =>
    obtain ⟨v, hadd, hfold⟩ := foldlM_add?_cons_iff.1 hfold
    exact ih (h.add? hadd) hfold

/-- The readings that have taken over the items of a command line, one after the other. -/
theorem foldlM_add?_eq_some_iff : items.foldlM add? {} = some t ↔
    (.path "" ∉ items ∧ (items.filterMap Item.path?).length ≤ 1 ∧ items.count .quiet ≤ 1) ∧
      t = { path? := (items.filterMap Item.path?).head?
            checkpoints := (items.filterMap Item.checkpoint?).toArray
            verbose := min (items.count .verbose) maxVerbosity
            quiet := decide (.quiet ∈ items) } := by
  induction items using List.reverseRecOn generalizing t with
  | nil => simp [maxVerbosity, eq_comm]
  | append_singleton items item ih =>
    rw [foldlM_add?_append_iff]
    simp only [ih]
    cases item with
    | checkpoint c => simp [add?, List.filterMap_cons, and_assoc, eq_comm (b := t)]
    | verbose =>
      have hmin (n : Nat) :
          min (min n maxVerbosity + 1) maxVerbosity = min (n + 1) maxVerbosity := by
        omega
      simp [add?, List.filterMap_cons, and_assoc, hmin, eq_comm (b := t)]
    | quiet =>
      have hnone : items.count .quiet ≤ 1 ∧ .quiet ∉ items ↔ items.count .quiet = 0 := by
        grind [List.count_eq_zero]
      simp [add?, List.filterMap_cons, and_assoc, eq_comm (b := t), ← hnone]
    | path arg =>
      cases hpaths : items.filterMap Item.path? with
      | nil =>
        simpa [add?, List.filterMap_cons, and_assoc, eq_comm (b := t), hpaths] using
          fun _ => and_left_comm
      | cons first rest => simp [add?, List.filterMap_cons, hpaths]

end Reading

end DepthGauge
