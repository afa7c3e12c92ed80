import DepthGauge.Checkpoint.AdminPage
import DepthGauge.Storage.NormalPath

/-!
# Configurations

What to inspect: a file and a table of checkpoints.

## Main definitions

* `Config`: the two, each with a default.
* `Config.build`: a configuration of which only some parts are given.
* `ConfigBuilder.build`: the same with a check that no part is missing.

## Main results

* `ConfigBuilder.build_eq`: with these defaults no part is.
-/

namespace DepthGauge

/-- The file that is inspected if no other is named. -/
def defaultPath : String := "src/app/admin/page.tsx"

/-- What to inspect. -/
structure Config where
  path : String := defaultPath
  checkpoints : Table := .adminPage

namespace Config

/-- Fills in the defaults for what is not given. -/
def build (path? : Option String) (checkpoints? : Option Table) : Config :=
  ⟨path?.getD defaultPath, checkpoints?.getD .adminPage⟩

/-- Configurations are equal if their tables are and their paths have the same normal form. -/
instance : BEq Config :=
  ⟨fun a b => NormalPath.ofString a.path == NormalPath.ofString b.path &&
    a.checkpoints == b.checkpoints⟩

/-- Whether nothing differs from the defaults. -/
def isDefault (config : Config) : Bool := config == {}

end Config

/-- Why there is no configuration. -/
inductive ConfigError where
  /-- A part has no value and no default. -/
  | uninitialized (part : String)
  /-- The parts do not fit. -/
  | invalid (reason : String)
deriving DecidableEq, Repr

/-- The wording of a configuration error. -/
def ConfigError.message : ConfigError → String
  | uninitialized part => s!"`{part}` must be initialized"
  | invalid reason => reason

/-- The parts of a configuration that are given. -/
structure ConfigBuilder where
  path? : Option String := none
  checkpoints? : Option Table := none

namespace ConfigBuilder

/-- The value of a part: what is given, or else its default, if it has one. -/
def part {α : Type} (name : String) (given? default? : Option α) : Except ConfigError α :=
  match given? <|> default? with
  | some value => .ok value
  | none => .error (.uninitialized name)

/-- Puts the parts together. -/
def build (builder : ConfigBuilder) : Except ConfigError Config := do
  let path ← part "path" builder.path? (some defaultPath)
  let checkpoints ← part "checkpoints" builder.checkpoints? (some .adminPage)
  return ⟨path, checkpoints⟩

theorem part_some {α : Type} (name : String) (given? : Option α) (value : α) :
    part name given? (some value) = .ok (given?.getD value) := by
  cases given? <;> rfl

/-- A part with a default is never missing. -/
theorem build_eq (builder : ConfigBuilder) :
    builder.build = .ok (.build builder.path? builder.checkpoints?) := by
  rw [build, part_some, part_some]
  rfl

end ConfigBuilder

end DepthGauge
