import DepthGauge.Inspection.Config
import DepthGauge.Inspection.Event
import DepthGauge.Storage.FileTree
import DepthGauge.Text.Utf8

/-!
# Logged computations

A computation of an inspection gives a value or fails, and logs events. A failure ends it and keeps
what was logged before.

## Main definitions

* `Failure`: why an inspection has no report.
* `Logged α`: the log and the outcome, as a monad.
-/

namespace DepthGauge

/-- Why an inspection has no report. -/
inductive Failure where
  | fileAccess (path : String) (fault : FileFault)
  | decoding (path : String) (line : Nat) (fault : Utf8.Fault)
  | table (e : TableError)
  | config (e : ConfigError)
deriving DecidableEq, Repr

/-- The wording of a failure. -/
def Failure.message : Failure → String
  | fileAccess path fault => s!"Failed to read file '{path}': {fault.message}"
  | decoding path line fault =>
    s!"File '{path}' is not valid UTF-8 text (line {line}): {fault.message}"
  | table e => s!"Invalid checkpoint table: {e.message}"
  | config e => s!"Invalid configuration: {e.message}"

/-- A log and an outcome. -/
structure Logged (α : Type) where
  log : List Event
  outcome : Except Failure α

namespace Logged

variable {α β : Type}

instance : Monad Logged where
  pure a := ⟨[], .ok a⟩
  bind x f :=
    match x.outcome with
    | .error e => ⟨x.log, .error e⟩
    | .ok a => ⟨x.log ++ (f a).log, (f a).outcome⟩

/-- Logs some events. -/
def record (events : List Event) : Logged Unit := ⟨events, .ok ()⟩

/-- An outcome that logs nothing. -/
def ofExcept (outcome : Except Failure α) : Logged α := ⟨[], outcome⟩

@[simp]
theorem pure_eq (a : α) : (pure a : Logged α) = ⟨[], .ok a⟩ := rfl

@[simp]
theorem ok_bind (log : List Event) (a : α) (f : α → Logged β) :
    (⟨log, .ok a⟩ : Logged α) >>= f = ⟨log ++ (f a).log, (f a).outcome⟩ := rfl

@[simp]
theorem error_bind (log : List Event) (e : Failure) (f : α → Logged β) :
    (⟨log, .error e⟩ : Logged α) >>= f = ⟨log, .error e⟩ := rfl

end Logged

end DepthGauge
