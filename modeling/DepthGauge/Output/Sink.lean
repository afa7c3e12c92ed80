import DepthGauge.Text.Utf8

/-!
# Sinks

A sink takes bytes until its room is used up.

## Main definitions

* `Sink`: the bytes taken and the room left.
* `Writing`: an action on a sink that can fail. What was written before it failed stays.
* `Sink.put`: writes a text.
-/

namespace DepthGauge

/-- Why a sink took only a part of what was written to it. -/
inductive WriteFault where
  /-- The sink is a buffer of fixed size. -/
  | bufferFull
  /-- The sink is a device. -/
  | deviceFull
deriving DecidableEq, Repr

/-- The wording of a write fault. -/
def WriteFault.message : WriteFault → String
  | bufferFull => "failed to write whole buffer"
  | deviceFull => "No space left on device (os error 28)"

/-- A destination of bytes. -/
structure Sink where
  written : Array UInt8
  /-- The number of bytes that still fit, `none` if there is no limit. -/
  room : Option Nat
  /-- What is reported when the room is used up. -/
  fault : WriteFault

namespace Sink

/-- A sink without a limit. -/
def unlimited : Sink := ⟨#[], none, .bufferFull⟩

/-- A buffer of `room` bytes. -/
def buffer (room : Nat) : Sink := ⟨#[], some room, .bufferFull⟩

/-- A device that takes nothing. -/
def fullDevice : Sink := ⟨#[], some 0, .deviceFull⟩

end Sink

/-- An action that writes to a sink. -/
abbrev Writing (α : Type) := ExceptT WriteFault (StateM Sink) α

/-- Writes a text. If it does not fit, its first bytes fill the room, and the action fails. -/
def Sink.put (text : String) : Writing Unit := fun sink =>
  let bytes := Utf8.encode text.toList
  match sink.room with
  | none => (.ok (), { sink with written := sink.written ++ bytes })
  | some room =>
    let filled :=
      { sink with written := sink.written ++ bytes.take room, room := some (room - bytes.length) }
    if bytes.length ≤ room then (.ok (), filled) else (.error sink.fault, filled)

end DepthGauge
