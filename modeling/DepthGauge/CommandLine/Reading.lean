import DepthGauge.CommandLine.Arguments

/-!
# Reading a command line

The arguments are read from left to right. A value that is an argument of its own, that is a path or
the value of a checkpoint option, is held back and checked only when the next flag is applied, when
a path follows a held value, or at the end. An argument that cannot be understood at all is thus
reported before a bad value in front of it.

## Main definitions

* `Held`: the value that is held back.
* `Reading`: the state between two arguments, moved on by `Reading.step`.
* `Arguments.parse`: the meaning of a command line.
-/

namespace DepthGauge

/-- A value that was read and not yet checked. -/
inductive Held where
  | nothing
  /-- A checkpoint option, with its value if that was read. -/
  | checkpoint (value? : Option String)
  | path (value : String)
deriving DecidableEq, Repr

/-- The state between two arguments. -/
structure Reading where
  path? : Option String := none
  checkpoints : Array Checkpoint := #[]
  verbose : Nat := 0
  quiet : Bool := false
  held : Held := .nothing
  /-- Whether `--` was read, behind which every argument is a path. -/
  onlyPaths : Bool := false

namespace Reading

/-- Whether a path was read, held back or not. -/
def hasPath (r : Reading) : Bool :=
  r.path?.isSome || r.held matches .path _

/-- Adds a checkpoint given as text. -/
def addCheckpoint (r : Reading) (value : String) : Except Stop Reading :=
  match Checkpoint.parse value with
  | .ok c => .ok { r with checkpoints := r.checkpoints.push c }
  | .error e => .error (.usage (.badCheckpoint e))

/-- Checks the value that is held back, and takes it over. -/
def settle (r : Reading) : Except Stop Reading :=
  let free := { r with held := .nothing }
  match r.held with
  | .nothing => .ok r
  | .checkpoint none => .error (.usage .missingValue)
  | .checkpoint (some value) => free.addCheckpoint value
  | .path value =>
    if value = "" then .error (.usage .emptyPath) else .ok { free with path? := some value }

/-- Reads a path. -/
def takePath (r : Reading) (arg : String) : Except Stop Reading :=
  if r.hasPath then .error (.usage (.extraPath arg))
  else do return { ← r.settle with held := .path arg }

/-- Reads an argument that is no flag: the value of a checkpoint option that waits for one, or else
a path. -/
def takeValue (r : Reading) (arg : String) : Except Stop Reading :=
  if r.held = .checkpoint none then .ok { r with held := .checkpoint (some arg) }
  else r.takePath arg

/-- Applies a flag when nothing is held back. Only a checkpoint option looks at its value. -/
def set (r : Reading) (flag : Flag) (value? : Option (List Char)) : Except Stop Reading :=
  match flag, value? with
  | .checkpoint, none => .ok { r with held := .checkpoint none }
  | .checkpoint, some value => r.addCheckpoint (String.ofList value)
  | .verbose, _ => .ok { r with verbose := min (r.verbose + 1) maxVerbosity }
  | .quiet, _ =>
    if r.quiet then .error (.usage .repeatedQuiet) else .ok { r with quiet := true }
  | .help, _ => .error .help
  | .version, _ => .error .version

/-- Checks the value that is held back, and then applies a flag. -/
def apply (r : Reading) (flag : Flag) (value? : Option (List Char)) : Except Stop Reading := do
  (← r.settle).set flag value?

/-- Reads the letters behind one dash. The rest behind the letter of the checkpoint option is its
value, less one equals sign. -/
def takeLetters (r : Reading) : List Char → Except Stop Reading
  | [] => .ok r
  | letter :: rest =>
    match Flag.ofShort? letter with
    | none => .error (.usage (.unknownFlag (String.ofList ['-', letter])))
    | some .checkpoint =>
      match rest with
      | [] => r.apply .checkpoint none
      | '=' :: value => r.apply .checkpoint (some value)
      | value => r.apply .checkpoint (some value)
    | some flag => do (← r.apply flag none).takeLetters rest

/-- Reads what stands behind two dashes: a name, and behind an equals sign a value. -/
def takeWord (r : Reading) (word : List Char) : Except Stop Reading :=
  let value? := (word.dropWhile (· ≠ '=')).tail?
  match Flag.ofLong? (word.takeWhile (· ≠ '=')) with
  | none => .error (.usage (.unknownFlag (String.ofList ('-' :: '-' :: word))))
  | some flag =>
    if flag ≠ .checkpoint ∧ value?.isSome then
      .error (.usage (.unexpectedValue (String.ofList ('-' :: '-' :: word))))
    else r.apply flag value?

/-- Reads an argument. A lone dash is no flag. -/
def step (r : Reading) (arg : String) : Except Stop Reading :=
  if r.onlyPaths then r.takePath arg
  else match arg.toList with
    | ['-', '-'] => .ok { r with onlyPaths := true }
    | '-' :: '-' :: word => r.takeWord word
    | '-' :: letter :: rest => r.takeLetters (letter :: rest)
    | _ => r.takeValue arg

/-- The meaning of what was read. -/
def finish (r : Reading) : Except Stop Arguments := do
  let r ← r.settle
  if r.quiet ∧ r.verbose ≠ 0 then .error (.usage .verboseAndQuiet)
  else .ok ⟨r.path?.getD defaultPath, r.checkpoints.toList, r.verbose, r.quiet⟩

end Reading

/-- The meaning of a command line, without the name of the program. -/
def Arguments.parse (argv : List String) : Except Stop Arguments :=
  argv.foldlM Reading.step {} >>= Reading.finish

end DepthGauge
