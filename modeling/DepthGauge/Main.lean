import DepthGauge.Program

/-!
# Command line

Runs the program on the files and streams of the system.
-/

open DepthGauge

/-- The fault behind an error of the system. The number of an error is negative if it comes from
opening a file. -/
def faultOfError : IO.Error → FileFault
  | .noFileOrDirectory .. => .missing
  | .inappropriateType _ code _ => if code = 21 ∨ code = -21 then .isDirectory else .notDirectory
  | .permissionDenied .. => .other "Permission denied (os error 13)"
  | e@(.invalidArgument _ code _) =>
    if code = 36 ∨ code = -36 then .tooLong else .other (toString e)
  | e => .other (toString e)

/-- Reads the file at a path. -/
def readFile (path : String) : IO (Except FileFault (List UInt8)) :=
  try return .ok (← IO.FS.readBinFile path).toList
  catch e => return .error (faultOfError e)

/-- The reader for a command line, which names at most one file. -/
def readerOf (argv : List String) : IO FileReader := do
  match (Arguments.parse argv).toOption.bind fun args => args.toConfig.toOption with
  | none => return fun _ => .error .missing
  | some config =>
    let contents ← readFile config.path
    return fun _ => contents

def main (argv : List String) : IO UInt32 := do
  let setting? ← IO.getEnv "RUST_LOG"
  let files ← readerOf argv
  let exit := runProgram argv setting? files Stdout.accepting.sink
  let seen ←
    try
      let stdout ← IO.getStdout
      stdout.write ⟨exit.stdout.toArray⟩
      stdout.flush
      pure exit
    catch _ => pure (runProgram argv setting? files Stdout.full.sink)
  for line in seen.stderr do IO.eprintln line
  return seen.code.toUInt32
