import DepthGauge.CommandLine.Arguments

/-!
# Help

The texts that describe the program.
-/

namespace DepthGauge

/-- The lines of the help text. -/
def helpLines : List String :=
  ["Report brace, paren and <div> balance at checkpoint lines of a source file",
    "",
    "Usage: balance_probe [OPTIONS] [PATH]",
    "",
    "Arguments:",
    "  [PATH]  File to scan [default: " ++ defaultPath ++ "]",
    "",
    "Options:",
    "  -c, --checkpoint <LINE=LABEL>  Checkpoint as LINE=LABEL (repeatable). " ++
      "Replaces the built-in admin page table",
    "  -v, --verbose...               More log output on stderr " ++
      "(-v info, -vv debug, -vvv trace)",
    "  -q, --quiet                    Only log errors",
    "  -h, --help                     Print help",
    "  -V, --version                  Print version"]

/-- The text of the help flag. -/
def helpText : String := String.join (helpLines.map (· ++ "\n"))

/-- The text of the version flag. -/
def versionText : String := "balance_probe 0.1.0\n"

end DepthGauge
