import ApkFormats.CommandLine.Dump

/-!
# The command line program

Reads the arguments, dumps the file they name and ends with the exit code of
the dump.
-/

open ApkFormats
open ApkFormats.CommandLine

/-- Writes the dump of a file and gives its exit code. -/
def runFile (o : Options) (file : String) : IO UInt32 := do
  let content ← IO.FS.readBinFile file
  let stdout ← IO.getStdout
  match dump o file content.data with
  | .ok report =>
      stdout.putStr (report.text o (← stdout.isTty))
      return UInt32.ofNat report.exitCode
  | .error breakdown =>
      (← IO.getStderr).putStrLn breakdown.text
      return 1

def main (arguments : List String) : IO UInt32 := do
  match parse arguments with
  | .help =>
      (← IO.getStdout).putStr helpText
      return 0
  | .invalid =>
      (← IO.getStderr).putStrLn "the arguments are not in order; see --help"
      return 2
  | .run o =>
      let file := o.file.getD ""
      try runFile o file
      catch _ =>
        (← IO.getStderr).putStrLn (missingFileText file)
        return 1
