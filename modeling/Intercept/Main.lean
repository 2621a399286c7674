import Intercept.Launch

/-!
# The program

Reads the arguments, starts on a host without a network, prints the log and stops.
-/

namespace Intercept.Main

/-- The contents of a file, or why it cannot be read. -/
def readSettings (path : Text) : IO (Except Fault Bytes) := do
  match ← (IO.FS.readBinFile (String.ofList path)).toBaseIO with
  | .ok bytes => return .ok bytes.toList
  | .error (.noFileOrDirectory ..) => return .error .noSuchFile
  | .error (.permissionDenied ..) => return .error .forbidden
  | .error _ => return .error .isDirectory

/-- Prints the lines of the log. -/
def printLog (notices : List Notice) : IO Unit := do
  for n in notices do
    IO.println (n.level ++ " " ++ n.message)

/-- Starts with the settings at a path. -/
def start (path : Text) (o : Overrides) : IO UInt32 := do
  let file ← readSettings path
  let launch := Launch.program (Host.isolated fun _ => file) path o
  printLog launch.notices
  match launch.result with
  | .error e =>
    IO.eprintln ("Error: " ++ e.report)
    return 1
  | .ok _ =>
    printLog Launch.farewell
    return 0

/-- Does what the arguments ask for and gives the exit code. -/
def run (arguments : List String) : IO UInt32 := do
  match Invocation.parse (arguments.map String.toList) with
  | .error e =>
    IO.eprintln ("error: " ++ e.message)
    return 2
  | .ok .help =>
    IO.print helpText
    return 0
  | .ok .version =>
    IO.print versionText
    return 0
  | .ok (.serve path o) => start path o

end Intercept.Main

def main (arguments : List String) : IO UInt32 := Intercept.Main.run arguments
