import EntityGraph.CommandLine.Run
import EntityGraph.Yaml.Standard
import Std.Time

/-!
# The tool

Reads the command line, the environment, the clock and the file that is asked for, and writes the
outcome.
-/

namespace EntityGraph.CommandLine

open EntityGraph.Document

/-- The names that settings are read from. -/
def settingNames : List String :=
  ["ENTMODEL_DEFAULT_BOUND_TYPE", "ENTMODEL_STRICT_CONSISTENCY", "LOG_LEVEL", "LOG_FORMAT"]

/-- The environment of the process, as far as settings are read from it. -/
def environment : IO Environment :=
  settingNames.filterMapM fun name ↦ do return (← IO.getEnv name).map fun text ↦ (name, text)

/-- The fault of a file that a failure of the system is. Reading fails without a path where opening
did not. -/
def fileFault? (path : String) : IO.Error → Option FileFault
  | .noFileOrDirectory .. => some (.missing path)
  | .permissionDenied _ code words | .resourceExhausted _ code words |
    .inappropriateType _ code words | .invalidArgument _ code words =>
    some ⟨code.toNat, words, some path⟩
  | .otherError code words | .resourceBusy code words => some ⟨code.toNat, words, some path⟩
  | .hardwareFault code words => some ⟨code.toNat, words, none⟩
  | _ => none

/-- What reading the file of a path finds. -/
def readFile (path : Path) : IO (Except FileFault (List UInt8)) := do
  try
    let bytes ← IO.FS.readBinFile path.text
    return .ok bytes.toList
  catch e =>
    match fileFault? path.text e with
    | some f => return .error f
    | none => throw e

/-- Writes an outcome, and the status that it ends with. -/
def Outcome.emit (o : Outcome) : IO UInt32 := do
  IO.print o.output
  IO.eprint o.errors
  match o.ending with
  | .finished => return 0
  | .exit status => return UInt32.ofNat status
  | .failed f =>
    IO.eprintln f.message
    return 1

end EntityGraph.CommandLine

open EntityGraph EntityGraph.CommandLine

/-- Runs the tool. -/
def main (arguments : List String) : IO UInt32 := do
  match Request.ofArguments arguments with
  | .error stop => stop.outcome.emit
  | .ok request =>
    let time ← Std.Time.PlainDateTime.now
    let found ← readFile (.ofString request.path)
    (request.run default (Yaml.standard 0) (← environment)
      (time.format "uuuu-MM-dd HH:mm:ss,SSS") found).emit
