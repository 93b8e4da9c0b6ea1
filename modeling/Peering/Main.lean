import Peering.CommandLine.Run

/-!
# The program

Runs the command with the arguments, the files and the outputs of the system. All
that it decides is decided by `CommandLine.run`.
-/

namespace Peering.CommandLine

/-- How the command is called. -/
def usageText : String :=
  "usage: neighborsim" ++ String.join (Flag.all.map fun f =>
    " [" ++ f.name ++ (if f.takesValue then " VALUE]" else "]"))

/-- The file at a path of the system. -/
def readFile (p : Path) : IO (Except FileError Bytes) := do
  try
    return .ok (← IO.FS.readBinFile p.text).toList
  catch
    | .noFileOrDirectory .. => return .error .missing
    | .inappropriateType _ code _ => return .error (if code = 21 then .isAFolder else .notAFolder)
    | e => throw e

/-- The file of settings that the arguments name, read beforehand. Whether the log file can be
written is found out when it is. -/
def fileAccess (args : List String) : IO FileAccess := do
  let prepare (path : String) (_ : Bool) : Except FileError Path := .ok (Path.parse path)
  match Arguments.parse args with
  | .ok { config := some path, .. } =>
    let bytes ← readFile (Path.parse path)
    return { read := fun _ => bytes, prepare }
  | _ => return { read := fun _ => .error .missing, prepare }

/-- Adds lines to a file, whose folder is made if it is not there. -/
def appendLines (p : Path) (lines : List String) : IO Unit := do
  IO.FS.createDirAll ({ p with names := p.names.dropLast } : Path).text
  let file ← IO.FS.Handle.mk p.text .append
  lines.forM file.putStrLn

/-- Puts out what the command leaves behind. -/
def putOut (o : Output) : IO UInt32 := do
  if let some (path, lines) := o.logFile then appendLines path lines
  o.errors.forM IO.eprintln
  IO.print o.standard
  return o.status.toUInt32

/-- Why the command has failed. -/
def failureText : Ending → String
  | .badStart e => e.message
  | .badLogFile v => "the log file must be a path, got " ++ v.exact
  | .noLogFile path e => e.message (Path.parse path)
  | .failed f => f.text
  | .refused _ | .done _ => ""

end Peering.CommandLine

/-- Runs the command. -/
def main (args : List String) : IO UInt32 := do
  match Peering.CommandLine.run args (← Peering.CommandLine.fileAccess args) with
  | .refused .help =>
    IO.println Peering.CommandLine.usageText
    return 0
  | .refused .usage =>
    IO.eprintln Peering.CommandLine.usageText
    return 2
  | .done o => Peering.CommandLine.putOut o
  | ending =>
    IO.eprintln (Peering.CommandLine.failureText ending)
    return 1
