import Peering.CommandLine.Arguments
import Peering.PeerArgument
import Peering.Settings.File
import Peering.Simulation
import Peering.Text.Timestamp

/-!
# The command

The command reads its settings from a file, lets the arguments override them, and
runs a simulation. What it logs goes to the error output, and to a file if the
settings name one.
-/

namespace Peering.CommandLine

/-- Why there are no settings to run. -/
inductive StartError where
  /-- Those in the file cannot be had. -/
  | file (e : SettingsFileError)
  /-- They are not admitted. -/
  | settings (e : SettingsError)
  /-- An argument does not describe a peer. -/
  | peer (e : PeerArgument.Error)

namespace StartError

/-- The error in words. -/
def message : StartError → String
  | file e => e.message
  | settings e => e.message
  | peer e => e.message

/-- The command does not report the error but fails with it: among the faults of a document,
only broken rules of the format, bytes that are no text and numbers that cannot be converted are
expected, and a value that is too deep to be shown is not. -/
def isUnexpected : StartError → Bool
  | file (.document .malformed) => false
  | file (.document .unfinished) => false
  | file (.document (.unreadable _)) => false
  | file (.document (.badNumber _)) => false
  | file (.document _) => true
  | file (.settings (.duration .tooLarge)) => true
  | file (.settings (.hidden .tooDeep)) => true
  | settings (.duration .tooLarge) => true
  | settings (.hidden .tooDeep) => true
  | peer .noText => true
  | _ => false

end StartError

/-- The settings in the file that the arguments name. -/
def settingsInFile (a : Arguments) (read : Path → Except FileError Bytes) :
    Except StartError Settings :=
  match a.config with
  | none | some "" => .ok {}
  | some path => (Settings.load read (Path.parse path)).mapError .file

/-- The delay that the arguments give. -/
def delayOf (a : Arguments) (usual : Float) : Except StartError Float :=
  match a.delay with
  | none => .ok usual
  | some v => (Duration.ofValue v).mapError fun e => .settings (.duration e)

/-- The settings with which a simulation is run: those in the file, overridden by the
arguments, and validated. -/
def settingsFor (a : Arguments) (read : Path → Except FileError Bytes) :
    Except StartError Settings := do
  let s ← settingsInFile a read
  let delay ← delayOf a s.delay
  let peers ← a.peers.mapM fun v => (PeerArgument.ofValue v).mapError .peer
  let s := { s with
    delay
    errorInjection := if a.errorInjection then .bool true else s.errorInjection
    routerAsn := a.routerAsn.getD s.routerAsn
    level := a.logLevel.getD s.level
    peers := s.peers ++ peers }
  s.validate.mapError .settings
  return s

/-- What a command leaves behind. -/
structure Output where
  /-- The exit status. -/
  status : Nat
  /-- What is written to the standard output. -/
  standard : String := ""
  /-- The lines written to the error output. -/
  errors : List String := []
  /-- The file with a copy of the log, and its lines. -/
  logFile : Option (Path × List String) := none

/-- How a command ends. -/
inductive Ending where
  /-- The arguments are refused. -/
  | refused (r : Refusal)
  /-- It ends as foreseen. -/
  | done (o : Output)
  /-- The settings cannot be had, for a reason that is not reported. -/
  | badStart (e : StartError)
  /-- The log file is given neither as a text nor as bytes. -/
  | badLogFile (v : Value)
  /-- The log file cannot be written. -/
  | noLogFile (path : String) (e : FileError)
  /-- The simulation fails. -/
  | failed (f : Failure)

/-- The line of a record. -/
def logLine (r : LogRecord) : String :=
  timestamp Simulation.clockReading ++ " [" ++ r.level.name ++ "] " ++ r.source ++ ": " ++ r.text

/-- What a simulation leaves behind. -/
def outputOf (s : Settings) (file : Option Path) (r : Simulation.Report) : Output :=
  let level := s.level?.getD .info
  let lines := (r.log.filter (fun record => record.shownAt level)).map logLine
  { status := if r.succeeded then 0 else 1
    standard := r.config
    errors := lines
    logFile := file.map (fun path => (path, lines)) }

/-- What the command can do with files. -/
structure FileAccess where
  /-- The bytes of the file at a path. -/
  read : Path → Except FileError Bytes
  /-- Makes ready to write to the file at a path, which may be given as bytes, and tells where it
  is. -/
  prepare : String → Bool → Except FileError Path

/-- The path of the log file, if there is one. -/
def logPath (files : FileAccess) (s : Settings) : Except Ending (Option Path) :=
  match s.file with
  | .null => .ok none
  | .text path => (files.prepare path false).map some |>.mapError (.noLogFile path)
  | .bytes b => (files.prepare (fileText b) true).map some |>.mapError (.noLogFile (fileText b))
  | v => .error (.badLogFile v)

/-- Runs a simulation with settings. -/
def simulate (files : FileAccess) (s : Settings) (w : Watch) : Ending :=
  match logPath files s with
  | .error e => e
  | .ok file =>
    match Simulation.run s w with
    | .error f => .failed f
    | .ok r => .done (outputOf s file r)

/-- Runs the command. -/
def run (args : List String) (files : FileAccess) : Ending :=
  match Arguments.parse args with
  | .error r => .refused r
  | .ok a =>
    match settingsFor a files.read with
    | .error e =>
      if e.isUnexpected then .badStart e
      else .done { status := 1, errors := ["Error: " ++ e.message] }
    | .ok s => simulate files s ⟨a.timeout, a.pollInterval⟩

end Peering.CommandLine
