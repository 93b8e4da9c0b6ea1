import Peering.Folder
import Peering.Settings.Document
import Peering.Yaml.Document

/-!
# Settings from a file

A file of settings is a text in UTF-8 that describes one document. Settings are
validated as soon as they have been read.
-/

namespace Peering

/-- Why there are no settings in a file. -/
inductive SettingsFileError where
  /-- The file cannot be read. -/
  | unreadable (p : Path) (e : FileError)
  /-- The text describes no document, or one without a value. -/
  | document (f : Yaml.Fault)
  /-- The settings are not admitted. -/
  | settings (e : SettingsError)

namespace SettingsFileError

/-- The message of a fault in a text. -/
def faultMessage : Yaml.Fault → String
  | .malformed | .unfinished => "failed to parse config file"
  | .unreadable e => e.message
  | .badNumber message => message
  | .emptyNumber => "a number is expected"
  | .overflow => "a number is too large"
  | .badTruth => "a truth value is expected"
  | .noMoment => "a date is expected"
  | .momentInMapping => "a date is expected instead of a mapping"
  | .tooDeep => "there are too many nodes one inside of the other"

/-- The error in words. -/
def message : SettingsFileError → String
  | unreadable p e =>
    if e.number?.isSome then "failed to read config file: " ++ e.message p else e.words
  | document f => faultMessage f
  | settings e => e.message

end SettingsFileError

namespace Settings

/-- The settings that the bytes of a file describe. -/
def ofBytes (bytes : Bytes) : Except SettingsFileError Settings := do
  let v ← (Yaml.valueOf (.ofBytes bytes)).mapError .document
  (ofDocument v).mapError .settings

/-- What is reported when settings have been loaded. -/
def loadedRecord (p : Path) : LogRecord :=
  ⟨.debug, "neighborsim.config", "Loaded configuration from " ++ p.text⟩

/-- Loads the settings in the file at a path, and validates them. -/
def load (read : Path → Except FileError Bytes) (p : Path) : Except SettingsFileError Settings := do
  let bytes ← (read p).mapError (.unreadable p)
  let s ← ofBytes bytes
  s.validate.mapError .settings
  return s

end Settings

end Peering
