/-!
# Log records

Whatever happens is reported as records of a level, a source and a text. A record
is shown where its level is at least the level that is asked for.
-/

namespace Peering

/-- How urgent a record is. -/
inductive Level where
  | debug
  | info
  | warning
  | error
  deriving DecidableEq, Repr

namespace Level

/-- The number by which levels are compared. -/
def number : Level → Nat
  | debug => 10
  | info => 20
  | warning => 30
  | error => 40

/-- The name shown in front of a record. -/
def name : Level → String
  | debug => "DEBUG"
  | info => "INFO"
  | warning => "WARNING"
  | error => "ERROR"

/-- The names that settings may use for levels. -/
def settingNames : List (String × Level) :=
  [("debug", debug), ("info", info), ("warn", warning), ("warning", warning), ("error", error)]

/-- The level that a setting names, in upper or lower case. -/
def ofSetting? (s : String) : Option Level :=
  (settingNames.find? (fun p => p.1 = s.map Char.toLower)).map Prod.snd

end Level

/-- One reported fact. -/
structure LogRecord where
  /-- Its urgency. -/
  level : Level
  /-- Who reports it. -/
  source : String
  /-- What is reported. -/
  text : String
  deriving DecidableEq, Repr

/-- The record is shown at a level. -/
def LogRecord.shownAt (r : LogRecord) (level : Level) : Bool := level.number ≤ r.level.number

end Peering
