import Peering.Failure
import Peering.Log

/-!
# The fault switch

While the switch is on, every request that would change something is refused
before anything else is looked at, and the refusals are counted.
-/

namespace Peering

/-- The switch and the number of requests it has refused. -/
structure FaultSwitch where
  /-- Requests are being refused if this counts as true. -/
  enabled : Value := .bool false
  /-- The number of requests refused so far. -/
  injected : Nat := 0

namespace FaultSwitch

/-- Requests are being refused. -/
def isOn (s : FaultSwitch) : Bool := s.enabled.isTruthy

/-- A report of the switch. -/
def record (level : Level) (text : String) : LogRecord :=
  ⟨level, "neighborsim.bgp.faults", text⟩

/-- What is reported when a switch is made: a warning if it is on. -/
def makingRecords (s : FaultSwitch) : List LogRecord :=
  if s.isOn then [record .warning "Fault injection ENABLED - all mutating calls will fail"]
  else []

/-- The switch turned on. -/
def enable (s : FaultSwitch) : FaultSwitch := { s with enabled := .bool true }

/-- The switch turned off. -/
def disable (s : FaultSwitch) : FaultSwitch := { s with enabled := .bool false }

/-- What is reported when the switch is turned on. -/
def enabledRecord : LogRecord := record .warning "Fault injection enabled"

/-- What is reported when the switch is turned off. -/
def disabledRecord : LogRecord := record .info "Fault injection disabled"

/-- What is reported when a request is refused. -/
def injectedRecord (operation address : Value) : LogRecord :=
  record .debug ("Injecting failure into '" ++ operation.plain ++ "' for " ++ address.plain)

/-- Refuses a request while the switch is on, and counts the refusal. -/
def check (s : FaultSwitch) (operation address : Value) :
    FaultSwitch × Except EngineError Unit :=
  if s.isOn then
    ({ s with injected := s.injected + 1 }, .error (EngineError.simulated operation address))
  else (s, .ok ())

/-- The switch in words. -/
def describe (s : FaultSwitch) : String :=
  "FaultInjector(enabled=" ++ s.enabled.plain ++ ", injected=" ++
    intText s.injected ++ ")"

end FaultSwitch

end Peering
