import Peering.Event
import Peering.Log

/-!
# Effects

What an operation does apart from changing the state: it reports, calls back,
asks for a delay, or starts and cancels walks. Operations return their effects in
order, and a schedule acts on them.
-/

namespace Peering

/-- One thing done to the world outside the state. -/
inductive Effect where
  /-- A fact is reported. -/
  | report (r : LogRecord)
  /-- The observer of state changes is called for a registration. -/
  | changed (address generation : Value) (old : StateCode) (new : State)
  /-- The observer of established sessions is called for a registration. -/
  | established (address generation : Value)
  /-- The observer of events is called. -/
  | event (e : Event)
  /-- A walk of a registration asks for the delay between two states. -/
  | sleep (address generation : Value) (seconds : Float)
  /-- An observer called by a walk of a registration asks for a delay of its own. -/
  | pause (address generation : Value) (seconds : Float)
  /-- A walk has been started and waits for its first turn. -/
  | started (walk : Nat)
  /-- The cancellation of a walk has been requested. -/
  | cancelled (walk : Nat)

/-- The delay that is asked for. -/
def Effect.delay? : Effect → Option Float
  | .sleep _ _ seconds | .pause _ _ seconds => some seconds
  | _ => none

/-- What a callback does when it is called. -/
inductive Reply where
  /-- It returns. -/
  | returned
  /-- It fails with a message. -/
  | raised (message : String)
  /-- It asks for a delay and goes on afterwards. -/
  | suspended (seconds : Float)
  /-- It raises the cancellation error, as if whoever calls it had been cancelled. -/
  | cancelled
  deriving DecidableEq

/-- What the observers of walks do at one turn; an observer that is not set is not called. -/
structure Observers where
  /-- The observer of state changes. -/
  stateChange : Option Reply := none
  /-- The observer of established sessions. -/
  established : Option Reply := none
  /-- An observer whose own delay has passed. -/
  resumed : Reply := .returned

end Peering
