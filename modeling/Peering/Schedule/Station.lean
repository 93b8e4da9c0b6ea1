import Peering.Engine.Call
import Peering.Monitor

/-!
# Stations

A station is an engine with its monitor and observers, and a trace of all that
has been done. Schedules are built on it: they decide who gets a turn when.
-/

namespace Peering

/-- An engine with its surroundings. -/
structure Station where
  /-- The engine. -/
  engine : Engine := {}
  /-- The monitor. -/
  monitor : Monitor := {}
  /-- What the observers of walks do. -/
  observers : Observers := {}
  /-- The callback of the monitor. -/
  onEvent : Option EventObserver := none
  /-- What has been done since the trace was last taken, newest first. -/
  trace : List Effect := []

namespace Station

/-- Puts effects on the trace. -/
def record (s : Station) (effects : List Effect) : Station :=
  { s with trace := effects.reverse ++ s.trace }

/-- What has been done since the trace was last taken, oldest first. -/
def done (s : Station) : List Effect := s.trace.reverse

/-- Takes the trace. -/
def cleared (s : Station) : Station := { s with trace := [] }

/-- Gives a walk a turn. -/
def walkTurn (s : Station) (i : Nat) (now : Float) : Station × List Effect :=
  let (engine, effects) := s.engine.walkTurn i now s.observers
  ({ s with engine }.record effects, effects)

/-- Performs a call. -/
def call (s : Station) (c : Call) (now : Float) :
    Station × List Effect × Except Failure Answer :=
  let o := c.perform s.engine now
  ({ s with engine := o.engine }.record o.effects, o.effects, o.result)

/-- Polls the monitor. -/
def poll (s : Station) (now : Float) : Station × Except Failure (List Event) :=
  let p := s.monitor.poll s.engine now s.onEvent
  ({ s with monitor := p.monitor }.record p.effects, p.result)

/-- Begins to close the engine. -/
def close (s : Station) : Station × List Effect :=
  let (engine, effects) := s.engine.close
  ({ s with engine }.record effects, effects)

/-- Reports that the engine has been closed. -/
def closed (s : Station) (walks : Nat) : Station := s.record [s.engine.closedReport walks]

end Station

end Peering
