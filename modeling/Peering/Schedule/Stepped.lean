import Peering.Schedule.Station

/-!
# The stepped schedule

A schedule that is driven by hand. Walks that can go on stand in a queue, first
come first served; walks that wait for a delay are parked until they are
released all at once. Time stands still except where it is moved.
-/

namespace Peering

/-- A station under the stepped schedule. -/
structure Stepped extends Station where
  /-- What the clock shows. -/
  clock : Float
  /-- The walks that can go on, next one first. -/
  ready : List Nat := []
  /-- The walks that wait for a delay, in the order in which they began to wait. -/
  parked : List Nat := []
  /-- All delays asked for so far. -/
  delays : List Float := []
  /-- Walks that are runs of one and the same, for each that was started beside itself. -/
  groups : List (List Nat) := []

namespace Stepped

/-- Acts on an effect: a walk that is started joins the queue, and so does one that is
cancelled while it is parked. -/
def note (s : Stepped) : Effect → Stepped
  | .started i => { s with ready := s.ready ++ [i] }
  | .cancelled i =>
    if i ∈ s.parked then { s with parked := s.parked.erase i, ready := s.ready ++ [i] } else s
  | _ => s

/-- Parks a walk for a delay. -/
def park (s : Stepped) (i : Nat) (seconds : Float) : Stepped :=
  { s with parked := s.parked ++ [i], delays := s.delays ++ [seconds] }

/-- What a walk has written last is also noted by the other runs of the same. -/
def share (s : Stepped) (i : Nat) : Stepped :=
  match s.groups.find? (·.contains i), s.engine.walk? i with
  | some runs, some walk =>
    let walks := s.engine.walks.zipIdx.map fun w =>
      if w.2 ∈ runs then { w.1 with written := walk.written } else w.1
    { s with engine.walks := walks }
  | _, _ => s

/-- Gives one walk a turn, and parks it if it asks for a delay. -/
def run (s : Stepped) (i : Nat) : Stepped :=
  let (station, effects) := s.toStation.walkTurn i s.clock
  let s := { s with toStation := station }.share i
  match effects.findSome? Effect.delay? with
  | some seconds => s.park i seconds
  | none => s

/-- Lets every walk run until it waits or ends. -/
def settle (s : Stepped) : Stepped := s.ready.foldl run { s with ready := [] }

/-- Moves the clock. -/
def tick (s : Stepped) (seconds : Float) : Stepped := { s with clock := s.clock + seconds }

/-- Releases the parked walks to the end of the queue. -/
def release (s : Stepped) : Stepped := { s with ready := s.ready ++ s.parked, parked := [] }

/-- Moves the clock, releases the parked walks and lets everything settle. -/
def step (s : Stepped) (seconds : Float) : Stepped := (s.tick seconds).release.settle

/-- Several steps. -/
def steps (s : Stepped) (seconds : Float) : Nat → Stepped
  | 0 => s
  | n + 1 => (s.step seconds).steps seconds n

/-- Settles and steps without moving the clock until nothing is parked, at most `n` times. -/
def exhaust (s : Stepped) : Nat → Stepped
  | 0 => s
  | n + 1 =>
    let settled := s.settle
    if settled.parked.isEmpty then settled else (settled.step 0.0).exhaust n

/-- How often a run to the end settles at most. -/
def patience : Nat := 20

/-- Runs all walks to their end. -/
def runToEnd (s : Stepped) : Stepped := s.exhaust patience

/-- Performs a call; no walk gets a turn meanwhile. -/
def call (s : Stepped) (c : Call) : Stepped × Except Failure Answer :=
  let (station, effects, result) := s.toStation.call c s.clock
  (effects.foldl note { s with toStation := station }, result)

/-- Polls the monitor. -/
def poll (s : Stepped) : Stepped × Except Failure (List Event) :=
  let (station, result) := s.toStation.poll s.clock
  ({ s with toStation := station }, result)

/-- Closes the engine. If it has walks, they end before the closing is reported; then
everything settles. -/
def close (s : Stepped) : Stepped :=
  let count := s.engine.walkOf.length
  let (station, effects) := s.toStation.close
  let closing := effects.foldl note { s with toStation := station }
  if count = 0 then { closing with toStation := closing.toStation.closed count }.settle
  else
    let settled := closing.settle
    { settled with toStation := settled.toStation.closed count }

/-- A walk is another run of one that has a number already. -/
def join (s : Stepped) (i new : Nat) : Stepped :=
  if s.groups.any (·.contains i) then
    { s with groups := s.groups.map fun runs => if runs.contains i then new :: runs else runs }
  else { s with groups := [new, i] :: s.groups }

/-- Starts a walk again, or for the first time. One that is still running goes on beside its
new run. The result is the number of the walk that was started. -/
def restart (s : Stepped) (i : Nat) : Stepped × Nat :=
  match s.engine.walk? i with
  | none => (s, i)
  | some w =>
    if w.isRunning then
      let new := s.engine.walks.length
      let (roster, effects) := s.engine.toRoster.start w.restart
      (effects.foldl note ({ s with engine := s.engine.withRoster roster }.join i new), new)
    else
      ({ s with
        engine := s.engine.withRoster (s.engine.toRoster.setWalk i w.restart)
        ready := s.ready ++ [i] }, i)

/-- Requests the cancellation of a walk. -/
def cancel (s : Stepped) (i : Nat) : Stepped :=
  let (roster, effects) := s.engine.toRoster.cancel i
  effects.foldl note { s with engine := s.engine.withRoster roster }

end Stepped

end Peering
