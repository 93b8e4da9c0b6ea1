import Peering.Walk

/-!
# The roster

The registry together with all walks that were ever started on it. Walks are
numbered in the order in which they were started and keep their numbers; several
walks may serve one registration.
-/

namespace Peering

/-- A registry and its walks. -/
structure Roster where
  /-- The registered peers. -/
  registry : Registry := {}
  /-- All walks started so far. -/
  walks : List Walk := []

namespace Roster

/-- The walk with a number. -/
def walk? (r : Roster) (i : Nat) : Option Walk := r.walks[i]?

/-- The roster with a walk replaced. -/
def setWalk (r : Roster) (i : Nat) (w : Walk) : Roster := { r with walks := r.walks.set i w }

/-- Starts a walk under the next number. -/
def start (r : Roster) (w : Walk) : Roster × List Effect :=
  ({ r with walks := r.walks ++ [w] }, [.started r.walks.length])

/-- Requests the cancellation of a walk; one that is over is left alone. -/
def cancel (r : Roster) (i : Nat) : Roster × List Effect :=
  match r.walk? i with
  | some w => if w.isRunning then (r.setWalk i { w with stopping := true }, [.cancelled i])
    else (r, [])
  | none => (r, [])

/-- Requests the cancellation of several walks. -/
def cancelAll (r : Roster) : List Nat → Roster × List Effect
  | [] => (r, [])
  | i :: rest =>
    let (r, first) := r.cancel i
    let (r, others) := r.cancelAll rest
    (r, first ++ others)

/-- What a turn of the walk with a number leaves behind. -/
def absorb (r : Roster) (i : Nat) (t : Turn) : Roster × List Effect :=
  ({ r.setWalk i t.walk with registry := t.registry }, t.effects)

/-- Gives a walk a turn. -/
def turn (r : Roster) (i : Nat) (now : Float) (o : Observers) : Roster × List Effect :=
  match r.walk? i with
  | some w => r.absorb i (w.turn r.registry now o)
  | none => (r, [])

/-- Gives a walk a turn in which a pending cancellation does not reach it. -/
def turnUnheeding (r : Roster) (i : Nat) (now : Float) (o : Observers) : Roster × List Effect :=
  match r.walk? i with
  | some w => r.absorb i (w.resume r.registry now o)
  | none => (r, [])

/-- The walk with a number is not over. -/
def isRunning (r : Roster) (i : Nat) : Bool := (r.walk? i).any Walk.isRunning

end Roster

end Peering
