import Peering.FaultSwitch
import Peering.Roster
import Peering.RunningConfig

/-!
# The engine

The engine holds the peers, their walks and the fault switch, and answers
requests. Each successful registration gets a generation of its own and a walk,
which the engine finds again by the address.
-/

namespace Peering

/-- The state of the engine. -/
structure Engine extends Roster where
  /-- The delay between two states of a session, in seconds. -/
  stateDelay : Float := 2.0
  /-- The AS number shown in the running configuration. -/
  routerAsn : Value := RunningConfig.usualRouterAsn
  /-- The fault switch. -/
  faults : FaultSwitch := {}
  /-- The generation that the next registration gets. -/
  nextGeneration : Int := 1
  /-- The number of the walk of an address, in order of registration. -/
  walkOf : Table Nat := []

/-- What a request leaves behind. -/
structure Outcome (α : Type) where
  /-- The engine after the request. -/
  engine : Engine
  /-- What was done, in order. -/
  effects : List Effect
  /-- The answer, or why there is none. -/
  result : Except Failure α

/-- What a caller gives as the configuration of a peer: a record, or a mapping in which
fields may go by a second name and be left out. Nothing else is one. -/
inductive PeerInput where
  | record (p : Peer)
  | mapping (m : Mapping)
  | other

namespace PeerInput

/-- The peer that is described. -/
def peer : PeerInput → Except Failure Peer
  | .record p => .ok p
  | .mapping m => .ok (Peer.ofMapping m)
  | .other => .error .noConfiguration

/-- The address shown in reports and refusals, null if none is given. -/
def address : PeerInput → Value
  | .record p => p.address
  | .mapping m => (Peer.addressIn? m).getD .null
  | .other => .null

end PeerInput

namespace Engine

/-- The delay of an engine for which none is set, in seconds. -/
def usualStateDelay : Float := 2.0

/-- Makes an engine without peers, with its fault switch as given. A negative delay is refused. -/
def create (stateDelay : Float) (routerAsn faults : Value) : Except Failure Engine :=
  if stateDelay < 0.0 then
    .error (.invalidValue
      (some ("state delay must be non-negative, got " ++ floatText stateDelay)))
  else .ok { stateDelay, routerAsn, faults := { enabled := faults } }

/-- What is reported when the engine is made. -/
def creationRecords (e : Engine) : List LogRecord := e.faults.makingRecords

/-- Who reports for the engine. -/
def source (e : Engine) : String := "Coordinator[AS" ++ e.routerAsn.plain ++ "]"

/-- A report by the engine. -/
def report (e : Engine) (level : Level) (text : String) : Effect :=
  .report ⟨level, e.source, text⟩

/-- The number of the walk that belongs to an address. -/
def walkNumber? (e : Engine) (address : Value) : Option Nat := e.walkOf.get? address

/-- The walk that belongs to an address. -/
def walkAt? (e : Engine) (address : Value) : Option Walk :=
  (e.walkNumber? address).bind e.walk?

/-- The engine in words. -/
def describe (e : Engine) : String :=
  "Coordinator(router_asn=" ++ e.routerAsn.plain ++ ", peers=" ++ intText e.registry.size ++
    ", state_delay=" ++ floatText e.stateDelay ++ ", faults=" ++
    e.faults.enabled.plain ++ ")"

/-- The engine with its roster replaced. -/
def withRoster (e : Engine) (r : Roster) : Engine := { e with toRoster := r }

/-- Gives a walk a turn. -/
def walkTurn (e : Engine) (i : Nat) (now : Float) (o : Observers) : Engine × List Effect :=
  let (roster, effects) := e.toRoster.turn i now o
  (e.withRoster roster, effects)

end Engine

end Peering
