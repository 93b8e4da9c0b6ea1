import Peering.Schedule.Timed
import Peering.Settings.Basic

/-!
# Simulations

A simulation adds the peers of its settings, then polls until all sessions are
established or the time is up. At last it shows the running configuration. Its
time is virtual, and the clock by which states are entered stands still.
-/

namespace Peering

/-- How a simulation is watched. What is not given as a number cannot be used. -/
structure Watch where
  /-- The seconds after which it ends at the latest. -/
  timeout : Option Float := some 60.0
  /-- The seconds between two polls. -/
  interval : Option Float := some 0.5

namespace Simulation

/-- What a simulation has shown at its end. -/
structure Report where
  /-- All peers were added and all sessions became established. -/
  succeeded : Bool
  /-- The running configuration. -/
  config : String
  /-- What was logged. -/
  log : List LogRecord

/-- Who reports for the simulation. -/
def source : String := "neighborsim"

/-- A report by the simulation. -/
def report (level : Level) (text : String) : Effect := .report ⟨level, source, text⟩

/-- The record of an effect: a report as it is, and an event in words. -/
def record? : Effect → Option LogRecord
  | .report r => some r
  | .event e =>
    match e.describe with
    | .ok text => some ⟨.info, source, "Session " ++ text⟩
    | .error _ => none
  | _ => none

/-- What the clock shows during a simulation, in seconds since 1970. -/
def clockReading : Nat := 1700000000

/-- The schedule with a report made. -/
def tell (s : Timed) (level : Level) (text : String) : Timed :=
  { s with toStation := s.toStation.record [report level text] }

/-- The report at the beginning. -/
def startText (s : Settings) : String :=
  "Starting simulator: " ++ intText s.peers.length ++ " peers, delay=" ++ floatText s.delay ++
    "s, error_injection=" ++ s.errorInjection.plain

/-- The engine that settings ask for. -/
def engineOf (s : Settings) : Except Failure Engine :=
  Engine.create s.delay s.routerAsn (.bool s.errorInjection.isTruthy)

/-- A simulation before its peers are added. -/
def opening (s : Settings) (e : Engine) : Timed :=
  let station : Station := { engine := e, onEvent := some fun _ => .returned }
  let station := station.record (e.creationRecords.map .report)
  tell { toStation := station, clockAt := fun _ => Float.ofNat clockReading } .info (startText s)

/-- Adds a peer, and tells whether it was not refused. -/
def addPeer (s : Timed) (p : Peer) : Except Failure (Timed × Bool) :=
  match s.call (.addPeer (.record p)) with
  | (s, .ok _) => .ok (s, true)
  | (s, .error (.refused e)) =>
    .ok (tell s .error ("Failed to add peer " ++ p.address.plain ++ ": " ++ e.message), false)
  | (_, .error f) => .error f

/-- Adds peers in order, and tells whether none of them was refused. -/
def addPeers (s : Timed) : List Peer → Except Failure (Timed × Bool)
  | [] => .ok (s, true)
  | p :: rest => do
    let (s, added) ← addPeer s p
    let (s, others) ← addPeers s rest
    return (s, added && others)

/-- Polls until all sessions are established, or until a poll at or after the deadline finds
that they are not; tells whether they are. -/
def watch (w : Watch) (deadline : Float) : Nat → Timed → Except Failure (Timed × Bool)
  | 0, s => .ok (s, false)
  | n + 1, s =>
    match s.poll with
    | (_, .error f) => .error f
    | (s, .ok _) =>
      let total := s.engine.peerCount
      let established := s.engine.establishedCount
      if established = total then
        .ok (tell s .info ("All " ++ intText total ++ " sessions established"), true)
      else if deadline ≤ s.time then
        .ok (tell s .warning ("Timeout: " ++ intText established ++ "/" ++ intText total ++
          " sessions established"), false)
      else match w.interval with
        | some seconds => watch w deadline n (s.wait seconds)
        | none => .error .wrongType

/-- Shows the running configuration and the figures, and closes the engine. -/
def closing (s : Timed) : Except Failure (Timed × String) := do
  let (effects, config) := s.engine.runningConfig
  let s := { s with toStation := s.toStation.record effects }
  let config ← config
  let figures ← s.engine.statistics
  let s := tell s .info ("Statistics: " ++ (Value.mapping figures.toMapping).exact)
  return (s.close, config)

/-- Runs a simulation to its end. -/
def run (settings : Settings) (w : Watch) : Except Failure Report := do
  let engine ← engineOf settings
  let (s, added) ← addPeers (opening settings engine) settings.peers
  let timeout ← w.timeout.elim (.error .wrongType) .ok
  let (s, established) ← watch w (s.time + timeout) Timed.horizon s
  let (s, config) ← closing s
  return { succeeded := added && established, config, log := s.done.filterMap record? }

end Simulation

end Peering
