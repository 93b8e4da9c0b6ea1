import Peering.Engine.Basic

/-!
# Requests that only read

What is read is a copy as of one moment. Nothing is changed; most reads are
reported.
-/

namespace Peering

/-- The figures of an engine. -/
structure Statistics where
  /-- The number of registered peers. -/
  totalPeers : Nat
  /-- The number of established sessions. -/
  establishedSessions : Nat
  /-- The number of sessions in each state. -/
  sessionsByState : List (State × Nat)
  /-- The number of walks that are not over. -/
  activeWalks : Nat
  /-- The fault switch is on if this counts as true. -/
  faultInjection : Value
  /-- The delay between two states. -/
  stateDelay : Float

namespace Statistics

/-- The figures as a mapping. -/
def toMapping (s : Statistics) : Mapping :=
  [(.text "total_peers", .int s.totalPeers),
    (.text "established_sessions", .int s.establishedSessions),
    (.text "sessions_by_state",
      .mapping (s.sessionsByState.map (fun c => (.text c.1.name, .int c.2)))),
    (.text "active_walks", .int s.activeWalks),
    (.text "fault_injection", s.faultInjection),
    (.text "state_delay", .float s.stateDelay)]

end Statistics

namespace Engine

/-- What a read gives: reports, and the answer or why there is none. -/
abbrev Reading (α : Type) := List Effect × Except Failure α

/-- The session at an address. -/
def getSession (e : Engine) (address : Value) (now : Float) : Reading Session :=
  match e.registry.getSession address with
  | .error f => ([], .error f)
  | .ok session =>
    match session.snapshot now with
    | .error f => ([], .error f)
    | .ok s =>
      ([e.report .debug ("Session snapshot " ++ address.plain ++ ": " ++ s.state.name)], .ok s)

/-- All sessions, in order of registration. -/
def getAllSessions (e : Engine) (now : Float) : Reading (List Session) :=
  match e.registry.snapshotSessions now with
  | .error f => ([], .error f)
  | .ok sessions =>
    ([e.report .debug ("Sessions snapshot: " ++ intText sessions.length ++ " entries")],
      .ok sessions)

/-- All peers, in order of registration. -/
def getAllPeers (e : Engine) : Reading (List Peer) :=
  let peers := e.registry.peers
  ([e.report .debug ("Peers snapshot: " ++ intText peers.length ++ " entries")], .ok peers)

/-- The peer at an address. -/
def getPeer (e : Engine) (address : Value) : Reading Peer := ([], e.registry.getPeer address)

/-- The walk that belongs to an address, if there is one. What cannot be a key cannot be looked
up. -/
def getWalk (e : Engine) (address : Value) : Reading (Option Walk) :=
  ([], if address.isKey then .ok (e.walkAt? address) else .error .wrongType)

/-- The number of registered peers. -/
def peerCount (e : Engine) : Nat := e.registry.size

/-- The number of established sessions. -/
def establishedCount (e : Engine) : Nat := e.registry.countEstablished

/-- The running configuration of all peers. -/
def runningConfig (e : Engine) : Reading String :=
  (e.getAllPeers.1, RunningConfig.render e.registry.peers e.routerAsn)

/-- The number of walks found by an address that are not over. -/
def activeWalks (e : Engine) : Nat := (e.walkOf.values.filter e.isRunning).length

/-- The figures of the engine. -/
def statistics (e : Engine) : Except Failure Statistics := do
  return {
    totalPeers := e.peerCount
    establishedSessions := e.establishedCount
    sessionsByState := ← e.registry.countByState
    activeWalks := e.activeWalks
    faultInjection := e.faults.enabled
    stateDelay := e.stateDelay }

end Engine

end Peering
