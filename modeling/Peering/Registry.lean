import Peering.Log
import Peering.Peer
import Peering.Session
import Peering.Table

/-!
# The registry

The peers and their sessions by address, in the order of registration. Each address also has
the generation of its registration: an address that is removed and registered again comes back
under a new generation, at the end of the order. A peer, its session and its generation come and
go together. Addresses and generations may be any values here and are compared as such.
-/

namespace Peering

/-- All registered peers, oldest registration first. -/
structure Registry where
  /-- The peer at each address. -/
  peerOf : Table Peer := []
  /-- The session at each address. -/
  sessionOf : Table Session := []
  /-- The generation of the registration of each address. -/
  generationOf : Table Value := []

namespace Registry

/-- The address is registered. -/
def contains (r : Registry) (address : Value) : Except Failure Bool :=
  (r.peerOf.lookUp address).map Option.isSome

/-- The peers in order. -/
def peers (r : Registry) : List Peer := r.peerOf.values

/-- The sessions in order. -/
def sessions (r : Registry) : List Session := r.sessionOf.values

/-- The number of registered peers. -/
def size (r : Registry) : Nat := r.peerOf.length

/-- The peer at an address. -/
def getPeer (r : Registry) (address : Value) : Except Failure Peer :=
  r.peerOf.require address EngineError.peerNotFound

/-- The session at an address. -/
def getSession (r : Registry) (address : Value) : Except Failure Session :=
  r.sessionOf.require address EngineError.sessionNotFound

/-- A generation is the live one of its address. An address that is not registered has null in the
place of a generation. -/
def isCurrent (r : Registry) (address generation : Value) : Except Failure Bool :=
  (r.generationOf.lookUp address).map fun found => (found.getD .null).eqv generation

/-- The session at an address, if its generation is the given one. With null for a generation
it must be there. -/
def live? (r : Registry) (address generation : Value) : Except Failure (Option Session) :=
  match r.isCurrent address generation with
  | .error f => .error f
  | .ok false => .ok none
  | .ok true =>
    match r.sessionOf.get? address with
    | some session => .ok (some session)
    | none => .error .missing

/-- The registry with the session at an address replaced. -/
def setSession (r : Registry) (address : Value) (session : Session) : Registry :=
  { r with sessionOf := r.sessionOf.set address session }

/-- A peer as it is kept. The registry has a copy of its own and hands out copies of that; what is
kept is what they show. -/
def kept (peer : Peer) : Peer := peer.copied.copied

/-- A peer as it is registered at a moment. -/
def created (peer : Peer) (now : Float) : Peer :=
  { kept peer with createdAt := .float now, updatedAt := .float now }

/-- Registers a peer and its idle session. The peer must be one that can be copied. -/
def insert (r : Registry) (peer : Peer) (generation : Value) (now : Float) :
    Except Failure Registry :=
  match r.peerOf.lookUp peer.address with
  | .error f => .error f
  | .ok (some _) => .error (.refused (EngineError.duplicatePeer peer.address))
  | .ok none =>
    if peer.isCopyable then .ok {
      peerOf := r.peerOf.set peer.address (created peer now)
      sessionOf := r.sessionOf.set peer.address (Session.initial peer.address now)
      generationOf := r.generationOf.set peer.address generation }
    else .error .tooDeep

/-- What is reported when a peer has been registered. -/
def insertedRecord (address generation : Value) : LogRecord :=
  ⟨.debug, "neighborsim.bgp.store", "Inserted peer " ++ address.plain ++ " generation " ++
    generation.plain⟩

/-- Drops a peer and its session. What belongs to a registered peer must be there. -/
def delete (r : Registry) (address : Value) : Except Failure Registry :=
  match r.getPeer address with
  | .error f => .error f
  | .ok _ =>
    match r.sessionOf.remove? address, r.generationOf.remove? address with
    | some sessionOf, some generationOf =>
      .ok { peerOf := r.peerOf.erase address, sessionOf, generationOf }
    | _, _ => .error .missing

/-- The time of an update: the clock, or the last update if that is later. A last update at
time zero counts as none. -/
def updateTime (last : Value) (now : Float) : Float :=
  match last with
  | .float t => if t == 0.0 then now else if now < t then t else now
  | _ => now

/-- What an update makes of a peer: all fields are replaced but the time of creation. -/
def updated (existing replacement : Peer) (now : Float) : Peer :=
  { kept replacement with
    createdAt := existing.createdAt
    updatedAt := .float (updateTime existing.updatedAt now) }

/-- Replaces the configuration of a registered peer by one that can be copied; the session and the
place in the order stay. -/
def replace (r : Registry) (peer : Peer) (now : Float) : Except Failure Registry :=
  match r.getPeer peer.address with
  | .error f => .error f
  | .ok existing =>
    if peer.isCopyable then
      .ok { r with peerOf := r.peerOf.set peer.address (updated existing peer now) }
    else .error .tooDeep

/-- All sessions as they are read at a moment. -/
def snapshotSessions (r : Registry) (now : Float) : Except Failure (List Session) :=
  r.sessions.mapM (fun s => s.snapshot now)

/-- The number of established sessions. -/
def countEstablished (r : Registry) : Nat := (r.sessions.filter Session.isEstablished).length

/-- The number of sessions in each state. It fails if a session is in none of the six. -/
def countByState (r : Registry) : Except Failure (List (State × Nat)) :=
  match r.sessions.mapM (fun s => s.state.state?) with
  | some states => .ok (State.all.map (fun state => (state, states.count state)))
  | none => .error .unnamed

end Registry

end Peering
