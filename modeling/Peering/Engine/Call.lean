import Peering.Engine.Change
import Peering.Engine.Reading

/-!
# Calls

The requests to the engine as data, so that sequences of them can be spoken of.
A call runs without interruption; walks get their turns between calls.
-/

namespace Peering

/-- A request to the engine. -/
inductive Call where
  | addPeer (input : PeerInput)
  | updatePeer (input : PeerInput)
  | removePeer (address : Value)
  | setSessionError (address : Value) (message : Value)
  | incrementCounters (address : Value) (received sent : Value)
  | setFaults (enabled : Bool)
  | session (address : Value)
  | sessions
  | peer (address : Value)
  | peers
  | counts
  | runningConfig
  | statistics
  | walk (address : Value)
  | faults
  | describe

/-- What a call is answered with. -/
inductive Answer where
  | done
  | session (s : Session)
  | sessions (l : List Session)
  | peer (p : Peer)
  | peers (l : List Peer)
  /-- The numbers of peers and of established sessions. -/
  | counts (peers established : Nat)
  | text (s : String)
  | statistics (s : Statistics)
  /-- The walk that belongs to an address, if there is one. -/
  | walk (w : Option Walk)

namespace Call

/-- The outcome of a request that changes something. -/
def changing (o : Outcome Unit) : Outcome Answer :=
  ⟨o.engine, o.effects, o.result.map (fun _ => .done)⟩

/-- The outcome of a read. -/
def reading {α : Type} (e : Engine) (answer : α → Answer) (r : Engine.Reading α) :
    Outcome Answer :=
  ⟨e, r.1, r.2.map answer⟩

/-- Performs a call at a moment. -/
def perform (c : Call) (e : Engine) (now : Float) : Outcome Answer :=
  match c with
  | .addPeer input => changing (e.addPeer input now)
  | .updatePeer input => changing (e.updatePeer input now)
  | .removePeer address => changing (e.removePeer address)
  | .setSessionError address message => changing (e.setSessionError address message)
  | .incrementCounters address received sent =>
    changing (e.incrementCounters address received sent)
  | .setFaults enabled => changing (e.setFaults enabled)
  | .session address => reading e .session (e.getSession address now)
  | .sessions => reading e .sessions (e.getAllSessions now)
  | .peer address => reading e .peer (e.getPeer address)
  | .peers => reading e .peers e.getAllPeers
  | .counts => reading e id ([], .ok (.counts e.peerCount e.establishedCount))
  | .runningConfig => reading e .text e.runningConfig
  | .statistics => reading e .statistics ([], e.statistics)
  | .walk address => reading e .walk (e.getWalk address)
  | .faults => reading e .text ([], .ok e.faults.describe)
  | .describe => reading e .text ([], .ok e.describe)

end Call

end Peering
