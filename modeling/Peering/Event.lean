import Peering.Session
import Peering.Table

/-!
# Events

What has changed between two snapshots of the sessions: a session is new, gone,
or in another state. Events come in the order of the new snapshot, removals last.
-/

namespace Peering

/-- The kind of a change. -/
inductive EventKind where
  | added
  | removed
  | changed
  /-- A kind that is not one of ours; it is described like a change of state. -/
  | other (name : String)
  deriving DecidableEq

/-- The name of a kind. -/
def EventKind.name : EventKind → String
  | added => "session_added"
  | removed => "session_removed"
  | changed => "state_changed"
  | other name => name

/-- The kind with a name. -/
def EventKind.ofName (s : String) : EventKind :=
  if s = "session_added" then added
  else if s = "session_removed" then removed
  else if s = "state_changed" then changed
  else other s

/-- One change between two snapshots. -/
structure Event where
  /-- What kind of change it is. -/
  kind : EventKind
  /-- The address of the session. -/
  address : Value
  /-- The state before, if the session was there. -/
  old : Option StateCode := none
  /-- The state after, if the session is there. -/
  new : Option StateCode := none
  /-- The session after, if it is there. -/
  session : Option Session := none

/-- Sessions by address. -/
abbrev Snapshot := Table Session

namespace Snapshot

/-- The snapshot of a list of sessions; of several at one address the last counts, at the
place of the first. -/
def ofSessions (sessions : List Session) : Snapshot :=
  sessions.foldl (fun s session => s.set session.address session) ([] : Table Session)

end Snapshot

namespace Event

/-- The name of the state of a description. -/
def stateName (code : Option StateCode) : Except Failure String :=
  match code.bind StateCode.state? with
  | some s => .ok s.name
  | none => .error .unnamed

/-- The event in words. It fails if a state that is to be named has no name. -/
def describe (e : Event) : Except Failure String := do
  let address := e.address.plain
  match e.kind with
  | .added => return address ++ " added in " ++ (← stateName e.new)
  | .removed => return address ++ " removed (was " ++ (← stateName e.old) ++ ")"
  | .changed | .other _ =>
    return address ++ " " ++ (← stateName e.old) ++ " -> " ++ (← stateName e.new)

/-- What one session of the new snapshot contributes. -/
def ofSession? (previous : Snapshot) (session : Session) : Option Event :=
  match previous.get? session.address with
  | none => some {
      kind := .added, address := session.address, new := some session.state
      session := some session }
  | some before =>
    if before.state.same session.state then none
    else some {
      kind := .changed, address := session.address, old := some before.state
      new := some session.state, session := some session }

/-- The event of a session that is gone. -/
def removal (address : Value) (before : Session) : Event :=
  { kind := .removed, address, old := some before.state }

/-- The changes from one snapshot to the next. -/
def between (previous : Snapshot) (current : List Session) : List Event :=
  current.filterMap (ofSession? previous) ++
    (previous.filter (fun e => !current.any (fun s => s.address.eqv e.1))).map
      (fun e => removal e.1 e.2)

/-- The changes from one list of sessions to another. An address that cannot be a key has no
session in a snapshot. -/
def betweenLists (previous current : List Session) : Except Failure (List Event) :=
  if (previous ++ current).all (fun s => s.address.isKey) then
    .ok (between (Snapshot.ofSessions previous) current)
  else .error .wrongType

end Event

end Peering
