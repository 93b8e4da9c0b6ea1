import Peering.Failure
import Peering.State
import Peering.Value.Number

/-!
# Sessions

The record of one session: the state it is in, when it entered each of its
states, and what has been counted. A session only moves forward, one state at a
time, and its entry times increase even if the clock does not.
-/

namespace Peering

/-- The record of one session. -/
structure Session where
  /-- The address of the peer. -/
  address : Value
  /-- The state it is in. -/
  state : StateCode := .state .idle
  /-- When that state was entered. -/
  changedAt : Float := 0.0
  /-- Prefixes received. -/
  prefixesReceived : Value := .int 0
  /-- Prefixes sent. -/
  prefixesSent : Value := .int 0
  /-- Messages received. -/
  messagesReceived : Value := .int 0
  /-- Messages sent. -/
  messagesSent : Value := .int 0
  /-- The last error reported for the session. -/
  lastError : Value := .text ""
  /-- Seconds since `established` was entered, filled in when the record is read. -/
  uptime : Value := .int 0
  /-- The states entered and when, oldest first. -/
  history : List (StateCode × Float) := []

namespace Session

/-- The least distance between two entry times of a session, in seconds. -/
def timeStep : Float := 1e-6

/-- Prefixes that a session has received once it is established. -/
def establishedPrefixesReceived : Nat := 100

/-- Prefixes that a session has sent once it is established. -/
def establishedPrefixesSent : Nat := 50

/-- Messages received on the way to `established`. -/
def establishedMessagesReceived : Nat := 1000

/-- Messages sent on the way to `established`. -/
def establishedMessagesSent : Nat := 900

/-- A new session, idle since a moment. -/
def initial (address : Value) (now : Float) : Session :=
  { address, changedAt := now, history := [(.state .idle, now)] }

/-- The session is established. -/
def isEstablished (s : Session) : Bool := s.state.same (.state .established)

/-- When a state was entered first. -/
def enteredAt? (s : Session) (state : StateCode) : Option Float :=
  (s.history.find? (fun entry => entry.1.same state)).map Prod.snd

/-- The state that follows, none once established. A number that means no state has no
place in the order. -/
def next? (s : Session) : Except Failure (Option State) :=
  match s.state.state? with
  | some state => .ok state.next?
  | none => .error (.invalidValue none)

/-- The time at which the next state is entered if the clock shows `now`: a clock that has
not moved on is corrected to just after the last entry. -/
def entryTime (s : Session) (now : Float) : Float :=
  if now ≤ s.changedAt then s.changedAt + timeStep else now

/-- The session after entering a state. Once established it has its prefixes. -/
def enter (s : Session) (state : State) (now : Float) : Session :=
  let time := s.entryTime now
  let moved := { s with
    state := .state state, changedAt := time, history := s.history ++ [(.state state, time)] }
  if state = .established then
    { moved with
      prefixesReceived := .int establishedPrefixesReceived
      prefixesSent := .int establishedPrefixesSent }
  else moved

/-- A counter increased by a number. Only numbers can be added, and an integer that is to be added
to a double must not be too large for one. -/
def increased (counter increment : Value) : Except Failure Value :=
  match counter.number?, increment.number? with
  | some m, some n =>
    match m.add? n with
    | some sum => .ok sum.toValue
    | none => .error .overflow
  | _, _ => .error .wrongType

/-- Adds to the message counters, first to those received and then to those sent. A sum that
cannot be formed ends the counting there. -/
def count (s : Session) (received sent : Value) : Session × Except Failure Unit :=
  match increased s.messagesReceived received with
  | .error f => (s, .error f)
  | .ok messagesReceived =>
    let s := { s with messagesReceived }
    match increased s.messagesSent sent with
    | .error f => (s, .error f)
    | .ok messagesSent => ({ s with messagesSent }, .ok ())

/-- Moves the session to the next state. An established session stays as it is and fails. The
messages on the way to `established` are counted after that state has been entered. -/
def advance (s : Session) (now : Float) : Session × Except Failure State :=
  match s.next? with
  | .error f => (s, .error f)
  | .ok none =>
    (s, .error (.invalidValue
      (some ("session " ++ s.address.plain ++ " is already " ++ s.state.name))))
  | .ok (some state) =>
    let s := s.enter state now
    if state = .established then
      let (s, counted) :=
        s.count (.int establishedMessagesReceived) (.int establishedMessagesSent)
      (s, counted.map fun () => state)
    else (s, .ok state)

/-- The whole seconds between two clock readings. -/
def secondsBetween (earlier later : Float) : Except Failure Int :=
  match truncate (later - earlier) with
  | .ok n => .ok n
  | .error .infinite => .error .overflow
  | .error .notANumber => .error (.invalidValue (some "cannot convert float NaN to integer"))

/-- The record as it is read at a moment, with its uptime. -/
def snapshot (s : Session) (now : Float) : Except Failure Session :=
  if s.isEstablished then
    match secondsBetween s.changedAt now with
    | .ok seconds => .ok { s with uptime := .int (max 0 seconds) }
    | .error f => .error f
  else .ok { s with uptime := .int 0 }

end Session

end Peering
