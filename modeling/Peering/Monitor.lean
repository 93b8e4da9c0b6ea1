import Peering.Engine.Reading

/-!
# The monitor

A monitor remembers the sessions that it saw last. A poll takes a new snapshot,
remembers it, and delivers the changes one by one; a callback that fails ends the
delivery, and the changes after it are never delivered.
-/

namespace Peering

/-- What a monitor remembers. -/
structure Monitor where
  /-- The sessions seen last, by address. -/
  sessions : Snapshot := []

/-- A callback for events: what it does at the first, second, … event of a poll. -/
abbrev EventObserver := Nat → Reply

/-- Why a callback with this reply does not come to its end, if it does not. The cancellation error
has an empty message. -/
def Reply.failure? : Reply → Option Failure
  | .raised message => some (.callback message)
  | .cancelled => some (.callback "")
  | .returned | .suspended _ => none

namespace Monitor

/-- A report by the monitor. -/
def report (level : Level) (text : String) : Effect := .report ⟨level, "SessionMonitor", text⟩

/-- Reports events and delivers them to a callback, if there is one, from the one with
number `i` on. -/
def deliver (callback : Option EventObserver) (i : Nat) :
    List Event → List Effect × Except Failure Unit
  | [] => ([], .ok ())
  | event :: rest =>
    match event.describe with
    | .error f => ([], .error f)
    | .ok text =>
      let told := report .debug ("Session event: " ++ text)
      match callback with
      | none =>
        let (effects, result) := deliver callback (i + 1) rest
        (told :: effects, result)
      | some reply =>
        match (reply i).failure? with
        | some f => ([told, .event event], .error f)
        | none =>
          let (effects, result) := deliver callback (i + 1) rest
          (told :: .event event :: effects, result)

/-- The reply with which a callback breaks off the delivery of `n` events, if it does. -/
def breakingReply? (callback : Option EventObserver) (n : Nat) : Option Reply := do
  let reply ← callback
  ((List.range n).map reply).find? fun r => r.failure?.isSome

/-- What a poll leaves behind. -/
structure Polled where
  /-- The monitor after the poll. -/
  monitor : Monitor
  /-- What was done, in order. -/
  effects : List Effect
  /-- The changes found, or why the poll failed. -/
  result : Except Failure (List Event)
  /-- The callback has raised the cancellation error, which ends whoever polls. -/
  isCancelled : Bool := false

/-- Takes a snapshot and delivers the changes since the last one. The snapshot is remembered
even if the delivery fails. -/
def poll (m : Monitor) (e : Engine) (now : Float) (callback : Option EventObserver) : Polled :=
  match e.getAllSessions now with
  | (effects, .error f) => { monitor := m, effects, result := .error f }
  | (effects, .ok current) =>
    let events := Event.between m.sessions current
    let (delivered, result) := deliver callback 0 events
    { monitor := ⟨Snapshot.ofSessions current⟩
      effects := effects ++ delivered
      result := result.map (fun _ => events)
      isCancelled := breakingReply? callback events.length = some .cancelled }

end Monitor

end Peering
