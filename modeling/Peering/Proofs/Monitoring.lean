import Peering.Monitor
import Peering.Proofs.Changes
import Peering.Proofs.Readings
import Peering.Proofs.Tables

/-!
# What a monitor tells

A monitor polls an engine on which anything may happen between two polls, and its callback may fail
at any event. Each poll tells what has changed since the last one, in words that always exist, and
remembers what it has seen before it tells anybody. So if no callback fails, who applies all events
delivered so far knows the states of all sessions as of the last poll; and after a failure the next
poll goes on from the snapshot whose changes were not all delivered.
-/

namespace Peering

open Registration

/-- The events that a callback is called with, in order. -/
def eventsIn (effects : List Effect) : List Event :=
  effects.filterMap fun
    | .event event => some event
    | _ => none

/-- No effects hold no events. -/
@[simp] theorem eventsIn_nil : eventsIn [] = [] := rfl

/-- The events of effects come one after the other. -/
@[simp] theorem eventsIn_append (l m : List Effect) :
    eventsIn (l ++ m) = eventsIn l ++ eventsIn m :=
  List.filterMap_append

/-- A report holds no event. -/
@[simp] theorem eventsIn_report (r : LogRecord) (l : List Effect) :
    eventsIn (.report r :: l) = eventsIn l := rfl

/-- A delivered event is one. -/
@[simp] theorem eventsIn_event (event : Event) (l : List Effect) :
    eventsIn (.event event :: l) = event :: eventsIn l := rfl

/-- A callback that does not come to its end fails as a callback. -/
theorem Reply.eq_callback_of_failure {r : Reply} {f : Failure} (h : r.failure? = some f) :
    ∃ message, f = .callback message := by
  cases r with
  | returned | suspended => cases h
  | raised message => exact ⟨message, (Option.some.inj h).symm⟩
  | cancelled => exact ⟨"", (Option.some.inj h).symm⟩

namespace Monitor

/-- The events can be put into words. -/
def AreDescribed (events : List Event) : Prop := ∀ event ∈ events, ∃ text, event.describe = .ok text

/-- What a callback hears of several events, and how their delivery ends. -/
inductive Hears (events : List Event) :
    Option EventObserver → List Event → Except Failure Unit → Prop where
  /-- Without a callback nothing is heard. -/
  | nothing : Hears events none [] (.ok ())
  /-- A callback that fails at none of the events hears all of them. -/
  | all {reply : EventObserver}
    (hreply : ∀ i < events.length, (reply i).failure? = none) :
    Hears events (some reply) events (.ok ())
  /-- A callback that fails hears the events up to the first one at which it does. -/
  | upTo {reply : EventObserver} {i : Nat} {message : String} (hi : i < events.length)
    (hfails : (reply i).failure? = some (.callback message))
    (hbefore : ∀ j < i, (reply j).failure? = none) :
    Hears events (some reply) (events.take (i + 1)) (.error (.callback message))

variable {event : Event} {events heard : List Event} {reply : EventObserver}
  {outcome : Except Failure Unit}

/-- A callback that does not fail at the first event hears it, and then of the others. -/
theorem Hears.cons (h : Hears events (some fun j => reply (j + 1)) heard outcome)
    (hfirst : (reply 0).failure? = none) :
    Hears (event :: events) (some reply) (event :: heard) outcome := by
  cases h with
  | all hreply =>
    refine .all fun i hi => ?_
    cases i with
    | zero => exact hfirst
    | succ i => exact hreply i (Nat.lt_of_succ_lt_succ hi)
  | upTo hi hfails hbefore =>
    refine .upTo (Nat.succ_lt_succ hi) hfails fun j hj => ?_
    cases j with
    | zero => exact hfirst
    | succ j => exact hbefore j (Nat.lt_of_succ_lt_succ hj)

/-- Without a callback nothing is heard and nothing fails. -/
theorem Hears.eq_of_silent (h : Hears events none heard outcome) :
    heard = [] ∧ outcome = .ok () := by
  cases h with
  | nothing => exact ⟨rfl, rfl⟩

/-- A callback that does not end the delivery hears all events. -/
theorem Hears.eq_of_heard (h : Hears events (some reply) heard outcome)
    (houtcome : ∀ message, outcome ≠ .error (.callback message)) : heard = events := by
  cases h with
  | all => rfl
  | upTo => exact absurd rfl (houtcome _)

/-- What is delivered of events that can be put into words, from some number on. -/
theorem hears_deliver (hevents : AreDescribed events) (callback : Option EventObserver) (i : Nat) :
    Hears events (callback.map fun reply j => reply (i + j))
      (eventsIn (deliver callback i events).1) (deliver callback i events).2 := by
  induction events generalizing i with
  | nil =>
    cases callback with
    | none => exact .nothing
    | some reply => exact .all fun j hj => absurd hj (Nat.not_lt_zero j)
  | cons event rest ih =>
    obtain ⟨text, htext⟩ := hevents event List.mem_cons_self
    have hrest := ih (fun event hevent => hevents event (List.mem_cons_of_mem _ hevent)) (i + 1)
    cases callback with
    | none =>
      obtain ⟨hheard, houtcome⟩ := hrest.eq_of_silent
      simp only [deliver, htext, Option.map_none, report, eventsIn_report, hheard, houtcome]
      exact .nothing
    | some reply =>
      have hshift : (fun j => reply (i + 1 + j)) = fun j => reply (i + (j + 1)) := by
        funext j
        rw [Nat.add_right_comm, Nat.add_assoc]
      rw [Option.map_some, hshift] at hrest
      cases hfirst : (reply i).failure? with
      | some f =>
        obtain ⟨message, rfl⟩ := Reply.eq_callback_of_failure hfirst
        simp only [deliver, htext, Option.map_some, hfirst, report, eventsIn_report,
          eventsIn_event, eventsIn_nil]
        exact .upTo (i := 0) (Nat.succ_pos rest.length) hfirst
          fun j hj => absurd hj (Nat.not_lt_zero j)
      | none =>
        simp only [deliver, htext, Option.map_some, hfirst, report, eventsIn_report,
          eventsIn_event]
        exact hrest.cons hfirst

variable {m : Monitor} {e : Engine} {now : Float} {callback : Option EventObserver}

/-- A poll that cannot read the sessions leaves the monitor as it is, and nothing is delivered. -/
theorem poll_of_error {f : Failure} (hread : (e.getAllSessions now).2 = .error f) :
    (m.poll e now callback).monitor = m ∧ (m.poll e now callback).result = .error f := by
  unfold poll
  split
  · rename_i effects g hsessions
    rw [hsessions] at hread
    obtain rfl := Except.error.inj hread
    exact ⟨rfl, rfl⟩
  · rename_i effects current hsessions
    rw [hsessions] at hread
    cases hread

/-- A poll remembers what it has read, and delivers the changes. -/
theorem poll_of_ok {current : List Session} (hread : (e.getAllSessions now).2 = .ok current) :
    (m.poll e now callback).monitor = ⟨Snapshot.ofSessions current⟩ ∧
      (AreDescribed (Event.between m.sessions current) → ∃ outcome,
        Hears (Event.between m.sessions current) callback
          (eventsIn (m.poll e now callback).effects) outcome ∧
        (m.poll e now callback).result =
          outcome.map fun _ => Event.between m.sessions current) := by
  have hreports : eventsIn (e.getAllSessions now).1 = [] := by
    unfold Engine.getAllSessions
    split <;> rfl
  unfold poll
  split
  · rename_i effects f hsessions
    rw [hsessions] at hread
    cases hread
  · rename_i effects current' hsessions
    rw [hsessions] at hread hreports
    obtain rfl := Except.ok.inj hread
    refine ⟨rfl, fun hevents => ⟨_, ?_, rfl⟩⟩
    rw [eventsIn_append, hreports, List.nil_append]
    have hhears := hears_deliver hevents callback 0
    simpa only [Nat.zero_add, Option.map_id'] using hhears

end Monitor

/-- What happens between two polls of a monitor, and the second of these polls. What happens while
a callback waits counts to the next round. -/
structure Round where
  /-- What happens to the engine before the poll. -/
  moments : List Moment
  /-- What the clock shows at the poll. -/
  now : Float
  /-- The callback at this poll, if there is one. -/
  callback : Option EventObserver

/-- An engine, a monitor that polls it, and what it has delivered so far. -/
structure Lookout where
  /-- The engine as it was at the last poll. -/
  engine : Engine
  /-- The monitor. -/
  monitor : Monitor := {}
  /-- The events that were delivered, in order. -/
  delivered : List Event := []

namespace Lookout

/-- The engine as the poll of a round finds it. -/
def found (w : Lookout) (round : Round) : Engine := w.engine.run round.moments

/-- What the poll of a round leaves behind. -/
def polled (w : Lookout) (round : Round) : Monitor.Polled :=
  w.monitor.poll (w.found round) round.now round.callback

/-- The lookout after a round. -/
def next (w : Lookout) (round : Round) : Lookout where
  engine := w.found round
  monitor := (w.polled round).monitor
  delivered := w.delivered ++ eventsIn (w.polled round).effects

/-- The lookout after several rounds. -/
def run (w : Lookout) (rounds : List Round) : Lookout := rounds.foldl next w

/-- At every poll all sessions can be read. -/
def IsReadable (w : Lookout) : List Round → Prop
  | [] => True
  | round :: rounds => (w.found round).IsReadable round.now ∧ (w.next round).IsReadable rounds

/-- At every poll there is a callback, and it does not fail. -/
def IsHeard (w : Lookout) : List Round → Prop
  | [] => True
  | round :: rounds => round.callback.isSome = true ∧
      (∀ message, (w.polled round).result ≠ .error (.callback message)) ∧
      (w.next round).IsHeard rounds

/-- The poll of a round tells these events. -/
structure Reports (w : Lookout) (round : Round) (events : List Event) : Prop where
  /-- Whatever the callback does, the sessions that the engine shows are remembered. -/
  values_eq : ((w.found round).getAllSessions round.now).2 =
    .ok (w.next round).monitor.sessions.values
  /-- They are remembered in the order of the engine. -/
  keys_eq : (w.next round).monitor.sessions.keys = (w.found round).addresses
  /-- The events are the differences of both snapshots, in the order of `Event.between`. -/
  events_eq :
    events = Event.between w.monitor.sessions (w.next round).monitor.sessions.values
  /-- The events tell exactly what has changed since the snapshot that was remembered before. -/
  mem_iff : ∀ event, event ∈ events ↔
    event.Tells w.monitor.sessions (w.next round).monitor.sessions
  /-- Of each address at most one event is told. -/
  nodup : (events.map Event.address).Nodup
  /-- They are delivered to the callback as far as it does not fail. -/
  hears : ∃ heard outcome, Monitor.Hears events round.callback heard outcome ∧
    (w.polled round).result = outcome.map (fun _ => events) ∧
    (w.next round).delivered = w.delivered ++ heard

/-- The monitor tells in every round what has changed since the round before, and keeps those who
hear of everything up to date. -/
structure Follows (start : Lookout) (rounds : List Round) : Prop where
  /-- Each poll tells what has changed since the last one. -/
  reports : ∀ before round later, rounds = before ++ round :: later →
    ∃ events, (start.run before).Reports round events
  /-- The sessions are remembered in the order of the engine. -/
  keys_eq : rounds ≠ [] →
    (start.run rounds).monitor.sessions.keys = (start.run rounds).engine.addresses
  /-- If everything has been delivered, it amounts to the states of all sessions at the last
  poll. -/
  states_eq : rounds ≠ [] → start.IsHeard rounds →
    ∀ a, (Event.replay [] (start.run rounds).delivered).get? a =
      ((start.run rounds).engine.sessionAt? a).map Session.state

variable {w : Lookout} {round : Round} {rounds before later : List Round} {events : List Event}

/-- Rounds are run one after the other. -/
theorem run_append (w : Lookout) (before later : List Round) :
    w.run (before ++ later) = (w.run before).run later :=
  List.foldl_append

/-- Later rounds are readable if all are. -/
theorem IsReadable.of_append (h : w.IsReadable (before ++ later)) :
    (w.run before).IsReadable later := by
  induction before generalizing w with
  | nil => exact h
  | cons round before ih => exact ih h.2

/-- The engine of the lookout is one that is reached, and its monitor remembers a proper snapshot.
-/
structure IsProper (w : Lookout) : Prop where
  reachable : w.engine.Reachable
  sessions : w.monitor.sessions.IsProper

section Snapshots

variable {e : Engine} {l : List Registration} {starts : List Start}

/-- The sessions of an engine are read at distinct addresses. -/
private theorem areDistinctTexts_readAt (h : e.Holds l starts) (now : Float) :
    AreDistinctTexts ((l.map fun r => r.session.readAt now).map Session.address) := by
  have haddresses : (l.map fun r => r.session.readAt now).map Session.address =
      l.map fun r => .text r.address := by
    rw [List.map_map]
    exact List.map_congr_left h.session_address
  rw [haddresses]
  refine ⟨fun a ha => ?_, h.nodup_keys⟩
  obtain ⟨r, _, rfl⟩ := List.mem_map.mp ha
  exact ⟨r.address, rfl⟩

/-- The snapshot of an engine has the session of each registration at its address. -/
private theorem ofSessions_readAt (h : e.Holds l starts) (now : Float) :
    Snapshot.ofSessions (l.map fun r => r.session.readAt now) =
      column l fun r => r.session.readAt now := by
  rw [Snapshot.ofSessions_eq (areDistinctTexts_readAt h now), List.map_map]
  refine List.map_congr_left fun r hr => ?_
  exact Prod.ext (h.session_address r hr) rfl

/-- The snapshot of an engine is proper. -/
private theorem isProper_readAt (he : e.Reachable) (h : e.Holds l starts) (now : Float) :
    Snapshot.IsProper (column l fun r => r.session.readAt now) := by
  constructor
  case keys =>
    rw [← ofSessions_readAt h, Snapshot.keys_ofSessions (areDistinctTexts_readAt h now)]
    exact areDistinctTexts_readAt h now
  case states =>
    rw [values_column]
    intro s hs
    obtain ⟨r, hr, rfl⟩ := List.mem_map.mp hs
    obtain ⟨state, hstate, _⟩ := (he.tellsCourse l starts h r hr).states
    exact ⟨state, hstate⟩

/-- After a poll that has read the sessions, they are remembered. -/
theorem sessions_next (h : (w.found round).Holds l starts) {current : List Session}
    (hread : ((w.found round).getAllSessions round.now).2 = .ok current) :
    (w.next round).monitor.sessions = column l fun r => r.session.readAt round.now := by
  have hmonitor : (w.polled round).monitor = ⟨Snapshot.ofSessions current⟩ :=
    (Monitor.poll_of_ok hread).1
  rw [← ofSessions_readAt h, ← h.eq_of_getAllSessions hread]
  exact congrArg Monitor.sessions hmonitor

end Snapshots

/-- After a poll that has read the sessions, a proper snapshot is remembered. -/
theorem isProper_next_of_ok (he : w.engine.Reachable) {current : List Session}
    (hread : ((w.found round).getAllSessions round.now).2 = .ok current) :
    (w.next round).IsProper := by
  have hreachable : (w.found round).Reachable := he.run round.moments
  obtain ⟨l, starts, h⟩ := hreachable.exists_holds
  refine ⟨hreachable, ?_⟩
  rw [sessions_next h hread]
  exact isProper_readAt hreachable h round.now

/-- Whether or not the sessions can be read, the monitor goes on to remember a proper snapshot. -/
theorem IsProper.next (hw : w.IsProper) (round : Round) : (w.next round).IsProper := by
  cases hread : ((w.found round).getAllSessions round.now).2 with
  | error f =>
    have hkept : (w.polled round).monitor = w.monitor := (Monitor.poll_of_error hread).1
    refine ⟨hw.reachable.run round.moments, ?_⟩
    change (w.polled round).monitor.sessions.IsProper
    rw [hkept]
    exact hw.sessions
  | ok current => exact isProper_next_of_ok hw.reachable hread

/-- After some rounds the snapshot of the monitor is a proper one. -/
theorem IsProper.run (hw : w.IsProper) (rounds : List Round) : (w.run rounds).IsProper := by
  induction rounds generalizing w with
  | nil => exact hw
  | cons round rounds ih => exact ih (hw.next round)

/-- A monitor that has not polled yet remembers nothing. -/
theorem isProper_mk {e : Engine} (he : e.Reachable) : ({ engine := e } : Lookout).IsProper :=
  ⟨he, ⟨⟨by simp [Table.keys], by simp [Table.keys]⟩, by simp [Table.values]⟩⟩

/-- The changes found by a poll are exactly what is to be told between the snapshots. -/
private theorem IsProper.mem_between_iff (hw : w.IsProper) {current : List Session}
    (hread : ((w.found round).getAllSessions round.now).2 = .ok current) (event : Event) :
    event ∈ Event.between w.monitor.sessions current ↔
      event.Tells w.monitor.sessions (w.next round).monitor.sessions := by
  obtain ⟨l, starts, h⟩ := (hw.next round).reachable.exists_holds
  rw [sessions_next h hread, ← ofSessions_readAt h, h.eq_of_getAllSessions hread]
  exact Event.mem_between_iff hw.sessions.keys (areDistinctTexts_readAt h round.now)

/-- The changes found by a poll can be put into words. -/
theorem IsProper.areDescribed (hw : w.IsProper) {current : List Session}
    (hread : ((w.found round).getAllSessions round.now).2 = .ok current) :
    Monitor.AreDescribed (Event.between w.monitor.sessions current) := by
  intro event hevent
  have htells := (hw.mem_between_iff hread event).mp hevent
  exact htells.exists_describe hw.sessions (hw.next round).sessions

/-- A poll that can read all sessions tells what has changed. -/
theorem IsProper.exists_reports (hw : w.IsProper)
    (hread : (w.found round).IsReadable round.now) : ∃ events, w.Reports round events := by
  obtain ⟨l, starts, h⟩ := (hw.next round).reachable.exists_holds
  have hall := h.getAllSessions_eq hread
  have hsessions := sessions_next h hall
  refine ⟨Event.between w.monitor.sessions (l.map fun r => r.session.readAt round.now), ?_⟩
  constructor
  case values_eq =>
    rw [hsessions, values_column]
    exact hall
  case keys_eq =>
    rw [hsessions, keys_column]
    exact h.addresses_eq.symm
  case events_eq => rw [hsessions, values_column]
  case mem_iff => exact hw.mem_between_iff hall
  case nodup =>
    exact Event.nodup_between hw.sessions.keys (areDistinctTexts_readAt h round.now)
  case hears =>
    obtain ⟨outcome, hhears, hresult⟩ := (Monitor.poll_of_ok hall).2 (hw.areDescribed hall)
    exact ⟨_, outcome, hhears, hresult, rfl⟩

/-- After a poll that has told what has changed, the states remembered are those of the engine. -/
theorem Reports.state_eq (h : w.Reports round events) (hw : w.IsProper) (a : Value) :
    ((w.next round).monitor.sessions.get? a).map Session.state =
      ((w.next round).engine.sessionAt? a).map Session.state := by
  obtain ⟨l, starts, hholds⟩ := (hw.next round).reachable.exists_holds
  rw [sessions_next hholds h.values_eq, get?_column, hholds.sessionAt?_eq, Option.map_map,
    Option.map_map]
  rfl

/-- If there is a callback and it does not let the poll fail, all events are delivered. -/
theorem Reports.delivered_eq (h : w.Reports round events)
    (hcallback : round.callback.isSome = true)
    (hresult : ∀ message, (w.polled round).result ≠ .error (.callback message)) :
    (w.next round).delivered = w.delivered ++ events := by
  obtain ⟨heard, outcome, hhears, houtcome, hdelivered⟩ := h.hears
  obtain ⟨reply, hreply⟩ := Option.isSome_iff_exists.mp hcallback
  rw [hreply] at hhears
  have hheard : heard = events := by
    refine hhears.eq_of_heard fun message hfails => hresult message ?_
    rw [houtcome, hfails]
    rfl
  rw [hdelivered, hheard]

/-- Who has heard of everything so far, and hears of everything in a round, stays up to date. -/
private theorem Reports.replay_eq (h : w.Reports round events) (hw : w.IsProper)
    (hcallback : round.callback.isSome = true)
    (hresult : ∀ message, (w.polled round).result ≠ .error (.callback message))
    (hstates : ∀ a, (Event.replay [] w.delivered).get? a =
      (w.monitor.sessions.get? a).map Session.state) (a : Value) :
    (Event.replay [] (w.next round).delivered).get? a =
      ((w.next round).monitor.sessions.get? a).map Session.state := by
  rw [h.delivered_eq hcallback hresult, Event.replay_append]
  exact Event.get?_replay hw.sessions (hw.next round).sessions h.mem_iff h.nodup hstates a

/-- Who has heard of everything so far, and hears of everything in several rounds, stays up to
date. -/
private theorem IsProper.replay_eq (hw : w.IsProper) (hread : w.IsReadable rounds)
    (hheard : w.IsHeard rounds) (hstates : ∀ a, (Event.replay [] w.delivered).get? a =
      (w.monitor.sessions.get? a).map Session.state) (a : Value) :
    (Event.replay [] (w.run rounds).delivered).get? a =
      ((w.run rounds).monitor.sessions.get? a).map Session.state := by
  induction rounds generalizing w with
  | nil => exact hstates a
  | cons round rounds ih =>
    obtain ⟨hnow, hlater⟩ := hread
    obtain ⟨hcallback, hresult, hheard⟩ := hheard
    obtain ⟨events, hreports⟩ := hw.exists_reports hnow
    exact ih (hw.next round) hlater hheard (hreports.replay_eq hw hcallback hresult hstates)

end Lookout

/-- A monitor follows an engine that is reached, whatever happens between its polls and whatever
its callback does, as long as all sessions can be read at its polls. -/
theorem Engine.Reachable.monitor_follows {e : Engine} (he : e.Reachable) {rounds : List Round}
    (hread : ({ engine := e } : Lookout).IsReadable rounds) :
    ({ engine := e } : Lookout).Follows rounds := by
  have hstart := Lookout.isProper_mk he
  have hreports : ∀ before round later, rounds = before ++ round :: later →
      ∃ events, (({ engine := e } : Lookout).run before).Reports round events := by
    rintro before round later rfl
    exact (hstart.run before).exists_reports hread.of_append.1
  constructor
  case reports => exact hreports
  case keys_eq =>
    intro hne
    obtain ⟨before, last, rfl⟩ := (List.eq_nil_or_concat rounds).resolve_left hne
    obtain ⟨events, hlast⟩ := hreports before last [] (by simp)
    rw [List.concat_eq_append, Lookout.run_append]
    exact hlast.keys_eq
  case states_eq =>
    intro hne hheard a
    rw [hstart.replay_eq hread hheard (fun _ => rfl) a]
    obtain ⟨before, last, rfl⟩ := (List.eq_nil_or_concat rounds).resolve_left hne
    obtain ⟨events, hlast⟩ := hreports before last [] (by simp)
    rw [List.concat_eq_append, Lookout.run_append]
    exact hlast.state_eq (hstart.run before) a

/-- Three polls of a new engine. Before the second poll one session moves on by two states, and the
other peer is removed and added again. Before the third one both sessions change, and the callback
fails at the first event. -/
def sampleRounds : List Round := [
  ⟨[⟨.call (.addPeer (.record Engine.samplePeer)), 0.0⟩,
    ⟨.call (.addPeer (.record Engine.otherPeer)), 0.0⟩], 0.0, some fun _ => .returned⟩,
  ⟨[⟨.turn 0 {} true, 0.0⟩, ⟨.turn 0 {} true, 2.0⟩, ⟨.turn 0 {} true, 4.0⟩,
    ⟨.call (.removePeer Engine.otherPeer.address), 4.0⟩,
    ⟨.call (.addPeer (.record Engine.otherPeer)), 4.0⟩], 5.0, some fun _ => .suspended 1.0⟩,
  ⟨[⟨.turn 0 {} true, 6.0⟩, ⟨.call (.removePeer Engine.otherPeer.address), 7.0⟩], 8.0,
    some fun _ => .raised "no"⟩]

/-- Three events are heard in the first two polls and one of two in the third. -/
theorem monitor_follows_sampleRounds :
    ({} : Engine).Reachable ∧ ({ engine := {} } : Lookout).IsReadable sampleRounds ∧
      ({ engine := {} } : Lookout).Follows sampleRounds ∧
      ({ engine := {} } : Lookout).IsHeard (sampleRounds.take 2) ∧
      (({ engine := {} } : Lookout).run sampleRounds).delivered.map Event.kind =
        [.added, .added, .changed, .changed] ∧
      (({ engine := {} } : Lookout).run sampleRounds).monitor.sessions.length = 1 := by
  have hreachable : ({} : Engine).Reachable := Engine.IsNew.reachable ⟨rfl, rfl, rfl, rfl⟩
  have hread : ({ engine := {} } : Lookout).IsReadable sampleRounds :=
    ⟨by decide +kernel, by decide +kernel, by decide +kernel, trivial⟩
  have hheard {w : Lookout} {round : Round} (hok : (w.polled round).result.toOption.isSome = true)
      (message : String) : (w.polled round).result ≠ .error (.callback message) := by
    intro hfails
    rw [hfails] at hok
    cases hok
  exact ⟨hreachable, hread, hreachable.monitor_follows hread,
    ⟨rfl, hheard (by decide +kernel), rfl, hheard (by decide +kernel), trivial⟩,
    by decide +kernel, by decide +kernel⟩

end Peering
