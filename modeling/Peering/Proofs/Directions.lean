import Peering.Proofs.Monitoring

/-!
# The direction of changes

A monitor compares two snapshots by address and knows nothing of registrations. Still the changes of
state that it tells go forward: between two polls a session that stays registered only moves on, and
its history has both states. A change that goes back tells that the peer was removed and added again
in the meantime.
-/

namespace Peering

open Registration

/-- Of two states, one that is not behind is another one exactly if it is ahead. -/
private theorem State.same_eq_false_iff {s t : State} (hle : s.number ≤ t.number) :
    (StateCode.state s).same (.state t) = false ↔ s.number < t.number := by
  have hnumber : s = t ↔ s.number = t.number := by
    refine ⟨congrArg State.number, fun heq => ?_⟩
    have hsome := s.ofNumber?_number
    rw [heq, t.ofNumber?_number] at hsome
    exact (Option.some.inj hsome).symm
  rw [← Bool.not_eq_true, StateCode.state_same_state, hnumber]
  omega

namespace Engine

/-- In the run, the address is removed successfully. -/
def RemovedIn (e : Engine) (ms : List Moment) (a : Value) : Prop :=
  ∃ before m later, ms = before ++ m :: later ∧ (e.run before).Removes m a

/-- In the run, the address is removed successfully, and later it is added again. -/
def ReaddedIn (e : Engine) (ms : List Moment) (a : Value) : Prop :=
  ∃ before m between n later, ms = before ++ m :: (between ++ n :: later) ∧
    (e.run before).Removes m a ∧ (e.run (before ++ m :: between)).Adds n a

variable {e : Engine} {l l' : List Registration} {starts starts' : List Start} {ms : List Moment}
  {a : Value} {r r' : Registration}

/-- A registration is there after a run in which its address is not removed. -/
private theorem Holds.removedIn_or_goes_on (h : e.Holds l starts) (hr : at? l a = some r)
    (h' : (e.run ms).Holds l' starts') :
    e.RemovedIn ms a ∨ ∃ r', at? l' a = some r' ∧ r'.generation = r.generation := by
  induction ms generalizing e l starts r with
  | nil =>
    obtain rfl : l = l' := h.eq_of_registry h'.registry_eq
    exact .inr ⟨r, hr, rfl⟩
  | cons m ms ih =>
    obtain ⟨between, _, hstep, _, hbetween⟩ := h.exists_after m
    rcases hstep.removes_or_carries hr with ⟨hremoves, _⟩ | ⟨s, hs, hcarries⟩
    · exact .inl ⟨[], m, ms, rfl, hremoves⟩
    · rcases ih hbetween hs h' with ⟨before, n, later, rfl, hremoves⟩ | ⟨r', hr', hsame⟩
      · exact .inl ⟨m :: before, n, later, rfl, hremoves⟩
      · exact .inr ⟨r', hr', hsame.trans hcarries.generation_eq⟩

/-- An address that has come to be registered in a run was added in it. -/
private theorem Holds.exists_adds (h : e.Holds l starts) (hnone : at? l a = none)
    (h' : (e.run ms).Holds l' starts') (hr' : at? l' a = some r') :
    ∃ before n later, ms = before ++ n :: later ∧ (e.run before).Adds n a := by
  induction ms generalizing e l starts with
  | nil =>
    obtain rfl : l = l' := h.eq_of_registry h'.registry_eq
    rw [hnone] at hr'
    cases hr'
  | cons m ms ih =>
    obtain ⟨between, _, hstep, _, hbetween⟩ := h.exists_after m
    cases hs : at? between a with
    | some s =>
      rcases hstep.carries_or_initial hs with ⟨r, hr, _⟩ | ⟨hadds, _⟩
      · rw [hnone] at hr
        cases hr
      · exact ⟨[], m, ms, rfl, hadds⟩
    | none =>
      obtain ⟨before, n, later, rfl, hadds⟩ := ih hbetween hs h'
      exact ⟨m :: before, n, later, rfl, hadds⟩

/-- An address that is registered after a run in which it was removed was added again. -/
private theorem RemovedIn.readdedIn (he : e.Reachable) (hremoved : e.RemovedIn ms a)
    (h' : (e.run ms).Holds l' starts') (hr' : at? l' a = some r') : e.ReaddedIn ms a := by
  obtain ⟨before, m, rest, rfl, hremoves⟩ := hremoved
  obtain ⟨l, starts, h⟩ := (he.run before).exists_holds
  obtain ⟨gone, _, hstep, _, hgone⟩ := h.exists_after m
  have hsplit : before ++ m :: rest = (before ++ [m]) ++ rest := by simp
  rw [hsplit, run_append, run_concat] at h'
  obtain ⟨between, n, later, rfl, hadds⟩ :=
    hgone.exists_adds (hstep.at?_of_removes hremoves) h' hr'
  refine ⟨before, m, between, n, later, rfl, hremoves, ?_⟩
  have hmiddle : before ++ m :: between = (before ++ [m]) ++ between := by simp
  rw [hmiddle, run_append, run_concat]
  exact hadds

/-- Over a run in which its address is not removed, a session moves on or stays where it is, and its
history has both states. -/
private theorem Holds.goes_forward (he : e.Reachable) (h : e.Holds l starts)
    (hr : at? l a = some r) (h' : (e.run ms).Holds l' starts') (hr' : at? l' a = some r')
    (hkept : ¬e.RemovedIn ms a) :
    ∃ state state', r.session.state = .state state ∧ r'.session.state = .state state' ∧
      state.number ≤ state'.number ∧ .state state ∈ r'.session.history.map Prod.fst ∧
      .state state' ∈ r'.session.history.map Prod.fst := by
  obtain ⟨t, ht, hsame⟩ := (h.removedIn_or_goes_on hr h').resolve_left hkept
  obtain rfl : t = r' := Option.some.inj (ht.symm.trans hr')
  have hcourse := he.tellsCourse l starts h r (mem_of_at? hr).1
  have hcourse' := (he.run ms).tellsCourse l' starts' h' t (mem_of_at? hr').1
  have hgrows := h.history_grows hr h' hr' hsame
  obtain ⟨state, state', hstate, hstate', hle, _⟩ := hcourse.between hcourse' hgrows
  have hmem := hgrows.subset (List.mem_of_getLast? hcourse.last)
  have hmem' := List.mem_of_getLast? hcourse'.last
  refine ⟨state, state', hstate, hstate', hle, ?_, ?_⟩
  · rw [← hstate]
    exact List.mem_map_of_mem hmem
  · rw [← hstate']
    exact List.mem_map_of_mem hmem'

/-- An address whose session is behind where it was has been removed and added again. -/
private theorem Holds.readdedIn_of_behind (he : e.Reachable) (h : e.Holds l starts)
    (hr : at? l a = some r) (h' : (e.run ms).Holds l' starts') (hr' : at? l' a = some r')
    (hbehind : r'.session.state.number < r.session.state.number) : e.ReaddedIn ms a := by
  by_contra hnever
  have hkept : ¬e.RemovedIn ms a := fun hremoved => hnever (hremoved.readdedIn he h' hr')
  obtain ⟨state, state', hstate, hstate', hle, _⟩ := h.goes_forward he hr h' hr' hkept
  rw [hstate, hstate'] at hbehind
  simp only [StateCode.number] at hbehind
  omega

section Told

variable {now now' : Float} {event : Event}

/-- What is told of an address that is not removed between two polls: a change exactly if its
session has moved on, which leads to a later state in its history. -/
private theorem Holds.tells_forward (he : e.Reachable) (h : e.Holds l starts)
    (hr : at? l a = some r) (h' : (e.run ms).Holds l' starts') (hr' : at? l' a = some r')
    (hkept : ¬e.RemovedIn ms a) :
    ∃ state state', r.session.state = .state state ∧ r'.session.state = .state state' ∧
      .state state ∈ r'.session.history.map Prod.fst ∧
      .state state' ∈ r'.session.history.map Prod.fst ∧
      ∀ event, Event.Tells (column l fun r => r.session.readAt now)
          (column l' fun r => r.session.readAt now') event ∧ event.address = a ↔
        state.number < state'.number ∧ event = ⟨.changed, a, some (.state state),
          some (.state state'), some (r'.session.readAt now')⟩ := by
  obtain ⟨state, state', hstate, hstate', hle, hmem, hmem'⟩ :=
    h.goes_forward he hr h' hr' hkept
  refine ⟨state, state', hstate, hstate', hmem, hmem', fun event => ?_⟩
  have hfound : (column l fun r => r.session.readAt now).get? a =
      some (r.session.readAt now) := by rw [get?_column, hr, Option.map_some]
  have hfound' : (column l' fun r => r.session.readAt now').get? a =
      some (r'.session.readAt now') := by rw [get?_column, hr', Option.map_some]
  have hread : (r.session.readAt now).state = .state state := hstate
  have hread' : (r'.session.readAt now').state = .state state' := hstate'
  rw [Event.tells_iff_of_found hfound hfound', hread, hread', State.same_eq_false_iff hle]

/-- A change that goes back is told only of an address that was removed and added again. -/
private theorem Holds.readdedIn_of_tells (he : e.Reachable) (h : e.Holds l starts)
    (h' : (e.run ms).Holds l' starts')
    (htells : Event.Tells (column l fun r => r.session.readAt now)
      (column l' fun r => r.session.readAt now') event) (hkind : event.kind = .changed)
    {old new : StateCode} (hold : event.old = some old) (hnew : event.new = some new)
    (hback : new.number < old.number) : e.ReaddedIn ms event.address := by
  cases htells with
  | added | removed => cases hkind
  | changed hfound hfound' =>
    rw [get?_column] at hfound hfound'
    obtain ⟨r, hr, rfl⟩ := Option.map_eq_some_iff.mp hfound
    obtain ⟨r', hr', rfl⟩ := Option.map_eq_some_iff.mp hfound'
    obtain rfl := Option.some.inj hold
    obtain rfl := Option.some.inj hnew
    exact h.readdedIn_of_behind he hr h' hr' hback

end Told

end Engine

namespace Lookout

/-- The events of a poll follow what has happened to the registrations since the last one. -/
structure TellsDirections (w : Lookout) (round : Round) (events : List Event) : Prop where
  /-- The poll tells these events. -/
  reports : w.Reports round events
  /-- Of an address that is there at both polls and has not been removed in between, a change is
  told exactly if the session has moved on. It leads from the state before to a later one, both of
  which the session has entered. -/
  forward : ∀ a s s', w.engine.sessionAt? a = some s → (w.found round).sessionAt? a = some s' →
    ¬w.engine.RemovedIn round.moments a →
    ∃ state state', s.state = .state state ∧ s'.state = .state state' ∧
      ((∃ event ∈ events, event.address = a) ↔ state.number < state'.number) ∧
      ∀ event ∈ events, event.address = a →
        event = ⟨.changed, a, some (.state state), some (.state state'),
          some (s'.readAt round.now)⟩ ∧
        state.number < state'.number ∧ .state state ∈ s'.history.map Prod.fst ∧
        .state state' ∈ s'.history.map Prod.fst
  /-- If a change goes back, the peer has been removed and added again in between. -/
  back : ∀ event ∈ events, event.kind = .changed → ∀ old new, event.old = some old →
    event.new = some new → new.number < old.number →
    w.engine.ReaddedIn round.moments event.address

end Lookout

/-- Of any two successive polls of an engine that is reached, the second tells changes that go
forward, unless the peer has been removed and added again in between. -/
theorem Engine.Reachable.changes_go_forward {w : Lookout} (he : w.engine.Reachable)
    {first second : Round} (hread : w.IsReadable [first, second]) :
    ∃ events, (w.next first).TellsDirections second events := by
  have hreachable : (w.next first).engine.Reachable := he.run first.moments
  obtain ⟨l, starts, h⟩ := hreachable.exists_holds
  obtain ⟨l', starts', h'⟩ := (hreachable.run second.moments).exists_holds
  obtain ⟨hfirst, hsecond, _⟩ := hread
  have hw := Lookout.isProper_next_of_ok he (h.getAllSessions_eq hfirst)
  have hbefore := Lookout.sessions_next h (h.getAllSessions_eq hfirst)
  have hafter := Lookout.sessions_next h' (h'.getAllSessions_eq hsecond)
  obtain ⟨events, hreports⟩ := hw.exists_reports hsecond
  have htold (event : Event) : event ∈ events ↔
      event.Tells (column l fun r => r.session.readAt first.now)
        (column l' fun r => r.session.readAt second.now) := by
    rw [hreports.mem_iff, hbefore, hafter]
  refine ⟨events, hreports, fun a s s' hs hs' hkept => ?_,
    fun event hevent hkind old new hold hnew hback =>
      h.readdedIn_of_tells hreachable h' ((htold event).mp hevent) hkind hold hnew hback⟩
  obtain ⟨r, hr, rfl⟩ := Option.map_eq_some_iff.mp ((h.sessionAt?_eq a).symm.trans hs)
  obtain ⟨r', hr', rfl⟩ := Option.map_eq_some_iff.mp ((h'.sessionAt?_eq a).symm.trans hs')
  obtain ⟨state, state', hstate, hstate', hmem, hmem', hforward⟩ :=
    h.tells_forward hreachable hr h' hr' hkept
  refine ⟨state, state', hstate, hstate', ⟨?_, fun hlt => ?_⟩, fun event hevent haddress => ?_⟩
  · rintro ⟨event, hevent, haddress⟩
    exact ((hforward event).mp ⟨(htold event).mp hevent, haddress⟩).1
  · obtain ⟨htells, haddress⟩ := (hforward _).mpr ⟨hlt, rfl⟩
    exact ⟨_, (htold _).mpr htells, haddress⟩
  · obtain ⟨hlt, heq⟩ := (hforward event).mp ⟨(htold event).mp hevent, haddress⟩
    exact ⟨heq, hlt, hmem, hmem'⟩

/-- A poll that finds two sessions which have entered their second state. -/
def earlierRound : Round where
  moments := [
    ⟨.call (.addPeer (.record Engine.samplePeer)), 0.0⟩,
    ⟨.call (.addPeer (.record Engine.otherPeer)), 0.0⟩,
    ⟨.turn 0 {} true, 0.0⟩,
    ⟨.turn 1 {} true, 0.0⟩,
    ⟨.turn 0 {} true, 2.0⟩,
    ⟨.turn 1 {} true, 2.0⟩]
  now := 3.0
  callback := none

/-- The next poll, before which the first session moves on and the second peer is removed and added
again. -/
def laterRound : Round where
  moments := [
    ⟨.turn 0 {} true, 4.0⟩,
    ⟨.call (.removePeer Engine.otherPeer.address), 5.0⟩,
    ⟨.call (.addPeer (.record Engine.otherPeer)), 5.0⟩]
  now := 6.0
  callback := some fun _ => .returned

/-- One change goes forward and one goes back. -/
theorem changes_go_forward_laterRound :
    ({} : Engine).Reachable ∧ ({ engine := {} } : Lookout).IsReadable [earlierRound, laterRound] ∧
      ∃ events, (({ engine := {} } : Lookout).next earlierRound).TellsDirections laterRound events ∧
        events.map (fun event => (event.old, event.new)) =
          [(some (.state .connect), some (.state .active)),
            (some (.state .connect), some (.state .idle))] := by
  have hreachable : ({} : Engine).Reachable := Engine.IsNew.reachable ⟨rfl, rfl, rfl, rfl⟩
  have hread : ({ engine := {} } : Lookout).IsReadable [earlierRound, laterRound] :=
    ⟨by decide +kernel, by decide +kernel, trivial⟩
  obtain ⟨events, htells⟩ := Engine.Reachable.changes_go_forward
    (w := ({ engine := {} } : Lookout)) hreachable hread
  have hok : ((({ engine := {} } : Lookout).next earlierRound).polled
      laterRound).result.toOption.isSome = true := by decide +kernel
  have hdelivered := htells.reports.delivered_eq rfl fun message hfails => by
    rw [hfails] at hok
    cases hok
  have hchanges : ((({ engine := {} } : Lookout).next earlierRound).next
      laterRound).delivered.map (fun event => (event.old, event.new)) =
        [(some (.state .connect), some (.state .active)),
          (some (.state .connect), some (.state .idle))] := by decide +kernel
  have hsilent : (({ engine := {} } : Lookout).next earlierRound).delivered = [] := by rfl
  rw [hdelivered, hsilent, List.nil_append] at hchanges
  exact ⟨hreachable, hread, events, htells, hchanges⟩

end Peering
