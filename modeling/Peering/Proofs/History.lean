import Peering.Proofs.Answers
import Peering.Proofs.Course
import Peering.Proofs.Succession

/-!
# The histories of sessions in a run

At every moment of a run the session of a registered peer has a history that tells its course
since the peer was registered. As long as the registration lasts, this history only grows, by one
entry at a time. So whoever reads the session from time to time never sees it go back.
-/

namespace Peering

open Registration

/-- The history of a session is the record of a peer's course: it lists the first states in order,
it ends with the present state, and it begins when the peer was registered. -/
structure Session.Records (s : Session) (p : Peer) : Prop where
  /-- The states entered are the first ones in their order. -/
  states : ∃ visited, visited ≠ [] ∧ visited <+: State.all ∧
    s.history.map Prod.fst = visited.map StateCode.state
  /-- The last entry is the present state, with the time at which it was entered. -/
  last : s.history.getLast? = some (s.state, s.changedAt)
  /-- The first entry is the idle state, with the time at which the peer was registered. -/
  first : ∃ t, s.history.head? = some (.state .idle, t) ∧ p.createdAt = .float t

/-- What tells the course of a session since the registration of a peer is a record of it. -/
theorem Session.OnCourse.records {s : Session} {p : Peer} (h : s.OnCourse p.createdAt) :
    s.Records p where
  states := by
    obtain ⟨state, _, hvisited⟩ := h.states
    exact ⟨State.upTo state, state.upTo_ne_nil, state.upTo_prefix_all, hvisited⟩
  last := h.last
  first := h.first

namespace Session

/-- The seconds since the session was established, none if it is not or if they cannot be told. -/
def uptimeAt (s : Session) (now : Float) : Int :=
  if s.isEstablished then max 0 ((secondsBetween s.changedAt now).toOption.getD 0) else 0

/-- The session as it is read at a moment. -/
def readAt (now : Float) (s : Session) : Session := { s with uptime := .int (s.uptimeAt now) }

/-- What is read of a session is what there is to be read. -/
theorem eq_readAt_of_snapshot {s read : Session} {now : Float} (h : s.snapshot now = .ok read) :
    read = s.readAt now := by
  unfold snapshot at h
  unfold readAt uptimeAt
  split at h
  · rename_i hestablished
    split at h
    · rename_i seconds hseconds
      obtain rfl := Except.ok.inj h
      simp only [if_pos hestablished, hseconds, Except.toOption, Option.getD_some]
    · cases h
  · rename_i hestablished
    obtain rfl := Except.ok.inj h
    simp only [if_neg hestablished]

/-- Reading a session changes nothing but its uptime. -/
theorem sameCourse_readAt (now : Float) (s : Session) : (s.readAt now).SameCourse s :=
  ⟨rfl, rfl, rfl, rfl⟩

end Session

namespace Engine

/-- A caller who reads the session at an address, or all sessions, sees this one there. -/
def Shows (e : Engine) (address : Value) (read : Session) : Prop :=
  ∃ now, (e.meet ⟨.call (.session address), now⟩).result = .ok (.session read) ∨
    ∃ all, (e.meet ⟨.call .sessions, now⟩).result = .ok (.sessions all) ∧ read ∈ all ∧
      read.address = address

variable {e : Engine} {l l' : List Registration} {starts : List Start} {m : Moment}

/-- The sessions are those of the registrations. -/
theorem Holds.sessions_eq (h : e.Holds l starts) :
    e.registry.sessions = l.map Registration.session := by
  rw [h.registry_eq]
  exact values_column l Registration.session

/-- What is read of all sessions is what there is to be read of each. -/
theorem Holds.eq_of_getAllSessions (h : e.Holds l starts) {now : Float} {current : List Session}
    (hread : (e.getAllSessions now).2 = .ok current) :
    current = l.map fun r => r.session.readAt now := by
  have hsnapshots : e.registry.snapshotSessions now = .ok current := by
    unfold getAllSessions at hread
    split at hread
    · cases hread
    · rename_i sessions hsessions
      rw [hsessions, ← hread]
  have hmap := eq_map_of_mapM (fun s read => s.eq_readAt_of_snapshot) hsnapshots
  rw [hmap, h.sessions_eq, List.map_map]
  rfl

/-- What is seen of a registration is its session. -/
private theorem Holds.sameCourse_of_shows (h : e.Holds l starts) {a : Value} {r : Registration}
    (hr : at? l a = some r) {read : Session} (hshows : e.Shows a read) :
    read.SameCourse r.session := by
  obtain ⟨now, hread | ⟨all, hall, hmem, haddress⟩⟩ := hshows
  · simp only [meet, Call.perform, Call.reading, getSession, h.registry_eq,
      Registry.getSession_of_some hr] at hread
    cases hsnapshot : r.session.snapshot now with
    | error f => simp [hsnapshot, Except.map] at hread
    | ok seen =>
      obtain rfl : seen = read := by simpa [hsnapshot, Except.map] using hread
      rw [Session.eq_readAt_of_snapshot hsnapshot]
      exact r.session.sameCourse_readAt now
  · cases hsessions : (e.getAllSessions now).2 with
    | error f => simp [meet, Call.perform, Call.reading, hsessions, Except.map] at hall
    | ok seen =>
      obtain rfl : seen = all := by
        simpa [meet, Call.perform, Call.reading, hsessions, Except.map] using hall
      rw [h.eq_of_getAllSessions hsessions] at hmem
      obtain ⟨r', hr', rfl⟩ := List.mem_map.mp hmem
      have hsame := r'.session.sameCourse_readAt now
      have hread : (r'.session.readAt now).address = .text r'.address :=
        hsame.address_eq.trans (h.session_address r' hr')
      have hr'' := h.at?_of_mem hr'
      rw [← hread, haddress, hr] at hr''
      obtain rfl := Option.some.inj hr''
      exact hsame

/-- The histories of the engine record what has happened and grow from here on. -/
structure Chronicles (e : Engine) : Prop where
  /-- Each registered peer has a session whose history records its course. -/
  records : ∀ a p, e.registry.peerOf.get? a = some p → ∃ s, e.sessionAt? a = some s ∧ s.Records p
  /-- A moment leaves the history of a registration that goes on alone or adds one entry. -/
  step_grows : ∀ m a g s s', e.IsLive a g → (e.after m).IsLive a g → e.sessionAt? a = some s →
    (e.after m).sessionAt? a = some s' →
    s'.history = s.history ∨ ∃ entry, s'.history = s.history ++ [entry]
  /-- Within one registration the earlier history is a prefix of the later one. -/
  run_grows : ∀ ms a g s s', e.IsLive a g → (e.run ms).IsLive a g → e.sessionAt? a = some s →
    (e.run ms).sessionAt? a = some s' → s.history <+: s'.history
  /-- Of two states read within one registration the later one does not come before the other,
  and the history shows that all states in between have been entered in order. -/
  reads_grow : ∀ ms a g read read', e.IsLive a g → (e.run ms).IsLive a g → e.Shows a read →
    (e.run ms).Shows a read' →
    ∃ state state', read.state = .state state ∧ read'.state = .state state' ∧
      state.number ≤ state'.number ∧
      ∃ entered, read'.history = read.history ++ entered ∧
        entered.map Prod.fst = ((State.upTo state').drop (state.number + 1)).map StateCode.state
  /-- An established session stays so until its peer is removed. -/
  established_stays : ∀ m a g s, e.IsLive a g → e.sessionAt? a = some s →
    s.isEstablished = true → e.Removes m a ∨ ((e.after m).IsLive a g ∧
      ∃ s', (e.after m).sessionAt? a = some s' ∧ s'.isEstablished = true)

/-- A registration that goes on has the same history or one more entry. -/
private theorem Carries.history {r r' : Registration} (hc : e.Carries m r r') :
    r'.session.history = r.session.history ∨
      ∃ entry, r'.session.history = r.session.history ++ [entry] := by
  rcases hc.course with hsame | ⟨_, hadvance⟩
  · exact Or.inl hsame.history_eq
  · rw [hadvance]
    exact r.session.history_advance m.now

/-- A moment only adds to the history of a session. -/
theorem Carries.history_grows {r r' : Registration} (hc : e.Carries m r r') :
    r.session.history <+: r'.session.history := by
  rcases hc.history with hsame | ⟨entry, hadded⟩
  · exact hsame.symm ▸ List.prefix_rfl
  · rw [hadded]
    exact List.prefix_append _ _

/-- The history of each registration tells its course since it was made. -/
theorem Reachable.onCourse (he : e.Reachable) : ∃ l starts, e.Holds l starts ∧
    ∀ a r, at? l a = some r → r.session.OnCourse r.peer.createdAt := by
  refine he.forall_registered (fun a p g now => ?_) fun e m r r' hc h => ?_
  · exact Session.onCourse_initial (.text a) now
  · rw [hc.createdAt_eq]
    rcases hc.course with hsame | ⟨_, hadvance⟩
    · exact h.of_sameCourse hsame
    · rw [hadvance]
      exact h.advance m.now

/-- The registration that is live at two moments has a growing history. -/
theorem Holds.history_grows (h : e.Holds l starts) {a : Value} {r : Registration}
    (hr : at? l a = some r) {ms : List Moment} {last : List Registration} {made : List Start}
    (h' : (e.run ms).Holds last made) {r' : Registration} (hr' : at? last a = some r')
    (hsame : r'.generation = r.generation) : r.session.history <+: r'.session.history :=
  h.of_run (R := fun r r' => r.session.history <+: r'.session.history)
    (fun _ => List.prefix_rfl) (fun hrs hst => hrs.trans hst) (fun _ _ _ _ hc => hc.history_grows)
    hr h' hr' hsame

/-- In every engine that is reached, and from there on, the history of each session is the record
of its course: it starts when the peer is registered, it only grows, by one entry at a time, and an
established session is left only by removing its peer. -/
theorem Reachable.histories_grow (he : e.Reachable) : e.Chronicles := by
  obtain ⟨l, starts, h, hcourse⟩ := he.onCourse
  constructor
  case records =>
    intro a p hp
    rw [h.registry_eq] at hp
    have hcolumn := (get?_column l Registration.peer a).symm.trans hp
    obtain ⟨r, hr, rfl⟩ := Option.map_eq_some_iff.mp hcolumn
    refine ⟨r.session, ?_, (hcourse a r hr).records⟩
    rw [h.sessionAt?_eq, hr]
    rfl
  case step_grows =>
    intro m a g s s' hlive hlive' hs hs'
    obtain ⟨r, r', rfl, rfl, _, _, hc⟩ := h.carries_of_isLive hlive hlive' hs hs'
    exact hc.history
  case run_grows =>
    intro ms a g s s' hlive hlive' hs hs'
    obtain ⟨l', starts', h'⟩ := (he.run ms).exists_holds
    obtain ⟨r, hr, rfl, rfl⟩ := h.registration_of_isLive hlive hs
    obtain ⟨r', hr', hsame, rfl⟩ := h'.registration_of_isLive hlive' hs'
    exact h.history_grows hr h' hr' (Value.int.inj hsame)
  case reads_grow =>
    intro ms a g read read' hlive hlive' hread hread'
    obtain ⟨l', starts', h', hcourse'⟩ := (he.run ms).onCourse
    obtain ⟨r, hr, rfl⟩ := h.isLive_iff.mp hlive
    obtain ⟨r', hr', hsame⟩ := h'.isLive_iff.mp hlive'
    have hseen := h.sameCourse_of_shows hr hread
    have hseen' := h'.sameCourse_of_shows hr' hread'
    have hgrows := h.history_grows hr h' hr' (Value.int.inj hsame)
    rw [hseen.state_eq, hseen.history_eq, hseen'.state_eq, hseen'.history_eq]
    exact (hcourse a r hr).between (hcourse' a r' hr') hgrows
  case established_stays =>
    intro m a g s hlive hs hestablished
    obtain ⟨l', starts', hstep, _, h'⟩ := h.exists_after m
    obtain ⟨r, hr, rfl, rfl⟩ := h.registration_of_isLive hlive hs
    rcases hstep.removes_or_carries hr with ⟨hremoves, _⟩ | ⟨r', hr', hc⟩
    · exact Or.inl hremoves
    · right
      refine ⟨h'.isLive_iff.mpr ⟨r', hr', ?_⟩, r'.session, ?_, ?_⟩
      · exact congrArg Value.int hc.generation_eq
      · rw [h'.sessionAt?_eq, hr']
        rfl
      · rcases hc.course with hsame | ⟨_, hadvance⟩
        · rw [Session.isEstablished, hsame.state_eq]
          exact hestablished
        · rw [hadvance, (hcourse a r hr).advance_established hestablished]
          exact hestablished

/-- An engine on which a peer has been added, its walk has moved the session, and the peer has been
updated. -/
def connected : Engine :=
  ({} : Engine).run [
    ⟨.call (.addPeer (.record samplePeer)), 0.0⟩,
    ⟨.turn 0 {} true, 0.0⟩,
    ⟨.turn 0 {} true, 2.0⟩,
    ⟨.call (.updatePeer (.record { samplePeer with multihop := .int 2 })), 3.0⟩]

/-- The session of the updated peer has two entries, and they record its course. -/
theorem histories_grow_connected :
    connected.Reachable ∧ ∃ p s, connected.registry.peerOf.get? sampleAddress = some p ∧
      p.multihop = .int 2 ∧ connected.sessionAt? sampleAddress = some s ∧
      s.history.map Prod.fst = [.state .idle, .state .connect] ∧ s.Records p := by
  have hreachable : connected.Reachable := ⟨{}, _, ⟨rfl, rfl, rfl, rfl⟩, rfl⟩
  obtain ⟨s, hs, hrecords⟩ := hreachable.histories_grow.records sampleAddress _ rfl
  obtain rfl := Option.some.inj hs
  exact ⟨hreachable, _, _, rfl, rfl, rfl, rfl, hrecords⟩

end Engine

end Peering
