import Peering.Proofs.Monitoring
import Peering.Proofs.Sessions
import Peering.Proofs.Walks
import Peering.Schedule.Stepped

/-!
# Footprints

Every operation has its footprint, and leaves alone all that is outside of it. An update replaces
the record of one peer in its place. An error that is noted, messages that are counted and a step of
a walk replace one session in its place, each in its own fields. Reads, polls and the clock change
nothing. So what is shown of the peers stays the same for as long as none is added, updated or
removed.
-/

namespace Peering

open Registration

/-- From one table to the other, the value at a key is replaced, in its place. -/
def Table.Replaces {α : Type} (t t' : Table α) (key : Value) (x x' : α) : Prop :=
  t.get? key = some x ∧
    ∃ before rest, t = before ++ (key, x) :: rest ∧ t' = before ++ (key, x') :: rest

/-- Where a registration is changed, one entry of each column is replaced. -/
theorem Registration.replaces_column {α : Type} {l : List Registration} {v : Value}
    {r : Registration} (hr : at? l v = some r) (hl : (l.map Registration.address).Nodup)
    {g : Registration → Registration} (haddress : ∀ r, (g r).address = r.address)
    (f : Registration → α) :
    (column l f).Replaces (column (adjust l v g) f) v (f r) (f (g r)) := by
  obtain ⟨_, rfl⟩ := mem_of_at? hr
  refine ⟨by rw [get?_column, hr, Option.map_some], ?_⟩
  obtain ⟨before, rest, rfl, hbefore, hrest⟩ := exists_split hr hl
  have hkeep (l : List Registration)
      (hl : ∀ s ∈ l, matchesAt (.text r.address) s = false) : adjust l (.text r.address) g = l := by
    refine (List.map_congr_left fun s hs => ?_).trans (List.map_id l)
    rw [hl s hs, if_neg Bool.false_ne_true]
    rfl
  have hadjust : adjust (before ++ r :: rest) (.text r.address) g = before ++ g r :: rest := by
    rw [adjust, List.map_append, List.map_cons, if_pos (matchesAt_iff.mpr rfl)]
    exact congrArg₂ (fun l l' => l ++ g r :: l') (hkeep before hbefore) (hkeep rest hrest)
  refine ⟨column before f, column rest f, ?_, ?_⟩
  · simp only [column, List.map_append, List.map_cons]
  · simp only [hadjust, column, List.map_append, List.map_cons, haddress]

section Columns

variable (l : List Registration) (v : Value)

/-- With a peer of a list changed, one table is another. -/
private theorem ofList_configured (p : Peer) :
    Registry.ofList (adjust l v fun r => { r with peer := p }) =
      { Registry.ofList l with
        peerOf := column (adjust l v fun r => { r with peer := p }) Registration.peer } := by
  simp only [Registry.ofList, Registry.mk.injEq, true_and]
  constructor <;> apply column_adjust <;> intro r <;> rfl

/-- With a session of a list changed, one table is another. -/
private theorem ofList_recorded (s : Session) :
    Registry.ofList (adjust l v fun r => { r with session := s }) =
      { Registry.ofList l with
        sessionOf := column (adjust l v fun r => { r with session := s })
          Registration.session } := by
  simp only [Registry.ofList, Registry.mk.injEq, true_and]
  constructor <;> apply column_adjust <;> intro r <;> rfl

end Columns

namespace Session

/-- What a step of its walk makes of a session. -/
inductive Moved (s : Session) (now : Float) : Session → Prop where
  /-- There is no state to enter. -/
  | stayed : Moved s now s
  /-- A state on the way is entered. -/
  | entered {state : State} (hnext : s.next? = .ok (some state))
    (hstate : state ≠ .established) :
    Moved s now { s with
      state := .state state
      changedAt := s.entryTime now
      history := s.history ++ [(.state state, s.entryTime now)] }
  /-- The last state is entered, and with it the traffic is counted. -/
  | established {prefixesReceived prefixesSent messagesReceived messagesSent : Value}
    (hnext : s.next? = .ok (some .established)) :
    Moved s now { s with
      state := .state .established
      changedAt := s.entryTime now
      history := s.history ++ [(.state .established, s.entryTime now)]
      prefixesReceived, prefixesSent, messagesReceived, messagesSent }

/-- Counting changes the two message counters only. -/
theorem exists_count_eq (s : Session) (received sent : Value) :
    ∃ messagesReceived messagesSent,
      (s.count received sent).1 = { s with messagesReceived, messagesSent } := by
  unfold count
  split
  · exact ⟨s.messagesReceived, s.messagesSent, rfl⟩
  · rename_i messagesReceived _
    simp only
    split
    · exact ⟨messagesReceived, s.messagesSent, rfl⟩
    · rename_i messagesSent _
      exact ⟨messagesReceived, messagesSent, rfl⟩

/-- A step moves a session. -/
theorem moved_advance (s : Session) (now : Float) : s.Moved now (s.advance now).1 := by
  unfold advance
  split
  · exact .stayed
  · exact .stayed
  · rename_i state hnext
    split
    · rename_i hstate
      subst hstate
      obtain ⟨received, sent, hcount⟩ := (s.enter .established now).exists_count_eq
        (.int establishedMessagesReceived) (.int establishedMessagesSent)
      simp only [hcount]
      exact .established hnext
    · rename_i hstate
      simp only [enter, if_neg hstate]
      exact .entered hnext hstate

end Session

namespace Engine

/-- From one engine to the other the record of one peer is replaced, and nothing else changes. -/
def ReplacesPeer (e e' : Engine) (a : Value) (p p' : Peer) : Prop :=
  ∃ peerOf, e.registry.peerOf.Replaces peerOf a p p' ∧
    e' = { e with registry := { e.registry with peerOf } }

/-- From one engine to the other one session is replaced, and nothing else changes. -/
def ReplacesSession (e e' : Engine) (a : Value) (s s' : Session) : Prop :=
  ∃ sessionOf, e.registry.sessionOf.Replaces sessionOf a s s' ∧
    e' = { e with registry := { e.registry with sessionOf } }

/-- What happens at the moment fails, and changes nothing but what the fault switch has counted. -/
def Fails (e : Engine) (m : Moment) : Prop :=
  (∃ f, (e.meet m).result = .error f) ∧
    ∃ injected, e.after m = { e with faults.injected := injected }

/-- In no moment of a run is a peer added, updated or removed. -/
def KeepsPeers (e : Engine) : List Moment → Prop
  | [] => True
  | m :: ms =>
    (∀ a, ¬e.Adds m a ∧ ¬e.Updates m a ∧ ¬e.Removes m a) ∧ (e.after m).KeepsPeers ms

/-- What an operation may change of an engine. -/
structure Footprints (e : Engine) : Prop where
  /-- An update replaces the record of a peer, and keeps its address and its time of creation. -/
  update : ∀ m a, e.Updates m a → ∃ p p', e.ReplacesPeer (e.after m) a p p' ∧
    p'.address = p.address ∧ p'.createdAt = p.createdAt
  /-- An error is noted in a session, or the request fails and changes nothing. -/
  error : ∀ m a message, m.move = .call (.setSessionError a message) →
    e.Fails m ∨ ∃ s, e.ReplacesSession (e.after m) a s { s with lastError := message }
  /-- Messages are counted in a session, or the request fails and changes nothing. -/
  counters : ∀ m a received sent, m.move = .call (.incrementCounters a received sent) →
    e.Fails m ∨ ∃ s messagesReceived messagesSent,
      e.ReplacesSession (e.after m) a s { s with messagesReceived, messagesSent }
  /-- A turn changes its walk, and at most it moves the session of the registration that the walk
  serves. -/
  turn : ∀ m i o heeding, m.move = .turn i o heeding →
    e.after m = e ∨ ∃ w w', e.walk? i = some w ∧ w'.Continues w ∧
      (e.after m = { e with walks := e.walks.set i w' } ∨
        e.IsLive w.address w.generation ∧ ∃ s s', s.Moved m.now s' ∧
          ReplacesSession { e with walks := e.walks.set i w' } (e.after m) w.address s s')
  /-- What only reads changes nothing. -/
  read : ∀ m c, m.move = .call c → c.isRequest = false → (∀ enabled, c ≠ .setFaults enabled) →
    e.after m = e
  /-- The fault switch is turned, and nothing else changes. -/
  switch : ∀ m enabled, m.move = .call (.setFaults enabled) →
    ∃ faults, e.after m = { e with faults }
  /-- A poll changes nothing. -/
  poll : ∀ s : Stepped, s.engine = e → s.poll.1.engine = e
  /-- Nor does the clock. -/
  tick : ∀ (s : Stepped) seconds, s.engine = e → (s.tick seconds).engine = e
  /-- The running configuration stays the same for as long as no peer is added, updated or removed.
  -/
  run : ∀ ms, e.KeepsPeers ms → (e.run ms).runningConfig = e.runningConfig
  /-- It does so where a monitor polls the engine too. -/
  watched : ∀ (w : Lookout) rounds, w.engine = e → e.KeepsPeers (rounds.flatMap Round.moments) →
    (w.run rounds).engine.runningConfig = e.runningConfig

variable {e : Engine} {l : List Registration} {starts : List Start} {m : Moment} {v : Value}
  {r : Registration}

/-- A request that the fault switch refuses fails. -/
private theorem fails_of_faulty {c : Call} {operation request : String} {address : Value}
    {body : Engine → Outcome Unit} (hmove : m.move = .call c)
    (hperform : c.perform e m.now =
      Call.changing (e.unlessFaulty operation request address body))
    (hon : e.faults.isOn = true) : e.Fails m := by
  obtain ⟨hengine, hresult⟩ := unlessFaulty_of_on hon operation request address body
  constructor
  · rw [meet_call hmove, hperform, Call.changing, hresult]
    exact ⟨_, rfl⟩
  · rw [after_call hmove, hperform]
    exact ⟨_, hengine⟩

/-- A request that gives a failure as its answer fails. -/
private theorem fails_of_fail {c : Call} {request : String} {address : Value} {f : Failure}
    (hmove : m.move = .call c)
    (hperform : c.perform e m.now = Call.changing (e.fail request address f)) : e.Fails m := by
  constructor
  · rw [meet_call hmove, hperform, Call.changing, result_fail]
    exact ⟨_, rfl⟩
  · rw [after_call hmove, hperform]
    exact ⟨_, engine_fail request address f⟩

/-- No request changes the AS number of the router. -/
private theorem Edited.routerAsn_eq {e' : Engine} {now : Float} {edit : Edit}
    (h : e.Edited l v now edit e') : e'.routerAsn = e.routerAsn := by
  cases h with
  | keep _ hsettings => exact hsettings.routerAsn_eq
  | enroll | drop | configure | record => rfl

/-- An update that is settled to be done has a peer. -/
private theorem exists_peer_of_plan {input : PeerInput} {faulty : Bool}
    {found : Option Registration} {now : Float}
    (hok : ((Call.updatePeer input).plan faulty found now).2 = .ok ()) :
    ∃ p, input.peer = .ok p := by
  cases hp : input.peer with
  | ok p => exact ⟨p, rfl⟩
  | error f =>
    unfold Call.plan at hok
    split at hok
    · cases hok
    · simp only [Call.planned, Call.planUpdate, hp] at hok
      cases hok

namespace Holds

/-- Where the peer of a registration is changed, one record is replaced. -/
private theorem replacesPeer (h : e.Holds l starts) (hr : at? l v = some r) (p : Peer) :
    e.ReplacesPeer (e.withList (adjust l v fun s => { s with peer := p })) v r.peer p := by
  refine ⟨column (adjust l v fun s => { s with peer := p }) Registration.peer, ?_, ?_⟩
  · rw [h.registry_eq]
    exact replaces_column (g := fun s => { s with peer := p }) hr h.nodup_addresses
      (fun _ => rfl) Registration.peer
  · rw [withList, h.registry_eq, ofList_configured]

/-- Where the session of a registration is changed, one session is replaced. -/
private theorem replacesSession (h : e.Holds l starts) (hr : at? l v = some r) (s : Session) :
    e.ReplacesSession (e.withList (adjust l v fun r => { r with session := s })) v r.session s := by
  refine ⟨column (adjust l v fun r => { r with session := s }) Registration.session, ?_, ?_⟩
  · rw [h.registry_eq]
    exact replaces_column (g := fun r => { r with session := s }) hr h.nodup_addresses
      (fun _ => rfl) Registration.session
  · rw [withList, h.registry_eq, ofList_recorded]

/-- A peer that is updated was registered, and its record is replaced by what the update makes of
it. -/
theorem exists_of_updates (h : e.Holds l starts) (hupdates : e.Updates m v) :
    ∃ r p, at? l v = some r ∧ p.address = v ∧
      e.after m = e.withList (adjust l v fun s =>
        { s with peer := Registry.updated r.peer p m.now }) := by
  obtain ⟨input, p, hmove, hp, rfl, hresult⟩ := hupdates
  rw [PeerInput.address_of_peer hp]
  obtain ⟨out, hout, hedited, hout'⟩ :=
    perform_follows h.registry_eq (c := .updatePeer input) rfl rfl m.now
  rw [meet_call hmove, hout, Call.changing, hout'] at hresult
  rw [after_call hmove, hout]
  change ∃ r q, _ ∧ _ ∧ out.engine = _
  generalize out.engine = e' at hedited
  unfold Call.plan at hresult hedited
  split at hresult
  · cases hresult
  rename_i hoff
  rw [if_neg hoff] at hedited
  simp only [Call.planned, Call.planUpdate, hp] at hresult hedited
  split at hresult
  · cases hresult
  rename_i r hr
  split at hresult
  · cases hresult
  rename_i a hvalid
  split at hresult
  · rename_i hcopy
    simp only [hr, hvalid, if_pos hcopy] at hedited
    cases hedited
    exact ⟨r, p, hr, PeerInput.address_of_peer hp, rfl⟩
  · cases hresult

/-- Noting an error replaces one session, or changes nothing. -/
private theorem error (h : e.Holds l starts) {message : Value}
    (hmove : m.move = .call (.setSessionError v message)) :
    e.Fails m ∨ ∃ s, e.ReplacesSession (e.after m) v s { s with lastError := message } := by
  have hperform : (Call.setSessionError v message).perform e m.now =
      Call.changing (e.setSessionError v message) := rfl
  rcases e.faults.isOn.eq_false_or_eq_true with hon | hoff
  · exact .inl (fails_of_faulty hmove hperform hon)
  cases hr : at? l v with
  | none =>
    rw [setSessionError_of_missing h.registry_eq hoff hr] at hperform
    exact .inl (fails_of_fail hmove hperform)
  | some r =>
    rw [after_call hmove, hperform]
    refine .inr ⟨r.session, ?_⟩
    rw [Call.changing, (setSessionError_of_registered h.registry_eq hoff hr message).1]
    exact h.replacesSession hr _

/-- Messages are counted in the session of a registration, or the request fails and changes nothing.
-/
theorem counts (h : e.Holds l starts) {received sent : Value}
    (hmove : m.move = .call (.incrementCounters v received sent)) :
    e.Fails m ∨ ∃ r, at? l v = some r ∧
      e.ReplacesSession (e.after m) v r.session (r.session.count received sent).1 ∧
      (e.meet m).result = (r.session.count received sent).2.map fun _ => .done := by
  have hperform : (Call.incrementCounters v received sent).perform e m.now =
      Call.changing (e.incrementCounters v received sent) := rfl
  rcases e.faults.isOn.eq_false_or_eq_true with hon | hoff
  · exact .inl (fails_of_faulty hmove hperform hon)
  rcases hnegative : anyNegative received sent with f | _ | _
  · rw [incrementCounters_of_error hoff hnegative] at hperform
    exact .inl (fails_of_fail hmove hperform)
  · cases hr : at? l v with
    | none =>
      rw [incrementCounters_of_missing h.registry_eq hoff hnegative hr] at hperform
      exact .inl (fails_of_fail hmove hperform)
    | some r =>
      obtain ⟨hengine, hresult⟩ :=
        incrementCounters_of_registered h.registry_eq hoff hnegative hr
      rw [after_call hmove, meet_call hmove, hperform, Call.changing, hengine, hresult]
      exact .inr ⟨r, rfl, h.replacesSession hr _, rfl⟩
  · rw [incrementCounters_of_negative hoff hnegative] at hperform
    exact .inl (fails_of_fail (f := .refused _) hmove hperform)

/-- A turn of a walk moves at most the session of the registration that the walk serves. -/
private theorem turn (h : e.Holds l starts) {i : Nat} {o : Observers} {heeding : Bool}
    (hmove : m.move = .turn i o heeding) :
    e.after m = e ∨ ∃ w w', e.walk? i = some w ∧ w'.Continues w ∧
      (e.after m = { e with walks := e.walks.set i w' } ∨
        e.IsLive w.address w.generation ∧ ∃ s s', s.Moved m.now s' ∧
          ReplacesSession { e with walks := e.walks.set i w' } (e.after m) w.address s s') := by
  rw [after_turn hmove]
  cases hw : e.walk? i with
  | none =>
    rw [turnOf_of_none hw]
    exact .inl rfl
  | some w =>
    have hmem : w ∈ e.walks := List.mem_of_getElem? hw
    refine .inr ⟨w, _, rfl, w.turnWith_continues heeding e.registry m.now o, ?_⟩
    rw [turnOf_of_some hw, h.registry_turn hmem heeding m.now o]
    cases hs : w.writes? heeding e.registry m.now with
    | none => exact .inl (by rw [rewritten, ← h.registry_eq])
    | some s =>
      obtain ⟨r, hr, hserves, rfl⟩ := h.registration_of_writes hmem hs
      obtain ⟨sessionOf, hreplaces, hrest⟩ := h.replacesSession hr (r.session.advance m.now).1
      have hregistry := congrArg (fun e : Engine => e.registry) hrest
      refine .inr ⟨h.isLive_iff.mpr ⟨r, hr, congrArg Prod.snd hserves⟩, r.session, _,
        r.session.moved_advance m.now, sessionOf, hreplaces, ?_⟩
      rw [rewritten, show Registry.ofList _ = _ from hregistry]

/-- A moment in which no peer is added, updated or removed keeps the records of all peers. -/
private theorem peerOf_after (h : e.Holds l starts)
    (hkeeps : ∀ a, ¬e.Adds m a ∧ ¬e.Updates m a ∧ ¬e.Removes m a) :
    (e.after m).registry.peerOf = e.registry.peerOf ∧ (e.after m).routerAsn = e.routerAsn := by
  cases hmove : m.move with
  | call c =>
    rw [after_call hmove]
    cases hrequest : c.isRequest with
    | true =>
      obtain ⟨v, hv⟩ := Call.exists_target hrequest
      obtain ⟨out, hout, hedited, hresult⟩ :=
        perform_follows h.registry_eq hrequest hv m.now
      have hdone (hok : out.result = .ok ()) : (e.meet m).result = .ok .done :=
        result_of_done hmove hout hok
      have hpeer (input : PeerInput) (hc : c = .updatePeer input) (hok : out.result = .ok ()) :
          ∃ p, input.peer = .ok p := by
        subst hc
        exact exists_peer_of_plan (hresult ▸ hok)
      have hsettles := Call.settles hrequest e.faults.isOn (at? l v) m.now
      generalize c.plan e.faults.isOn (at? l v) m.now = plan at hedited hresult hsettles
      rw [hout]
      refine ⟨?_, hedited.routerAsn_eq⟩
      have hregistry := hedited.registry_eq h.registry_eq
      change out.engine.registry.peerOf = _
      rw [hregistry, h.registry_eq]
      cases hsettles with
      | fails => rfl
      | @enroll input p a hp =>
        exact absurd ⟨input, p, hmove, hp, rfl, hdone hresult⟩ (hkeeps p.address).1
      | drop u => exact absurd ⟨hmove, hdone hresult⟩ (hkeeps u).2.2
      | configure input =>
        obtain ⟨q, hq⟩ := hpeer input rfl hresult
        exact absurd ⟨input, q, hmove, hq, rfl, hdone hresult⟩ (hkeeps q.address).2.1
      | remark | count => rw [Edit.apply, ofList_recorded]
    | false =>
      cases c with
      | addPeer | updatePeer | removePeer | setSessionError | incrementCounters => cases hrequest
      | setFaults enabled => cases enabled <;> exact ⟨rfl, rfl⟩
      | session | sessions | peer | peers | counts | runningConfig | statistics | walk | faults
      | describe => exact ⟨rfl, rfl⟩
  | turn i o heeding =>
    rcases h.turn hmove with hafter | ⟨w, w', _, _, hafter | ⟨_, s, s', _, sessionOf, _, hafter⟩⟩
    all_goals
      rw [hafter]
      exact ⟨rfl, rfl⟩
  | close =>
    rw [after_close hmove]
    exact ⟨congrArg Registry.peerOf (Roster.cancelAll_eq _ _).1, rfl⟩

end Holds

/-- A run in which no peer is added, updated or removed keeps what is shown of all peers. -/
theorem Reachable.runningConfig_run (he : e.Reachable) {ms : List Moment}
    (hkeeps : e.KeepsPeers ms) : (e.run ms).runningConfig = e.runningConfig := by
  induction ms generalizing e with
  | nil => rfl
  | cons m ms ih =>
    obtain ⟨hm, hms⟩ := hkeeps
    obtain ⟨l, starts, h⟩ := he.exists_holds
    obtain ⟨hpeers, hasn⟩ := h.peerOf_after hm
    have hshown : (e.after m).runningConfig = e.runningConfig := by
      simp only [runningConfig, getAllPeers, Registry.peers, report, source, hpeers, hasn]
    exact (ih (he.run [m]) hms).trans hshown

/-- With a monitor that polls it, the engine runs as without one. -/
private theorem engine_run (w : Lookout) (rounds : List Round) :
    (w.run rounds).engine = w.engine.run (rounds.flatMap Round.moments) := by
  induction rounds generalizing w with
  | nil => rfl
  | cons round rounds ih =>
    rw [List.flatMap_cons, run_append]
    exact ih (w.next round)

/-- In every engine that is reached the operations have their footprints. -/
theorem Reachable.has_footprints (he : e.Reachable) : e.Footprints := by
  obtain ⟨l, starts, h⟩ := he.exists_holds
  constructor
  case update =>
    intro m a hupdates
    obtain ⟨r, p, hr, rfl, hafter⟩ := h.exists_of_updates hupdates
    obtain ⟨hmem, haddress⟩ := mem_of_at? hr
    refine ⟨r.peer, Registry.updated r.peer p m.now, hafter ▸ h.replacesPeer hr _, ?_, rfl⟩
    exact haddress.trans (h.peer_address r hmem).symm
  case error => exact fun m a message => h.error
  case counters =>
    intro m a received sent hmove
    rcases h.counts hmove with hfails | ⟨r, _, hreplaces, _⟩
    · exact .inl hfails
    · obtain ⟨messagesReceived, messagesSent, hcount⟩ := r.session.exists_count_eq received sent
      exact .inr ⟨r.session, messagesReceived, messagesSent, hcount ▸ hreplaces⟩
  case turn => exact fun m i o heeding => h.turn
  case read =>
    intro m c hmove hc hread
    rw [after_call hmove]
    cases c with
    | addPeer | updatePeer | removePeer | setSessionError | incrementCounters => cases hc
    | setFaults enabled => exact absurd rfl (hread enabled)
    | session | sessions | peer | peers | counts | runningConfig | statistics | walk | faults
    | describe => rfl
  case switch =>
    intro m enabled hmove
    rw [after_call hmove]
    cases enabled <;> exact ⟨_, rfl⟩
  case poll =>
    rintro s rfl
    rfl
  case tick =>
    rintro s seconds rfl
    rfl
  case run => exact fun ms => he.runningConfig_run
  case watched =>
    rintro w rounds rfl hkeeps
    rw [engine_run]
    exact he.runningConfig_run hkeeps

/-- On the updated peer, a step of its walk, messages that are counted, and an update of an address
that is not registered. -/
def busyMoments : List Moment := [
  ⟨.turn 0 {} true, 4.0⟩,
  ⟨.call (.incrementCounters sampleAddress (.int 3) (.int 1)), 5.0⟩,
  ⟨.call (.updatePeer (.record otherPeer)), 6.0⟩]

/-- The session has moved on and its messages are counted, and the running configuration is the
same. -/
theorem has_footprints_connected :
    connected.Reachable ∧ connected.Footprints ∧ connected.KeepsPeers busyMoments ∧
      (∃ s, (connected.run busyMoments).sessionAt? sampleAddress = some s ∧
        s.state = .state .active ∧ s.messagesReceived = .int 3) ∧
      (connected.run busyMoments).runningConfig = connected.runningConfig := by
  have hreachable : connected.Reachable := ⟨{}, _, ⟨rfl, rfl, rfl, rfl⟩, rfl⟩
  have hfootprints := hreachable.has_footprints
  have hkeeps : connected.KeepsPeers busyMoments := by
    refine ⟨fun a => ⟨?_, ?_, ?_⟩, fun a => ⟨?_, ?_, ?_⟩, fun a => ⟨?_, ?refused, ?_⟩, trivial⟩
    case refused =>
      rintro ⟨_, _, _, _, _, hresult⟩
      cases hresult
    all_goals first
      | rintro ⟨_, _, hmove, _⟩
        cases hmove
      | rintro ⟨hmove, _⟩
        cases hmove
  exact ⟨hreachable, hfootprints, hkeeps, ⟨_, rfl, rfl, rfl⟩, hfootprints.run _ hkeeps⟩

end Engine

end Peering
