import Peering.Proofs.Requests

/-!
# What can happen at a moment

Of all that a moment can be, only a few kinds change anything in the tables or the walks. This
file lists them once, each with all that it changes. Whatever holds throughout a run is then
shown by going through that list.
-/

namespace Peering

open Registration

/-- The effect is one that requests have: a report, or the start or the cancellation of a
walk. -/
def Effect.isOfRequest : Effect → Bool
  | .report _ | .started _ | .cancelled _ => true
  | _ => false

/-- No observer of state changes is called by requests. -/
theorem changesIn_of_isOfRequest {effects : List Effect}
    (h : effects.all Effect.isOfRequest = true) : changesIn effects = [] := by
  simp only [changesIn, List.filterMap_eq_nil_iff]
  intro effect hmem
  have heffect := List.all_eq_true.mp h effect hmem
  cases effect <;> first | rfl | cases heffect

/-- The call is one of the five requests that change something. -/
def Call.isRequest : Call → Bool
  | .addPeer _ | .updatePeer _ | .removePeer _ | .setSessionError _ _
  | .incrementCounters _ _ _ => true
  | _ => false

/-- Setting an element of a list to itself changes nothing. -/
theorem set_of_getElem? {α : Type} {l : List α} {i : Nat} {x : α} (h : l[i]? = some x) :
    l.set i x = l := by
  obtain ⟨hi, rfl⟩ := List.getElem?_eq_some_iff.mp h
  exact List.set_getElem_self hi

/-- The walk without a request for its cancellation. -/
def Walk.unstopped (w : Walk) : Walk := { w with stopping := false }

/-- The session where its course is concerned: its address, and where it has been when. -/
structure Session.SameCourse (s' s : Session) : Prop where
  address_eq : s'.address = s.address
  state_eq : s'.state = s.state
  changedAt_eq : s'.changedAt = s.changedAt
  history_eq : s'.history = s.history

/-- Counting messages keeps the course of a session. -/
theorem Session.sameCourse_count (s : Session) (received sent : Value) :
    (s.count received sent).1.SameCourse s := by
  simp only [count]
  split
  · exact ⟨rfl, rfl, rfl, rfl⟩
  · split <;> exact ⟨rfl, rfl, rfl, rfl⟩

namespace Roster

/-- A request for a cancellation changes nothing but the walk's note of it. -/
theorem cancel_eq (r : Roster) (i : Nat) :
    (r.cancel i).1.registry = r.registry ∧
      (r.cancel i).1.walks.map Walk.unstopped = r.walks.map Walk.unstopped ∧
      (r.cancel i).2.all Effect.isOfRequest = true := by
  unfold cancel
  split
  · rename_i w hw
    split
    · refine ⟨rfl, ?_, rfl⟩
      have hsame : (r.walks.map Walk.unstopped)[i]? =
          some (Walk.unstopped { w with stopping := true }) := by
        rw [List.getElem?_map, show r.walks[i]? = some w from hw]
        rfl
      simp only [setWalk, List.map_set, set_of_getElem? hsame]
    · exact ⟨rfl, rfl, rfl⟩
  · exact ⟨rfl, rfl, rfl⟩

/-- Requests for cancellation change no table and no walk but for the requests. -/
theorem cancelAll_eq (r : Roster) (numbers : List Nat) :
    (r.cancelAll numbers).1.registry = r.registry ∧
      (r.cancelAll numbers).1.walks.map Walk.unstopped = r.walks.map Walk.unstopped ∧
      (r.cancelAll numbers).2.all Effect.isOfRequest = true := by
  induction numbers generalizing r with
  | nil => exact ⟨rfl, rfl, rfl⟩
  | cons i rest ih =>
    obtain ⟨hregistry, hwalks, heffects⟩ := r.cancel_eq i
    obtain ⟨hregistry', hwalks', heffects'⟩ := ih (r.cancel i).1
    refine ⟨hregistry'.trans hregistry, hwalks'.trans hwalks, ?_⟩
    simp only [cancelAll, List.all_append, heffects, Bool.true_and]
    exact heffects'

end Roster

namespace Engine

variable {e : Engine} {l : List Registration}

section Effects

/-- A request that fails only reports. -/
theorem isOfRequest_fail (request : String) (address : Value) (f : Failure) :
    (e.fail request address f).effects.all Effect.isOfRequest = true := by
  cases f <;> rfl

/-- Whether the fault switch lets it through or not, a request only does what requests do. -/
theorem isOfRequest_unlessFaulty (operation request : String) (address : Value)
    {body : Engine → Outcome Unit}
    (hbody : ∀ e, (body e).effects.all Effect.isOfRequest = true) :
    (e.unlessFaulty operation request address body).effects.all Effect.isOfRequest = true := by
  unfold unlessFaulty
  split
  · rfl
  · exact hbody _

/-- Registering a peer only does what requests do. -/
theorem isOfRequest_register (shown : Value) (p : Peer) (now : Float) :
    (e.register shown p now).effects.all Effect.isOfRequest = true := by
  simp only [register]
  cases e.registry.insert p (.int e.nextGeneration) now with
  | error f => exact isOfRequest_fail _ _ _
  | ok registry => rfl

/-- Adding a peer only does what requests do. -/
theorem isOfRequest_addPeer (input : PeerInput) (now : Float) :
    (e.addPeer input now).effects.all Effect.isOfRequest = true := by
  apply isOfRequest_unlessFaulty
  intro e
  split
  · exact isOfRequest_fail _ _ _
  · split
    · exact isOfRequest_fail _ _ _
    · exact isOfRequest_register _ _ _

/-- Updating a peer only does what requests do. -/
theorem isOfRequest_updatePeer (input : PeerInput) (now : Float) :
    (e.updatePeer input now).effects.all Effect.isOfRequest = true := by
  apply isOfRequest_unlessFaulty
  intro e
  split
  · exact isOfRequest_fail _ _ _
  · unfold replace
    split
    · exact isOfRequest_fail _ _ _
    · split
      · exact isOfRequest_fail _ _ _
      · split
        · exact isOfRequest_fail _ _ _
        · rfl

/-- Removing a peer only does what requests do. -/
theorem isOfRequest_removePeer (address : Value) :
    (e.removePeer address).effects.all Effect.isOfRequest = true := by
  apply isOfRequest_unlessFaulty
  intro e
  split
  · exact isOfRequest_fail _ _ _
  · rename_i registry _
    obtain ⟨_, _, heffects⟩ :=
      Roster.cancelAll_eq ⟨registry, e.walks⟩ (e.walkNumber? address).toList
    simpa [done, Effect.isOfRequest, report] using heffects

/-- Noting an error only does what requests do. -/
theorem isOfRequest_setSessionError (address message : Value) :
    (e.setSessionError address message).effects.all Effect.isOfRequest = true := by
  apply isOfRequest_unlessFaulty
  intro e
  split
  · exact isOfRequest_fail _ _ _
  · rfl

/-- Counting messages only does what requests do. -/
theorem isOfRequest_incrementCounters (address received sent : Value) :
    (e.incrementCounters address received sent).effects.all Effect.isOfRequest = true := by
  apply isOfRequest_unlessFaulty
  intro e
  split
  · exact isOfRequest_fail _ _ _
  · rfl
  · split
    · exact isOfRequest_fail _ _ _
    · rfl

/-- Reading a session only does what requests do. -/
theorem isOfRequest_getSession (address : Value) (now : Float) :
    (e.getSession address now).1.all Effect.isOfRequest = true := by
  unfold getSession
  split
  · rfl
  · split <;> rfl

/-- Reading all sessions only does what requests do. -/
theorem isOfRequest_getAllSessions (now : Float) :
    (e.getAllSessions now).1.all Effect.isOfRequest = true := by
  unfold getAllSessions
  split <;> rfl

/-- No call calls an observer of walks or asks for a delay. -/
theorem isOfRequest_perform (c : Call) (now : Float) :
    (c.perform e now).effects.all Effect.isOfRequest = true := by
  cases c with
  | addPeer input => exact isOfRequest_addPeer input now
  | updatePeer input => exact isOfRequest_updatePeer input now
  | removePeer address => exact isOfRequest_removePeer address
  | setSessionError address message => exact isOfRequest_setSessionError address message
  | incrementCounters address received sent =>
    exact isOfRequest_incrementCounters address received sent
  | setFaults enabled => cases enabled <;> rfl
  | session address => exact isOfRequest_getSession address now
  | sessions => exact isOfRequest_getAllSessions now
  | peer | peers | counts | runningConfig | statistics | walk | faults | describe => rfl

end Effects

/-- A moment other than a turn of a walk calls no observer of walks and asks for no delay. -/
theorem isOfRequest_meet_of_not_turn {m : Moment}
    (hm : ∀ i o heeding, m.move ≠ .turn i o heeding) :
    (e.meet m).effects.all Effect.isOfRequest = true := by
  unfold meet
  split
  · exact isOfRequest_perform _ _
  · rename_i i o heeding hmove
    exact absurd hmove (hm i o heeding)
  · exact (Roster.cancelAll_eq e.toRoster e.walkOf.values).2.2

/-- Only turns of walks tell observers of changes. -/
theorem changesIn_meet_of_not_turn {m : Moment} (hm : ∀ i o heeding, m.move ≠ .turn i o heeding) :
    changesIn (e.meet m).effects = [] :=
  changesIn_of_isOfRequest (isOfRequest_meet_of_not_turn hm)

/-- A request that should have changed something at this moment has failed, if there was one. -/
def RequestFails (e : Engine) (m : Moment) : Prop :=
  ∀ c, m.move = .call c → c.isRequest = true → ∃ f, (e.meet m).result = .error f

/-- What a moment does to the registrations of an engine, by kind. The last index is the list of
registrations afterwards. -/
inductive Step (e : Engine) (l : List Registration) (m : Moment) : List Registration → Prop where
  /-- Nothing changes in the tables and the walks: a read, a failed request, a turn of the fault
  switch, or a turn of a walk that was never started. -/
  | idle (htables : (e.after m).SameTables e) (hchanges : changesIn (e.meet m).effects = [])
    (hfails : e.RequestFails m) : Step e l m l
  /-- A peer is added. -/
  | added {input : PeerInput} {p : Peer} {a : String} (hmove : m.move = .call (.addPeer input))
    (hpeer : input.peer = .ok p) (hvalid : p.validate = .ok a) (hnew : at? l (.text a) = none)
    (hresult : (e.meet m).result = .ok .done) (hafter : e.after m = e.enrolled l a p m.now) :
    Step e l m (l ++ [Registration.initial a p e.nextGeneration m.now])
  /-- A peer is removed. -/
  | removed {v : Value} {r : Registration} (hmove : m.move = .call (.removePeer v))
    (hr : at? l v = some r) (hresult : (e.meet m).result = .ok .done)
    (hregistry : (e.after m).registry = .ofList (without l v))
    (hwalks : (e.after m).walks.map Walk.unstopped = e.walks.map Walk.unstopped)
    (hwalkOf : (e.after m).walkOf = e.walkOf.erase v)
    (hnext : (e.after m).nextGeneration = e.nextGeneration) : Step e l m (without l v)
  /-- The configuration of a peer is replaced. -/
  | updated {input : PeerInput} {p : Peer} {r : Registration}
    (hmove : m.move = .call (.updatePeer input)) (hpeer : input.peer = .ok p)
    (hr : at? l p.address = some r) (hresult : (e.meet m).result = .ok .done)
    (hafter : e.after m = e.withList (adjust l p.address fun s =>
      { s with peer := Registry.updated r.peer p m.now })) :
    Step e l m (adjust l p.address fun s => { s with peer := Registry.updated r.peer p m.now })
  /-- A caller writes into a session what does not touch its course. -/
  | noted {c : Call} {v : Value} {r : Registration} {session : Session}
    (hmove : m.move = .call c) (hadd : ∀ input, c ≠ .addPeer input)
    (hremove : ∀ v, c ≠ .removePeer v) (hr : at? l v = some r)
    (hsame : session.SameCourse r.session)
    (hafter : e.after m = e.withList (adjust l v fun s => { s with session })) :
    Step e l m (adjust l v fun s => { s with session })
  /-- A walk has a turn in which no session is written. -/
  | quiet {i : Nat} {o : Observers} {heeding : Bool} {w w' : Walk}
    (hmove : m.move = .turn i o heeding) (hw : e.walk? i = some w) (hcontinues : w'.Continues w)
    (htold : w'.HasToldChange) (hafter : e.after m = { e with walks := e.walks.set i w' })
    (hchanges : changesIn (e.meet m).effects = []) : Step e l m l
  /-- A walk moves the session of its registration, which is the live one, and the observer of
  state changes may be told of it. -/
  | moved {i : Nat} {o : Observers} {heeding : Bool} {w w' : Walk} {r : Registration}
    (hmove : m.move = .turn i o heeding) (hw : e.walk? i = some w)
    (hr : at? l w.address = some r) (hgeneration : w.generation = .int r.generation)
    (hcontinues : w'.Continues w) (htold : w'.HasToldChange)
    (hafter : e.after m = { e with
      registry := .ofList (adjust l w.address fun s =>
        { s with session := (r.session.advance m.now).1 })
      walks := e.walks.set i w' })
    (hchanges : changesIn (e.meet m).effects = match (r.session.advance m.now).2 with
      | .ok new =>
        if o.stateChange.isSome then [(w.address, w.generation, r.session.state, new)] else []
      | .error _ => []) :
    Step e l m (adjust l w.address fun s => { s with session := (r.session.advance m.now).1 })
  /-- The engine is closed. -/
  | closed (hmove : m.move = .close) (hregistry : (e.after m).registry = e.registry)
    (hwalks : (e.after m).walks.map Walk.unstopped = e.walks.map Walk.unstopped)
    (hwalkOf : (e.after m).walkOf = [])
    (hnext : (e.after m).nextGeneration = e.nextGeneration) : Step e l m l

section Cases

variable {m : Moment}

/-- A generation that is used up changes no table. -/
theorem sameTables_spent (e : Engine) : e.spent.SameTables e :=
  ⟨rfl, rfl, rfl, by simp only [spent]; omega⟩

/-- What a request leaves behind is what is there after the moment. -/
private theorem after_of_changing {c : Call} {out : Outcome Unit} (hmove : m.move = .call c)
    (hperform : c.perform e m.now = Call.changing out) : e.after m = out.engine := by
  simp only [after, meet, hmove, hperform, Call.changing]

/-- A request that is done is answered so. -/
theorem result_of_done {c : Call} {out : Outcome Unit} (hmove : m.move = .call c)
    (hperform : c.perform e m.now = Call.changing out) (hresult : out.result = .ok ()) :
    (e.meet m).result = .ok .done := by
  simp only [meet, hmove, hperform, Call.changing, hresult, Except.map]

/-- A request that fails and keeps the tables is a step in which nothing changes. -/
private theorem step_of_failing {c : Call} {out : Outcome Unit} {f : Failure}
    (hmove : m.move = .call c) (hperform : c.perform e m.now = Call.changing out)
    (hout : out.engine.SameTables e) (hresult : out.result = .error f) : e.Step l m l := by
  refine .idle ?_ (changesIn_meet_of_not_turn fun i o heeding => by simp [hmove]) ?_
  · rw [after_of_changing hmove hperform]
    exact hout
  · intro c' _ _
    exact ⟨f, by simp only [meet, hmove, hperform, Call.changing, hresult, Except.map]⟩

/-- A request that is refused is a step in which nothing changes. -/
private theorem step_of_refuse {c : Call} {e' : Engine} {request : String} {address : Value}
    {err : EngineError} (hmove : m.move = .call c)
    (hperform : c.perform e m.now = Call.changing (e'.refuse request address err))
    (he' : e'.SameTables e) : e.Step l m l :=
  step_of_failing hmove hperform he' rfl

/-- A request that fails is a step in which nothing changes. -/
private theorem step_of_fail {c : Call} {e' : Engine} {request : String} {address : Value}
    {f : Failure} (hmove : m.move = .call c)
    (hperform : c.perform e m.now = Call.changing (e'.fail request address f))
    (he' : e'.SameTables e) : e.Step l m l :=
  step_of_failing hmove hperform ((engine_fail request address f).symm ▸ he')
    (result_fail request address f)

/-- While the fault switch is on, a request changes nothing. -/
private theorem step_of_faulty {c : Call} {operation request : String} {address : Value}
    {body : Engine → Outcome Unit} (hmove : m.move = .call c)
    (hperform : c.perform e m.now =
      Call.changing (e.unlessFaulty operation request address body))
    (hon : e.faults.isOn = true) : e.Step l m l := by
  obtain ⟨hengine, hresult⟩ := unlessFaulty_of_on hon operation request address body
  refine step_of_failing hmove hperform ?_ hresult
  rw [hengine]
  exact ⟨rfl, rfl, rfl, Int.le_refl _⟩

/-- A call that is no request and keeps the tables is a step in which nothing changes. -/
private theorem step_of_read {c : Call} (hmove : m.move = .call c) (hc : c.isRequest = false)
    (hout : (c.perform e m.now).engine.SameTables e) : e.Step l m l := by
  refine .idle ?_ (changesIn_meet_of_not_turn fun i o heeding => by simp [hmove]) ?_
  · simpa only [after, meet, hmove] using hout
  · intro c' hmove' hc'
    obtain rfl : c = c' := Move.call.inj (hmove.symm.trans hmove')
    simp [hc] at hc'

/-- What adding a peer does. -/
private theorem step_addPeer (he : e.registry = .ofList l) {input : PeerInput}
    (hmove : m.move = .call (.addPeer input)) : ∃ l', e.Step l m l' := by
  have hperform : (Call.addPeer input).perform e m.now = Call.changing (e.addPeer input m.now) :=
    rfl
  rcases e.faults.isOn.eq_false_or_eq_true with hon | hoff
  · exact ⟨l, step_of_faulty hmove hperform hon⟩
  cases hp : input.peer with
  | error f =>
    rw [addPeer_of_noPeer hoff hp m.now] at hperform
    exact ⟨l, step_of_fail hmove hperform (.refl e)⟩
  | ok p =>
    cases hcheck : p.check with
    | error f =>
      rw [addPeer_of_invalid hoff hp hcheck m.now] at hperform
      exact ⟨l, step_of_fail hmove hperform (.refl e)⟩
    | ok a =>
      have hvalid := Peer.check_eq_ok_iff_validate.mp hcheck
      cases hat : at? l (.text a) with
      | some r =>
        rw [addPeer_of_registered he hoff hp hvalid hat m.now] at hperform
        exact ⟨l, step_of_refuse hmove hperform (sameTables_spent e)⟩
      | none =>
        cases hcopy : p.isCopyable with
        | false =>
          rw [addPeer_of_notCopyable he hoff hp hvalid hat hcopy m.now] at hperform
          exact ⟨l, step_of_fail hmove hperform (sameTables_spent e)⟩
        | true =>
          obtain ⟨hengine, hresult⟩ := addPeer_of_new he hoff hp hvalid hat hcopy m.now
          refine ⟨_, .added hmove hp hvalid hat (result_of_done hmove hperform hresult) ?_⟩
          rw [after_of_changing hmove hperform, hengine]

/-- What updating a peer does. -/
private theorem step_updatePeer (he : e.registry = .ofList l) {input : PeerInput}
    (hmove : m.move = .call (.updatePeer input)) : ∃ l', e.Step l m l' := by
  have hperform : (Call.updatePeer input).perform e m.now =
      Call.changing (e.updatePeer input m.now) := rfl
  rcases e.faults.isOn.eq_false_or_eq_true with hon | hoff
  · exact ⟨l, step_of_faulty hmove hperform hon⟩
  cases hp : input.peer with
  | error f =>
    rw [updatePeer_of_noPeer hoff hp m.now] at hperform
    exact ⟨l, step_of_fail hmove hperform (.refl e)⟩
  | ok p =>
    cases hr : at? l p.address with
    | none =>
      rw [updatePeer_of_missing he hoff hp hr m.now] at hperform
      exact ⟨l, step_of_fail hmove hperform (.refl e)⟩
    | some r =>
      cases hcheck : p.check with
      | error f =>
        rw [updatePeer_of_invalid he hoff hp hr hcheck m.now] at hperform
        exact ⟨l, step_of_fail hmove hperform (.refl e)⟩
      | ok a =>
        have hvalid := Peer.check_eq_ok_iff_validate.mp hcheck
        cases hcopy : p.isCopyable with
        | false =>
          rw [updatePeer_of_notCopyable he hoff hp hr hvalid hcopy m.now] at hperform
          exact ⟨l, step_of_fail hmove hperform (.refl e)⟩
        | true =>
          obtain ⟨hengine, hresult⟩ := updatePeer_of_registered he hoff hp hr hvalid hcopy m.now
          refine ⟨_, .updated hmove hp hr (result_of_done hmove hperform hresult) ?_⟩
          rw [after_of_changing hmove hperform, hengine]

/-- What removing a peer does. -/
private theorem step_removePeer (he : e.registry = .ofList l) {v : Value}
    (hmove : m.move = .call (.removePeer v)) : ∃ l', e.Step l m l' := by
  have hperform : (Call.removePeer v).perform e m.now = Call.changing (e.removePeer v) := rfl
  rcases e.faults.isOn.eq_false_or_eq_true with hon | hoff
  · exact ⟨l, step_of_faulty hmove hperform hon⟩
  cases hr : at? l v with
  | none =>
    rw [removePeer_of_missing he hoff hr] at hperform
    exact ⟨l, step_of_fail hmove hperform (.refl e)⟩
  | some r =>
    obtain ⟨hengine, hresult⟩ := removePeer_of_registered he hoff hr
    obtain ⟨hregistry, hwalks, _⟩ :=
      Roster.cancelAll_eq ⟨.ofList (without l v), e.walks⟩ (e.walkNumber? v).toList
    have hafter := (after_of_changing hmove hperform).trans hengine
    refine ⟨_, .removed hmove hr (result_of_done hmove hperform hresult) ?_ ?_ ?_ ?_⟩
    · rw [hafter]
      exact hregistry
    · rw [hafter]
      exact hwalks
    · rw [hafter]
    · rw [hafter]

/-- What noting an error does. -/
private theorem step_setSessionError (he : e.registry = .ofList l) {v message : Value}
    (hmove : m.move = .call (.setSessionError v message)) : ∃ l', e.Step l m l' := by
  have hperform : (Call.setSessionError v message).perform e m.now =
      Call.changing (e.setSessionError v message) := rfl
  rcases e.faults.isOn.eq_false_or_eq_true with hon | hoff
  · exact ⟨l, step_of_faulty hmove hperform hon⟩
  cases hr : at? l v with
  | none =>
    rw [setSessionError_of_missing he hoff hr message] at hperform
    exact ⟨l, step_of_fail hmove hperform (.refl e)⟩
  | some r =>
    obtain ⟨hengine, _⟩ := setSessionError_of_registered he hoff hr message
    have hsame : { r.session with lastError := message }.SameCourse r.session :=
      ⟨rfl, rfl, rfl, rfl⟩
    refine ⟨_, .noted hmove (by simp) (by simp) hr hsame ?_⟩
    rw [after_of_changing hmove hperform, hengine]

/-- What counting messages does. -/
private theorem step_incrementCounters (he : e.registry = .ofList l) {v received sent : Value}
    (hmove : m.move = .call (.incrementCounters v received sent)) : ∃ l', e.Step l m l' := by
  have hperform : (Call.incrementCounters v received sent).perform e m.now =
      Call.changing (e.incrementCounters v received sent) := rfl
  rcases e.faults.isOn.eq_false_or_eq_true with hon | hoff
  · exact ⟨l, step_of_faulty hmove hperform hon⟩
  rcases hnegative : anyNegative received sent with f | _ | _
  · rw [incrementCounters_of_error hoff hnegative] at hperform
    exact ⟨l, step_of_fail hmove hperform (.refl e)⟩
  · cases hr : at? l v with
    | none =>
      rw [incrementCounters_of_missing he hoff hnegative hr] at hperform
      exact ⟨l, step_of_fail hmove hperform (.refl e)⟩
    | some r =>
      obtain ⟨hengine, _⟩ := incrementCounters_of_registered he hoff hnegative hr
      refine ⟨_, .noted hmove (by simp) (by simp) hr
        (r.session.sameCourse_count received sent) ?_⟩
      rw [after_of_changing hmove hperform, hengine]
  · rw [incrementCounters_of_negative hoff hnegative] at hperform
    exact ⟨l, step_of_refuse hmove hperform (.refl e)⟩

/-- What a turn of a walk of a registration does. -/
private theorem step_turn (he : e.registry = .ofList l) {i : Nat} {o : Observers}
    {heeding : Bool} (hmove : m.move = .turn i o heeding)
    (hwalks : ∀ w ∈ e.walks,
      (∃ a g, w.address = .text a ∧ w.generation = .int g) ∧ w.HasToldChange) :
    ∃ l', e.Step l m l' := by
  cases hw : e.walk? i with
  | none =>
    have hturn := turnOf_of_none hw m.now o heeding
    refine ⟨l, .idle ?_ ?_ ?_⟩
    · simpa only [after, meet, hmove, hturn] using SameTables.refl e
    · simp only [meet, hmove, hturn, changesIn_nil]
    · intro c hcall
      rw [hmove] at hcall
      cases hcall
  | some w =>
    obtain ⟨⟨a, g, haddress, hgeneration⟩, htold⟩ := hwalks w (List.mem_of_getElem? hw)
    have hturn := turnOf_of_some hw m.now o heeding
    have hcontinues := w.turnWith_continues heeding e.registry m.now o
    have htold' := w.turnWith_hasToldChange heeding e.registry m.now o htold
    rcases w.turnWith_quiet_or_writes heeding e.registry m.now o htold with hquiet | ⟨s, hwrites⟩
    · refine ⟨l, .quiet hmove hw hcontinues htold' ?_ ?_⟩
      · simp only [after, meet, hmove, hturn, hquiet.registry_eq]
      · simp only [meet, hmove, hturn, hquiet.changes_eq]
    · have hlive := hwrites.live
      rw [he, haddress, hgeneration, Registry.live?_ofList, Except.ok.injEq] at hlive
      obtain ⟨r, hfilter, hs⟩ := Option.map_eq_some_iff.mp hlive
      obtain ⟨hr, hg⟩ := Option.filter_eq_some_iff.mp hfilter
      have hg' : r.generation = g := by simpa using hg
      subst hs hg'
      have hregistry := hwrites.registry_eq
      rw [he, haddress, Registry.setSession_of_some hr, ← haddress, ← he] at hregistry
      refine ⟨_, .moved hmove hw (haddress ▸ hr) hgeneration hcontinues htold' ?_ ?_⟩
      · simp only [after, meet, hmove, hturn, hregistry]
      · simp only [meet, hmove, hturn]
        exact hwrites.changes_eq

/-- Every moment is of one of the kinds. -/
theorem exists_step (he : e.registry = .ofList l)
    (hwalks : ∀ w ∈ e.walks,
      (∃ a g, w.address = .text a ∧ w.generation = .int g) ∧ w.HasToldChange)
    (m : Moment) : ∃ l', e.Step l m l' := by
  cases hmove : m.move with
  | call c =>
    cases c with
    | addPeer input => exact step_addPeer he hmove
    | updatePeer input => exact step_updatePeer he hmove
    | removePeer v => exact step_removePeer he hmove
    | setSessionError v message => exact step_setSessionError he hmove
    | incrementCounters v received sent => exact step_incrementCounters he hmove
    | setFaults enabled =>
      refine ⟨l, step_of_read hmove rfl ?_⟩
      cases enabled <;> exact ⟨rfl, rfl, rfl, Int.le_refl _⟩
    | session | sessions | peer | peers | counts | runningConfig | statistics | walk | faults
    | describe => exact ⟨l, step_of_read hmove rfl (.refl e)⟩
  | turn i o heeding => exact step_turn he hmove hwalks
  | close =>
    obtain ⟨hregistry, hwalks', _⟩ := Roster.cancelAll_eq e.toRoster e.walkOf.values
    have hafter : e.after m = e.close.1 := by simp only [after, meet, hmove]
    refine ⟨l, .closed hmove ?_ ?_ ?_ ?_⟩
    · rw [hafter]
      exact hregistry
    · rw [hafter]
      exact hwalks'
    · rw [hafter]
      rfl
    · rw [hafter]
      rfl

end Cases

end Engine

end Peering
