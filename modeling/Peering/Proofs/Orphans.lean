import Peering.Proofs.Pacing

/-!
# No session is stranded and no orphan survives

As long as the engine has not been closed, each registration whose session is not established has
exactly one walk at work, and six of its turns are enough for the session to be established. The one
exception is a registration whose walk has called an observer that raised the cancellation error.
Every other walk that still runs is on its way out: its cancellation is pending, and it does nothing
any more that could be noticed.
-/

namespace Peering

open Registration

namespace Engine

/-- The walk with a number is at work for an address: it runs, and has not been told to stop. -/
def IsAtWork (e : Engine) (i : Nat) (a : Value) : Prop :=
  ∃ w, e.walk? i = some w ∧ w.address = a ∧ w.isRunning = true ∧ w.stopping = false

/-- Exactly one walk is at work for an address. It is the one that is found by the address, and was
started for the live registration. -/
structure HasOneWalk (e : Engine) (a : Value) (i : Nat) : Prop where
  atWork : e.IsAtWork i a
  unique : ∀ j, e.IsAtWork j a → j = i
  found : e.walkNumber? a = some i
  live : ∀ w, e.walk? i = some w → e.IsLive a w.generation

/-- After a run no walk is at work for an address, for an observer has called off the one that was
started for the live registration. -/
structure HasLostWalk (new : Engine) (ms : List Moment) (a : Value) (i : Nat) (w : Walk) :
    Prop where
  found : (new.run ms).walkNumber? a = some i
  walk?_eq : (new.run ms).walk? i = some w
  live : (new.run ms).IsLive a w.generation
  calledOff : w.isCalledOff = true
  /-- In one of its turns an observer raised the cancellation error. -/
  exists_cancels : ∃ v ∈ new.visits a w.generation ms, v.observers.cancels = true
  none_atWork : ∀ j, ¬(new.run ms).IsAtWork j a

/-- The walk with a number is on its way out. -/
structure Lingers (e : Engine) (i : Nat) : Prop where
  /-- Its cancellation is pending, and stays so. -/
  stopping : ∀ ms, ∃ w, (e.run ms).walk? i = some w ∧ w.stopping = true
  /-- Whatever happens from here on, its turns write no session, call no observer of state changes
  and ask for no delay between two states. -/
  harmless : ∀ ms m o heeding, m.move = .turn i o heeding →
    ((e.run ms).after m).registry = (e.run ms).registry ∧
      changesIn ((e.run ms).meet m).effects = [] ∧ sleepsIn ((e.run ms).meet m).effects = []
  /-- Its next turn ends it, unless an observer is suspended and swallows the cancellation; and then
  no observer is called and no delay is asked for. -/
  ends : ∀ ms m o heeding, m.move = .turn i o heeding →
    (heeding = true ∨ ∀ w, (e.run ms).walk? i = some w → w.isObserving = false) →
      ((e.run ms).after m).isRunning i = false ∧
        ((e.run ms).meet m).effects.all Effect.isReport = true

variable {e new : Engine} {l : List Registration} {starts : List Start} {m : Moment}
  {ms : List Moment} {r : Registration} {i : Nat} {w : Walk} {state : State} {a g : Value}

/-- A request to stop is not taken back. -/
private theorem Fares.stopping {w' : Walk} (h : e.Fares m i w w') (hw : w.stopping = true) :
    w'.stopping = true := by
  cases h with
  | kept => exact hw
  | told => exact Walk.stopping_told (Or.inr hw)
  | turned => exact (w.turnWith_isOf _ _ _ _).stopping_eq.trans hw

/-- A walk that has been told to stop is there in every run, and told so. -/
private theorem Reachable.exists_stopping (he : e.Reachable) (hw : e.walk? i = some w)
    (hstopping : w.stopping = true) (ms : List Moment) :
    ∃ w', (e.run ms).walk? i = some w' ∧ w'.serves = w.serves ∧ w'.stopping = true := by
  induction ms using List.reverseRecOn with
  | nil => exact ⟨w, hw, rfl, hstopping⟩
  | append_singleton ms m ih =>
    obtain ⟨v, hv, hserves, hstopping'⟩ := ih
    obtain ⟨l, starts, h⟩ := (he.run ms).exists_holds
    obtain ⟨v', hv', hfares⟩ := h.exists_fares hv m
    rw [run_concat]
    exact ⟨v', hv', hfares.serves_eq.trans hserves, hfares.stopping hstopping'⟩

/-- A walk whose generation is spent is on its way out once it has been told to stop. -/
private theorem Reachable.lingers (he : e.Reachable) (hw : e.walk? i = some w)
    (hstopping : w.stopping = true) {k : Int} (hk : w.generation = .int k) (hspent : e.IsSpent k) :
    e.Lingers i := by
  -- in every run the walk is there, and no session is live for it
  have hgone (ms : List Moment) : ∃ w', (e.run ms).walk? i = some w' ∧ w'.stopping = true ∧
      w'.HasToldChange ∧ (e.run ms).registry.live? w'.address w'.generation = .ok none := by
    obtain ⟨w', hw', hserves, hstopping'⟩ := he.exists_stopping hw hstopping ms
    obtain ⟨_, l, starts, h, hl⟩ := hspent.run ms
    refine ⟨w', hw', hstopping', h.told w' (List.mem_of_getElem? hw'), h.live?_eq_none hw' ?_⟩
    intro r hr heq
    have hgeneration : w'.generation = w.generation := congrArg Prod.snd hserves
    have hr' : w'.generation = .int r.generation := congrArg Prod.snd heq
    exact hl _ r (h.at?_of_mem hr) (Value.int.inj (hr'.symm.trans (hgeneration.trans hk)))
  constructor
  case stopping =>
    intro ms
    obtain ⟨w', hw', hstopping', _⟩ := hgone ms
    exact ⟨w', hw', hstopping'⟩
  case harmless =>
    intro ms m o heeding hmove
    obtain ⟨w', hw', _, htold, hlive⟩ := hgone ms
    rw [after_turn hmove, meet_turn hmove, turnOf_of_some hw']
    rcases w'.turnWith_quiet_or_writes heeding (e.run ms).registry m.now o htold with
      hquiet | ⟨s, hwrites⟩
    · refine ⟨hquiet.registry_eq, hquiet.changes_eq, ?_⟩
      have hasleep := Walk.isAsleep_turnWith_of_gone hlive heeding m.now o
      have hsleeps := (w'.turnWith_isOf heeding (e.run ms).registry m.now o).sleeps_eq
      rw [Walk.naps, hasleep] at hsleeps
      exact hsleeps
    · have hlive' := hwrites.live
      rw [hlive] at hlive'
      cases hlive'
  case ends =>
    intro ms m o heeding hmove hfree
    obtain ⟨w', hw', hstopping', _, hlive⟩ := hgone ms
    have hfree' : (heeding && w'.stopping) = true ∨ w'.isObserving = false := by
      rcases hfree with rfl | hobserving
      · exact Or.inl hstopping'
      · exact Or.inr (hobserving w' hw')
    obtain ⟨hover, hreports⟩ := Walk.turnWith_of_gone hlive hfree' m.now o
    rw [after_turn hmove, meet_turn hmove, turnOf_of_some hw']
    have hlt : i < (e.run ms).walks.length := (List.getElem?_eq_some_iff.mp hw').1
    have hset : Roster.walk? { (e.run ms).toRoster with
        registry := (w'.turnWith heeding (e.run ms).registry m.now o).registry
        walks := (e.run ms).walks.set i (w'.turnWith heeding (e.run ms).registry m.now o).walk } i =
        some (w'.turnWith heeding (e.run ms).registry m.now o).walk := List.getElem?_set_self hlt
    refine ⟨?_, hreports⟩
    rw [Roster.isRunning, hset, Option.any_some]
    exact hover

/-- A walk that is at work for the address of a registration is the one that attends to it. -/
private theorem Attends.eq_of_isAtWork (hattends : e.Attends r i w state) (he : e.Reachable)
    (h : e.Holds l starts) {j : Nat} (hj : e.IsAtWork j (.text r.address)) : j = i := by
  obtain ⟨v, hv, hv', hrunning, hunstopped⟩ := hj
  have hfound := (he.attended l starts h).unstopped_found j v hv hrunning hunstopped
  rw [hv'] at hfound
  exact Option.some.inj ((h.walkNumber?_eq_some_iff.mpr hfound).symm.trans hattends.found)

/-- A walk that attends to a session which is not established, and has not been called off, is the
only one at work for the address. -/
theorem Attends.hasOneWalk (hattends : e.Attends r i w state) (he : e.Reachable)
    (h : e.Holds l starts) (hr : r ∈ l) (hleft : state ≠ .established)
    (hcalledOff : w.isCalledOff = false) : e.HasOneWalk (.text r.address) i := by
  have hrunning : w.isRunning = true := by
    by_contra hover
    rcases hattends.established_or_calledOff (Bool.eq_false_iff.mpr hover) with hlast | hoff
    · exact hleft hlast
    · exact Bool.eq_false_iff.mp hcalledOff hoff
  obtain ⟨haddress, hgeneration⟩ := Prod.mk.inj hattends.serves_eq
  constructor
  case atWork => exact ⟨w, hattends.walk?_eq, haddress, hrunning, hattends.unstopped⟩
  case unique => exact fun j hj => hattends.eq_of_isAtWork he h hj
  case found => exact hattends.found
  case live =>
    intro v hv
    obtain rfl := Option.some.inj (hattends.walk?_eq.symm.trans hv)
    exact h.isLive_iff.mpr ⟨r, h.at?_of_mem hr, hgeneration.symm⟩

/-- If a walk that attends to a registration has been called off, none is at work for the address.
-/
private theorem IsNew.hasLostWalk (hnew : new.IsNew) (hms : ∀ m ∈ ms, m.move ≠ .close)
    (h : (new.run ms).Holds l starts) (hr : r ∈ l) (hattends : (new.run ms).Attends r i w state)
    (hcalledOff : w.isCalledOff = true) : HasLostWalk new ms (.text r.address) i w := by
  obtain ⟨_, hgeneration⟩ := Prod.mk.inj hattends.serves_eq
  constructor
  case found => exact hattends.found
  case walk?_eq => exact hattends.walk?_eq
  case live => exact h.isLive_iff.mpr ⟨r, h.at?_of_mem hr, hgeneration.symm⟩
  case calledOff => exact hcalledOff
  case exists_cancels =>
    rw [hgeneration]
    exact (hnew.paces hms h hr hattends).exists_cancels hcalledOff
  case none_atWork =>
    intro j hj
    obtain rfl := hattends.eq_of_isAtWork (hnew.reachable.run ms) h hj
    obtain ⟨v, hv, _, hrunning, _⟩ := hj
    obtain rfl := Option.some.inj (hattends.walk?_eq.symm.trans hv)
    rw [Walk.isRunning_of_isCalledOff hcalledOff] at hrunning
    cases hrunning

/-- A walk that runs and is not found by its address is on its way out. -/
private theorem IsOpen.lingers (he : e.IsOpen) (hw : e.walk? i = some w)
    (hrunning : w.isRunning = true) (hlost : e.walkNumber? w.address ≠ some i) :
    e.Lingers i := by
  obtain ⟨l, starts, h⟩ := he.reachable.exists_holds
  have hstopping : w.stopping = true := by
    by_contra hunstopped
    have hfound := (he.reachable.attended l starts h).unstopped_found i w hw hrunning
      (Bool.eq_false_iff.mpr hunstopped)
    exact hlost (h.walkNumber?_eq_some_iff.mpr hfound)
  obtain ⟨b, k, hvalues, hlt⟩ :=
    h.values_of_served (p := w.serves) (List.mem_map_of_mem (List.mem_of_getElem? hw))
  have hk : w.generation = .int k := congrArg Prod.snd hvalues
  refine he.reachable.lingers hw hstopping hk ⟨hlt, l, starts, h, fun c r hat heq => ?_⟩
  -- the walk of the registration would be this one
  obtain ⟨hr, rfl⟩ := mem_of_at? hat
  obtain ⟨j, v, state, hattends⟩ := he.exists_attends h hr
  have hsame : v.generation = w.generation := by
    rw [hk, ← heq]
    exact congrArg Prod.snd hattends.serves_eq
  obtain rfl := h.eq_of_walk_generation hattends.walk?_eq hw hsame
  obtain rfl := Option.some.inj (hattends.walk?_eq.symm.trans hw)
  have haddress : v.address = .text r.address := congrArg Prod.fst hattends.serves_eq
  exact hlost (haddress ▸ hattends.found)

/-- As long as the engine has not been closed, no session is stranded short of being established
unless an observer has called off its walk, and no walk survives the removal of its peer: each
registered peer whose session is not established has exactly one walk at work, or has lost it to an
observer that raised the cancellation error; where none did, any six turns of the walk in which no
observer asks for a delay are enough; and every walk that runs and is not found by its address is on
its way out. -/
theorem IsNew.no_session_is_stranded (hnew : new.IsNew) (hms : ∀ m ∈ ms, m.move ≠ .close) :
    (∀ a p, (new.run ms).registry.peerOf.get? a = some p →
      ∃ s, (new.run ms).sessionAt? a = some s ∧
        (s.isEstablished = false →
          ∃ i, (new.run ms).HasOneWalk a i ∨ ∃ w, HasLostWalk new ms a i w)) ∧
      (∀ a g, (new.run ms).IsLive a g → (∀ v ∈ new.visits a g ms, v.observers.cancels = false) →
        6 ≤ (new.visits a g ms).countP (fun v => v.observers.isPrompt) →
          ∃ s, (new.run ms).sessionAt? a = some s ∧ s.isEstablished = true) ∧
      ∀ i w, (new.run ms).walk? i = some w → w.isRunning = true →
        (new.run ms).walkNumber? w.address ≠ some i → (new.run ms).Lingers i := by
  have hopen := hnew.isOpen hms
  obtain ⟨l, starts, h⟩ := hopen.reachable.exists_holds
  refine ⟨fun a p hp => ?_, fun a g hlive hnone hturns => ?_, fun i w hw hrunning hlost => ?_⟩
  · rw [h.registry_eq] at hp
    obtain ⟨r, hat, _⟩ :=
      Option.map_eq_some_iff.mp ((get?_column l Registration.peer a).symm.trans hp)
    obtain ⟨hr, rfl⟩ := mem_of_at? hat
    obtain ⟨i, w, state, hattends⟩ := hopen.exists_attends h hr
    refine ⟨r.session, ?_, fun hleft => ⟨i, ?_⟩⟩
    · rw [h.sessionAt?_eq, hat]
      rfl
    · cases hcalledOff : w.isCalledOff with
      | true => exact Or.inr ⟨w, hnew.hasLostWalk hms h hr hattends hcalledOff⟩
      | false =>
        refine Or.inl (hattends.hasOneWalk hopen.reachable h hr ?_ hcalledOff)
        rintro rfl
        rw [(Session.isEstablished_of_state hattends.state_eq).mpr rfl] at hleft
        cases hleft
  · obtain ⟨r, hat, rfl⟩ := h.isLive_iff.mp hlive
    obtain ⟨hr, rfl⟩ := mem_of_at? hat
    obtain ⟨i, w, state, hattends⟩ := hopen.exists_attends h hr
    refine ⟨r.session, ?_, (Session.isEstablished_of_state hattends.state_eq).mpr ?_⟩
    · rw [h.sessionAt?_eq, hat]
      rfl
    · have hpaces := hnew.paces hms h hr hattends
      by_contra hleft
      have hbound := hpaces.prompt_le hleft (hpaces.not_calledOff hnone)
      have hremaining := w.remaining_pos hleft
      omega
  · exact hopen.lingers hw hrunning hlost

/-- An observer that raises the cancellation error strands the session of a registered peer: no walk
is at work for it, although the peer has not been removed, nor the engine closed. -/
theorem stranded_calledOffRun :
    IsNew {} ∧ (∀ m ∈ calledOffRun, m.move ≠ .close) ∧
      ((({} : Engine).run calledOffRun).registry.peerOf.get? sampleAddress).isSome = true ∧
      (∃ s, (({} : Engine).run calledOffRun).sessionAt? sampleAddress = some s ∧
        s.isEstablished = false) ∧
      ∀ i, ¬(({} : Engine).run calledOffRun).HasOneWalk sampleAddress i := by
  have hnew : IsNew {} := ⟨rfl, rfl, rfl, rfl⟩
  refine ⟨hnew, not_close_of_mem_calledOffRun, rfl, ⟨_, rfl, rfl⟩, fun i hone => ?_⟩
  obtain rfl : 0 = i := Option.some.inj hone.found
  obtain ⟨w, hw, _, hrunning, _⟩ := hone.atWork
  obtain rfl := Option.some.inj hw
  cases hrunning

/-- A run in which the session of one peer becomes established, while another peer is removed and
added again before its walk has woken up. -/
def orphanedRun : List Moment := [
  ⟨.call (.addPeer (.record samplePeer)), 0.0⟩,
  ⟨.turn 0 {} true, 0.0⟩,
  ⟨.call (.addPeer (.record otherPeer)), 0.0⟩,
  ⟨.turn 1 {} true, 0.0⟩, ⟨.turn 1 {} true, 1.0⟩, ⟨.turn 1 {} true, 2.0⟩,
  ⟨.turn 1 { stateChange := some (.raised "no") } true, 3.0⟩,
  ⟨.turn 1 {} true, 4.0⟩, ⟨.turn 1 {} true, 5.0⟩,
  ⟨.call (.removePeer sampleAddress), 6.0⟩,
  ⟨.call (.addPeer (.record samplePeer)), 6.0⟩]

/-- The second walk of the peer is at work, the first one is on its way out, and the session of the
other peer is established. -/
theorem no_session_is_stranded_orphanedRun :
    IsNew {} ∧ (∀ m ∈ orphanedRun, m.move ≠ .close) ∧
      (({} : Engine).run orphanedRun).HasOneWalk sampleAddress 2 ∧
      (({} : Engine).run orphanedRun).Lingers 0 ∧
      ∃ s, (({} : Engine).run orphanedRun).sessionAt? (.text "192.0.2.2") = some s ∧
        s.isEstablished = true := by
  have hnew : IsNew {} := ⟨rfl, rfl, rfl, rfl⟩
  have hopen : ∀ m ∈ orphanedRun, m.move ≠ .close := by
    intro m hm
    simp only [orphanedRun, List.mem_cons, List.not_mem_nil, or_false] at hm
    rcases hm with rfl | rfl | rfl | rfl | rfl | rfl | rfl | rfl | rfl | rfl | rfl <;> simp
  obtain ⟨hattended, hturns, hlingers⟩ := hnew.no_session_is_stranded hopen
  obtain ⟨s, hs, hwalk⟩ := hattended sampleAddress _ rfl
  obtain rfl := Option.some.inj hs
  obtain ⟨i, hwalk | ⟨w, hlost⟩⟩ := hwalk rfl
  case inr =>
    obtain rfl : 2 = i := Option.some.inj hlost.found
    obtain rfl := Option.some.inj hlost.walk?_eq
    cases hlost.calledOff
  obtain rfl : 2 = i := Option.some.inj hwalk.found
  have hlost : (({} : Engine).run orphanedRun).walkNumber? sampleAddress ≠ some 0 := by
    intro h
    cases h
  exact ⟨hnew, hopen, hwalk, hlingers 0 _ rfl rfl hlost,
    hturns (.text "192.0.2.2") (.int 2) rfl (by decide) (by decide)⟩

end Engine

end Peering
