import Peering.Proofs.Attendance

/-!
# What the observer of state changes is told

A walk writes a state and tells the observer of it in one turn, so nothing comes in between. If the
observer is set from the start, it is told of each state that a session enters, once and in order,
whatever it does when it is called. So the calls for a registration, one after the other, always
lead to the present state of its session.
-/

namespace Peering

open Registration

/-- The changes of state on the way from the first state to one. -/
def State.steps (s : State) : List (State × State) := (upTo s).zip (upTo s).tail

/-- The next state is reached by one more step. -/
theorem State.steps_next {s t : State} (h : s.next? = some t) : t.steps = s.steps ++ [(s, t)] := by
  cases s <;> cases h <;> rfl

/-- A call of the observer of state changes: the registration, and the states before and after. -/
abbrev Told := Value × Value × StateCode × State

/-- The calls that tell of all changes of state of a registration up to one. -/
def toldUpTo (address generation : Value) (s : State) : List Told :=
  s.steps.map fun p => (address, generation, .state p.1, p.2)

/-- The state that an observer knows after some calls. It starts from the first state. -/
def heard (calls : List Told) : State := calls.foldl (fun _ c => c.2.2.2) .idle

/-- The next state is told by one more call. -/
theorem toldUpTo_next {s t : State} (h : s.next? = some t) (a g : Value) :
    toldUpTo a g t = toldUpTo a g s ++ [(a, g, .state s, t)] := by
  rw [toldUpTo, State.steps_next h, List.map_append]
  rfl

/-- The calls that tell of all changes lead to the last state. -/
theorem heard_toldUpTo (a g : Value) (s : State) : heard (toldUpTo a g s) = s := by
  cases s <;> rfl

/-- An observer of state changes is set at the moment. -/
def Moment.IsObserved (m : Moment) : Prop :=
  ∀ i o heeding, m.move = .turn i o heeding → o.stateChange.isSome = true

namespace Engine

/-- The calls of the observer of state changes at a moment that are for an address. -/
def toldAt (address : Value) (e : Engine) (m : Moment) : List Told :=
  (changesIn (e.meet m).effects).filter fun c => address.eqv c.1

/-- The calls of the observer of state changes at a moment that are for a registration. -/
def toldOf (address generation : Value) (e : Engine) (m : Moment) : List Told :=
  (changesIn (e.meet m).effects).filter fun c => address.eqv c.1 && generation.eqv c.2.1

/-- What the observer of state changes is told at a moment, and what becomes of sessions. -/
inductive Tells (e : Engine) (m : Moment) (l l' : List Registration) : Prop where
  /-- It is told nothing, and all sessions that go on stay in their states. -/
  | nothing (hchanges : changesIn (e.meet m).effects = [])
    (hsame : ∀ r ∈ l, ∀ r' ∈ l', r'.start = r.start → r'.session.state = r.session.state)
  /-- It is told of the next state of one session, which has been moved there. -/
  | change {r : Registration} {state next : State} (hr : r ∈ l)
    (hstate : r.session.state = .state state) (hnext : state.next? = some next)
    (hchanges : changesIn (e.meet m).effects =
      [(.text r.address, .int r.generation, .state state, next)])
    (hmoved : l' = adjust l (.text r.address) fun s =>
      { s with session := (r.session.advance m.now).1 })

variable {e new : Engine} {l l' : List Registration} {starts starts' : List Start} {m : Moment}
  {ms : List Moment} {r r' : Registration} {state : State} {a g : Value}

/-- A call lets all sessions stay in their states. -/
private theorem Holds.state_eq_of_call (h : e.Holds l starts) (h' : (e.after m).Holds l' starts')
    {c : Call} (hmove : m.move = .call c) :
    ∀ r ∈ l, ∀ r' ∈ l', r'.start = r.start → r'.session.state = r.session.state := by
  intro r hr r' hr' hstart
  rcases (h.carries_of_mem hr h' hr' hstart).course with hsame | ⟨hturn, _⟩
  · exact hsame.state_eq
  · obtain ⟨_, _, _, _, hmove', _⟩ := hturn
    rw [hmove] at hmove'
    cases hmove'

/-- A walk that wakes up moves its session, and the observer is told of it. -/
private theorem Holds.tells_of_moved (he : e.Reachable) (h : e.Holds l starts) {o : Observers}
    (ho : o.stateChange.isSome = true) (hr : r ∈ l)
    (hchanges : changesIn (e.meet m).effects = match (r.session.advance m.now).2 with
      | .ok new => if o.stateChange.isSome then
        [(.text r.address, .int r.generation, r.session.state, new)] else []
      | .error _ => [])
    (hmoved : l' = adjust l (.text r.address) fun s =>
      { s with session := (r.session.advance m.now).1 }) : e.Tells m l l' := by
  have hcourse := he.tellsCourse l starts h r hr
  obtain ⟨state, hstate, _⟩ := hcourse.states
  cases hnext : state.next? with
  | none =>
    -- an established session stays as it is
    have hestablished : state = .established := by
      cases state <;> first | rfl | cases hnext
    have hsame := hcourse.advance_established
      ((Session.isEstablished_of_state hstate).mpr hestablished) m.now
    have hfails : ∃ f, (r.session.advance m.now).2 = .error f := by
      unfold Session.advance
      rw [Session.next?_of_state hstate, hnext]
      exact ⟨_, rfl⟩
    obtain ⟨f, hf⟩ := hfails
    rw [hf] at hchanges
    refine .nothing hchanges fun q hq q' hq' hstart => ?_
    rw [hmoved, hsame] at hq'
    obtain ⟨s, hs, rfl⟩ := List.mem_map.mp hq'
    by_cases hmatch : matchesAt (.text r.address) s = true
    · rw [if_pos hmatch] at hstart ⊢
      have hsq : s = q := h.eq_of_address hq hs (congrArg Start.address hstart)
      have hsr : s = r := h.eq_of_address hr hs (Value.text.inj (matchesAt_iff.mp hmatch)).symm
      rw [← hsq, hsr]
    · rw [if_neg hmatch] at hstart ⊢
      rw [h.eq_of_address hq hs (congrArg Start.address hstart)]
  | some next =>
    have hadvance := (he.countsNumbers l starts h r hr).advance_eq_ok
      ((Session.next?_of_state hstate).trans (congrArg _ hnext)) m.now
    rw [hadvance, ho, hstate] at hchanges
    exact .change hr hstate hnext hchanges hmoved

/-- At every moment the observer is told nothing, or of the next state of one session. -/
private theorem Holds.tells (he : e.Reachable) (h : e.Holds l starts) (hm : m.IsObserved)
    (h' : (e.after m).Holds l' starts') : e.Tells m l l' := by
  have hquiet {l : List Registration} {starts : List Start} (h : e.Holds l starts) :
      ∀ r ∈ l, ∀ r' ∈ l, r'.start = r.start → r'.session.state = r.session.state := by
    intro r hr r' hr' hstart
    rw [h.eq_of_address hr hr' (congrArg Start.address hstart)]
  have hcall {c : Call} (hmove : m.move = .call c) : e.Tells m l l' :=
    .nothing (changesIn_meet_of_not_turn fun i o heeding => by simp [hmove])
      (h.state_eq_of_call h' hmove)
  cases h.step_to h' with
  | idle _ hchanges => exact .nothing hchanges (hquiet h)
  | quiet _ _ _ _ _ hchanges => exact .nothing hchanges (hquiet h)
  | closed hmove =>
    exact .nothing (changesIn_meet_of_not_turn fun i o heeding => by simp [hmove]) (hquiet h)
  | added hmove | removed hmove | updated hmove | noted hmove => exact hcall hmove
  | moved hmove hw hr hgeneration _ _ _ hchanges =>
    obtain ⟨hmem, haddress⟩ := mem_of_at? hr
    rw [haddress, hgeneration] at hchanges
    exact h.tells_of_moved he (hm _ _ _ hmove) hmem hchanges (by rw [haddress])

section Calls

/-- The calls of a moment for a registration, where the observer is told of one change. -/
theorem toldOf_of_changes {b c : String} {k j : Int} {old : StateCode} {next : State}
    (hchanges : changesIn (e.meet m).effects = [(.text c, .int j, old, next)]) :
    e.toldOf (.text b) (.int k) m =
      if b = c ∧ k = j then [(.text c, .int j, old, next)] else [] := by
  rw [toldOf, hchanges]
  by_cases hsame : b = c ∧ k = j <;> simp [hsame]

/-- The calls of a moment for an address, where the observer is told of one change. -/
theorem toldAt_of_changes {b c : String} {j : Int} {old : StateCode} {next : State}
    (hchanges : changesIn (e.meet m).effects = [(.text c, .int j, old, next)]) :
    e.toldAt (.text b) m = if b = c then [(.text c, .int j, old, next)] else [] := by
  rw [toldAt, hchanges]
  by_cases hsame : b = c <;> simp [hsame]

/-- A moment tells of the state that a registration comes to, if it is another one, and of nothing
else for the address. -/
private theorem Tells.told_of_mem (htells : e.Tells m l l') (h : e.Holds l starts)
    (h' : (e.after m).Holds l' starts') (hr : r ∈ l) (hr' : r' ∈ l') (hstart : r'.start = r.start)
    {state' : State} (hstate : r.session.state = .state state)
    (hstate' : r'.session.state = .state state') :
    toldUpTo (.text r.address) (.int r.generation) state' =
        toldUpTo (.text r.address) (.int r.generation) state ++ e.toldAt (.text r.address) m ∧
      e.toldOf (.text r.address) (.int r.generation) m = e.toldAt (.text r.address) m := by
  cases htells with
  | nothing hchanges hsame =>
    obtain rfl : state' = state := by
      have hcode := hsame r hr r' hr' hstart
      rw [hstate, hstate'] at hcode
      exact StateCode.state.inj hcode
    simp [toldAt, toldOf, hchanges]
  | @change s old next hs hold hnext hchanges hmoved =>
    have hat := h'.at?_of_start hr' hstart
    rw [toldOf_of_changes hchanges, toldAt_of_changes hchanges]
    by_cases hsr : r.address = s.address
    · obtain rfl : s = r := h.eq_of_address hr hs hsr.symm
      rw [hmoved, h.at?_written hr] at hat
      obtain rfl := Option.some.inj hat
      obtain rfl := StateCode.state.inj (hold.symm.trans hstate)
      obtain ⟨hstate'', _⟩ := Session.advance_of_next hold hnext m.now
      obtain rfl := StateCode.state.inj (hstate''.symm.trans hstate')
      rw [if_pos rfl, if_pos ⟨rfl, rfl⟩]
      exact ⟨toldUpTo_next hnext _ _, rfl⟩
    · have hother : at? l' (.text r.address) = some r := by
        have hmatch : ¬matchesAt (.text s.address) r = true := by
          rw [matchesAt_iff]
          exact fun heq => hsr (Value.text.inj heq).symm
        have hadjust := at?_adjust (l := l) (v := .text s.address)
          (g := fun t => { t with session := (s.session.advance m.now).1 }) (fun _ => rfl)
          (.text r.address)
        rw [hmoved, hadjust, h.at?_of_mem hr, Option.map_some, if_neg hmatch]
      rw [hother] at hat
      obtain rfl := Option.some.inj hat
      obtain rfl := StateCode.state.inj (hstate.symm.trans hstate')
      rw [if_neg hsr, if_neg fun hboth => hsr hboth.1]
      exact ⟨(List.append_nil _).symm, rfl⟩

/-- Nothing is told of a registration that has not been made yet. -/
private theorem Tells.toldOf_of_next_le (htells : e.Tells m l l') (h : e.Holds l starts)
    (b : String) {k : Int} (hk : e.nextGeneration ≤ k) : e.toldOf (.text b) (.int k) m = [] := by
  cases htells with
  | nothing hchanges => simp [toldOf, hchanges]
  | @change s _ _ hs _ _ hchanges =>
    have hlt : s.generation < e.nextGeneration := h.generation_lt (h.at?_of_mem hs)
    rw [toldOf_of_changes hchanges, if_neg]
    rintro ⟨_, rfl⟩
    omega

end Calls

/-- What the observer has been told in a run is what has happened. -/
structure Notified (new : Engine) (ms : List Moment) (l : List Registration) : Prop where
  /-- It has been told nothing of registrations that have not been made. -/
  unmade : ∀ b k, (new.run ms).nextGeneration ≤ k →
    new.gather (toldOf (.text b) (.int k)) ms = []
  /-- It has been told of the changes of a registration in order. -/
  made : ∀ b k, ∃ state,
    new.gather (toldOf (.text b) (.int k)) ms = toldUpTo (.text b) (.int k) state
  /-- It has been told of all changes of a registration that is still there. -/
  live : ∀ r ∈ l, ∀ state, r.session.state = .state state →
    new.gather (toldOf (.text r.address) (.int r.generation)) ms =
      toldUpTo (.text r.address) (.int r.generation) state
  /-- Since the address was added it has been told of nothing else for the address. -/
  since : ∀ r ∈ l, ∀ state, r.session.state = .state state →
    ∃ before add later, ms = before ++ add :: later ∧
      (new.run before).Adds add (.text r.address) ∧
      (new.run (before ++ [add])).gather (toldAt (.text r.address)) later =
        toldUpTo (.text r.address) (.int r.generation) state

section Concat

variable (hnotified : Notified new ms l) (htells : (new.run ms).Tells m l l')
  (he : (new.run ms).Reachable) (h : (new.run ms).Holds l starts)
  (h' : ((new.run ms).after m).Holds l' starts')

include hnotified htells

/-- A moment tells of the next change of a registration, or of nothing. -/
private theorem Notified.made_concat (b : String) (k : Int) : ∃ state,
    new.gather (toldOf (.text b) (.int k)) (ms ++ [m]) = toldUpTo (.text b) (.int k) state := by
  obtain ⟨state, hmade⟩ := hnotified.made b k
  rw [gather_concat]
  cases htells with
  | nothing hchanges => exact ⟨state, by simp [hmade, toldOf, hchanges]⟩
  | @change r old next hr hold hnext hchanges =>
    rw [toldOf_of_changes hchanges]
    by_cases hsame : b = r.address ∧ k = r.generation
    · obtain ⟨rfl, rfl⟩ := hsame
      rw [if_pos ⟨rfl, rfl⟩, hnotified.live r hr old hold]
      exact ⟨next, (toldUpTo_next hnext _ _).symm⟩
    · rw [if_neg hsame, List.append_nil]
      exact ⟨state, hmade⟩

include h

/-- A moment tells nothing of registrations that have not been made before it. -/
private theorem Notified.unmade_concat (b : String) {k : Int}
    (hk : (new.run ms).nextGeneration ≤ k) :
    new.gather (toldOf (.text b) (.int k)) (ms ++ [m]) = [] := by
  rw [gather_concat, hnotified.unmade b k hk, htells.toldOf_of_next_le h b hk]
  rfl

include he h'

/-- A moment completes what has been told of the registrations that are there. -/
private theorem Notified.live_concat (hr' : r' ∈ l') (hstate : r'.session.state = .state state) :
    new.gather (toldOf (.text r'.address) (.int r'.generation)) (ms ++ [m]) =
      toldUpTo (.text r'.address) (.int r'.generation) state := by
  rcases h.goes_on_or_initial h' hr' with ⟨r, hr, hstart⟩ | ⟨_, hgeneration, hidle⟩
  · obtain ⟨old, hold, _⟩ := (he.tellsCourse l starts h r hr).states
    obtain ⟨htold, hof⟩ := htells.told_of_mem h h' hr hr' hstart hold hstate
    have haddress : r'.address = r.address := congrArg Start.address hstart
    have hgeneration : r'.generation = r.generation := congrArg Start.generation hstart
    rw [gather_concat, haddress, hgeneration, hnotified.live r hr old hold, hof, htold]
  · obtain rfl := StateCode.state.inj (hidle.symm.trans hstate)
    exact hnotified.unmade_concat htells h _ (Int.le_of_eq hgeneration.symm)

/-- Since the address of a registration was added, the moment has told of nothing else for it. -/
private theorem Notified.since_concat (hr' : r' ∈ l') (hstate : r'.session.state = .state state) :
    ∃ before add later, ms ++ [m] = before ++ add :: later ∧
      (new.run before).Adds add (.text r'.address) ∧
      (new.run (before ++ [add])).gather (toldAt (.text r'.address)) later =
        toldUpTo (.text r'.address) (.int r'.generation) state := by
  rcases h.goes_on_or_initial h' hr' with ⟨r, hr, hstart⟩ | ⟨hadds, _, hidle⟩
  · obtain ⟨old, hold, _⟩ := (he.tellsCourse l starts h r hr).states
    obtain ⟨htold, _⟩ := htells.told_of_mem h h' hr hr' hstart hold hstate
    have haddress : r'.address = r.address := congrArg Start.address hstart
    have hgeneration : r'.generation = r.generation := congrArg Start.generation hstart
    obtain ⟨before, add, later, rfl, hadds, hsince⟩ := hnotified.since r hr old hold
    have hlater : new.run (before ++ add :: later) = (new.run (before ++ [add])).run later := by
      rw [← run_append, List.append_assoc]
      rfl
    refine ⟨before, add, later ++ [m], by simp, haddress ▸ hadds, ?_⟩
    rw [gather_concat, haddress, hgeneration, hsince, htold, ← hlater]
  · obtain rfl := StateCode.state.inj (hidle.symm.trans hstate)
    exact ⟨ms, m, [], rfl, hadds, rfl⟩

end Concat

/-- If an observer is set from the start, it is told what happens. -/
private theorem IsNew.notified (hnew : new.IsNew) (hms : ∀ m ∈ ms, m.IsObserved) :
    ∀ l starts, (new.run ms).Holds l starts → Notified new ms l := by
  induction ms using List.reverseRecOn with
  | nil =>
    intro l starts h
    obtain rfl := h.eq_of_registry hnew.holds.registry_eq
    exact ⟨fun _ _ _ => rfl, fun _ _ => ⟨.idle, rfl⟩, by simp, by simp⟩
  | append_singleton ms m ih =>
    intro l' starts' h'
    rw [run_concat] at h'
    have he := hnew.reachable.run ms
    obtain ⟨l, starts, h⟩ := he.exists_holds
    have hnotified := ih (fun n hn => hms n (List.mem_append_left _ hn)) l starts h
    have htells := h.tells he (hms m (by simp)) h'
    have hnext : (new.run ms).nextGeneration ≤ (new.run (ms ++ [m])).nextGeneration := by
      rw [run_concat]
      exact (h.step_to h').next_le
    constructor
    case unmade => exact fun b k hk => hnotified.unmade_concat htells h b (Int.le_trans hnext hk)
    case made => exact fun b k => hnotified.made_concat htells b k
    case live => exact fun r' hr' state hstate => hnotified.live_concat htells he h h' hr' hstate
    case since => exact fun r' hr' state hstate => hnotified.since_concat htells he h h' hr' hstate

/-- The observer knows the state of a registration from the calls. -/
structure Knows (new : Engine) (ms : List Moment) (a g : Value) (state : State) : Prop where
  /-- It has been told of all changes of the registration up to the state, in order. -/
  told_eq : new.gather (toldOf a g) ms = toldUpTo a g state
  /-- One after the other, these calls lead to the state. -/
  heard_eq : heard (new.gather (toldOf a g) ms) = state
  /-- They are all the calls for the address since it was added. -/
  since_added : ∃ before add later, ms = before ++ add :: later ∧ (new.run before).Adds add a ∧
    (new.run (before ++ [add])).gather (toldAt a) later = new.gather (toldOf a g) ms

/-- The observer is called when a session has just been written. After that the turn leaves the
registry alone, so the sessions at the instant of the call are those after the moment. -/
structure IsTimely (e : Engine) (m : Moment) (c : Told) (old : State) (s s' : Session) : Prop where
  /-- The registration of the call is there, as it was before. -/
  live : e.IsLive c.1 c.2.1
  live_after : (e.after m).IsLive c.1 c.2.1
  /-- The session was in the old state. -/
  session : e.sessionAt? c.1 = some s
  state_eq : s.state = .state old
  old_eq : c.2.2.1 = .state old
  /-- It is in the new state, which is the next one. -/
  session_after : (e.after m).sessionAt? c.1 = some s'
  state_after : s'.state = .state c.2.2.2
  next : old.next? = some c.2.2.2
  /-- The last two states of its history are the old one and the new one. -/
  last : s.history.getLast? = some (.state old, s.changedAt)
  history_eq : s'.history = s.history ++ [(.state c.2.2.2, s'.changedAt)]

/-- Every call of the observer is made when the session has just been written. -/
private theorem Holds.exists_isTimely (he : e.Reachable) (h : e.Holds l starts)
    (hm : m.IsObserved) {c : Told} (hc : c ∈ changesIn (e.meet m).effects) :
    ∃ old s s', e.IsTimely m c old s s' := by
  obtain ⟨l', starts', _, _, h'⟩ := h.exists_after m
  cases h.tells he hm h' with
  | nothing hchanges =>
    rw [hchanges] at hc
    cases hc
  | @change r old next hr hold hnext hchanges hmoved =>
    rw [hchanges] at hc
    obtain rfl := List.mem_singleton.mp hc
    have hat := h.at?_of_mem hr
    have hat' : at? l' (.text r.address) =
        some { r with session := (r.session.advance m.now).1 } := by
      rw [hmoved, h.at?_written hr]
    have hcourse := he.tellsCourse l starts h r hr
    obtain ⟨hstate', hhistory⟩ := Session.advance_of_next hold hnext m.now
    have hlast := (hcourse.advance m.now).last
    refine ⟨old, r.session, (r.session.advance m.now).1, ?_⟩
    constructor
    case live => exact h.isLive_iff.mpr ⟨r, hat, rfl⟩
    case live_after => exact h'.isLive_iff.mpr ⟨_, hat', rfl⟩
    case session => rw [h.sessionAt?_eq, hat, Option.map_some]
    case state_eq => exact hold
    case old_eq => rfl
    case session_after => rw [h'.sessionAt?_eq, hat', Option.map_some]
    case state_after => exact hstate'
    case next => exact hnext
    case last => exact hold ▸ hcourse.last
    case history_eq =>
      rw [hhistory, List.getLast?_append, List.getLast?_singleton, Option.some_or] at hlast
      obtain ⟨_, htime⟩ := Prod.mk.inj (Option.some.inj hlast)
      rw [hhistory, htime]

/-- If an observer of state changes is set from the start, it is called for each registration with
the changes of its session, one after the other, up to the present state, whatever the observer
does. At each call the session has just been written. -/
theorem IsNew.observer_hears_all (hnew : new.IsNew) (hms : ∀ m ∈ ms, m.IsObserved) :
    (∀ a g, (a, g) ∈ (new.run ms).served →
      ∃ state, new.gather (toldOf a g) ms = toldUpTo a g state) ∧
    (∀ a g s, (new.run ms).IsLive a g → (new.run ms).sessionAt? a = some s →
      ∃ state, s.state = .state state ∧ Knows new ms a g state) ∧
    ∀ before m later, ms = before ++ m :: later →
      ∀ c ∈ changesIn ((new.run before).meet m).effects,
        ∃ old s s', (new.run before).IsTimely m c old s s' := by
  have hreachable := hnew.reachable.run ms
  obtain ⟨l, starts, h⟩ := hreachable.exists_holds
  have hnotified := hnew.notified hms l starts h
  refine ⟨?_, ?_, ?_⟩
  · intro a g hserved
    obtain ⟨b, k, hvalues, _⟩ := h.values_of_served hserved
    obtain ⟨rfl, rfl⟩ := Prod.mk.inj hvalues
    exact hnotified.made b k
  · intro a g s hlive hs
    obtain ⟨r, hat, rfl, rfl⟩ := h.registration_of_isLive hlive hs
    obtain ⟨hr, rfl⟩ := mem_of_at? hat
    obtain ⟨state, hstate, _⟩ := (hreachable.tellsCourse l starts h r hr).states
    have htold := hnotified.live r hr state hstate
    obtain ⟨before, add, later, hms, hadds, hsince⟩ := hnotified.since r hr state hstate
    refine ⟨state, hstate, ?_⟩
    constructor
    case told_eq => exact htold
    case heard_eq => rw [htold, heard_toldUpTo]
    case since_added => exact ⟨before, add, later, hms, hadds, hsince.trans htold.symm⟩
  · rintro before m later rfl c hc
    have hbefore := hnew.reachable.run before
    obtain ⟨_, _, h⟩ := hbefore.exists_holds
    exact h.exists_isTimely hbefore (hms m (by simp)) hc

/-- A run in which a peer is removed while its observer is suspended, and added again. Later the
observer fails. -/
def observedRun : List Moment := [
  ⟨.call (.addPeer (.record samplePeer)), 0.0⟩,
  ⟨.turn 0 { stateChange := some .returned } true, 0.0⟩,
  ⟨.turn 0 { stateChange := some (.suspended 5.0) } true, 2.0⟩,
  ⟨.call (.removePeer sampleAddress), 3.0⟩,
  ⟨.call (.addPeer (.record samplePeer)), 3.0⟩,
  ⟨.turn 1 { stateChange := some .returned } true, 3.0⟩,
  ⟨.turn 0 { stateChange := some .returned } false, 4.0⟩,
  ⟨.turn 1 { stateChange := some (.raised "no") } true, 5.0⟩,
  ⟨.turn 1 { stateChange := some (.raised "no") } true, 7.0⟩]

/-- The observer has been called three times, and it knows the state of the second session. -/
theorem observer_hears_all_observedRun :
    IsNew {} ∧ (∀ m ∈ observedRun, m.IsObserved) ∧
      Knows {} observedRun sampleAddress (.int 2) .active ∧
      ({} : Engine).gather (toldAt sampleAddress) observedRun =
        [(sampleAddress, .int 1, .state .idle, .connect),
          (sampleAddress, .int 2, .state .idle, .connect),
          (sampleAddress, .int 2, .state .connect, .active)] := by
  have hnew : IsNew {} := ⟨rfl, rfl, rfl, rfl⟩
  have hobserved : ∀ m ∈ observedRun, m.IsObserved := by
    intro m hm i o heeding hmove
    simp only [observedRun, List.mem_cons, List.not_mem_nil, or_false] at hm
    rcases hm with rfl | rfl | rfl | rfl | rfl | rfl | rfl | rfl | rfl <;> cases hmove <;> rfl
  obtain ⟨_, hknows, _⟩ := hnew.observer_hears_all hobserved
  obtain ⟨state, hstate, hknown⟩ := hknows sampleAddress (.int 2) _ rfl rfl
  obtain rfl : State.active = state := StateCode.state.inj hstate
  exact ⟨hnew, hobserved, hknown, rfl⟩

end Engine

end Peering
