import Peering.Proofs.Restriction
import Peering.Proofs.Sessions
import Peering.Proofs.Standing
import Peering.Proofs.Walks
import Mathlib.Data.List.Induction

/-!
# Registrations and their walks

In every engine that is reached, the walk of a registration stands where the state of the session
puts it, and a walk that runs without having been told to stop is found by its address. As long as
the engine has not been closed, each registration has a walk that is found by its address. This file
shows that every moment keeps this up, and says what a moment does to a session together with its
walk.
-/

namespace Peering

open Registration

namespace Engine

/-- The engine comes out of a new one in some run in which it is not closed. -/
def IsOpen (e : Engine) : Prop :=
  ∃ new ms, IsNew new ∧ (∀ m ∈ ms, m.move ≠ .close) ∧ new.run ms = e

/-- Walks and registrations go together. -/
structure Attended (e : Engine) (l : List Registration) : Prop where
  /-- The walk of a registration stands at the state of the session. -/
  stands : ∀ i w r, e.walk? i = some w → r ∈ l → w.serves = r.start.values →
    ∃ state, r.session.state = .state state ∧ w.StandsAt state
  /-- A walk that is found by an address has not been told to stop. -/
  found_unstopped : ∀ a i w, (a, i) ∈ e.walkOf → e.walk? i = some w → w.stopping = false
  /-- A walk that is not over is found by its address, or has been told to stop. -/
  unstopped_found : ∀ i w, e.walk? i = some w → w.isRunning = true → w.stopping = false →
    (w.address, i) ∈ e.walkOf
  /-- Walks sleep for the delay of the engine. -/
  delay_eq : ∀ i w, e.walk? i = some w → w.delay = e.stateDelay

/-- The walk with a number attends to a registration, whose session is in a state. -/
structure Attends (e : Engine) (r : Registration) (i : Nat) (w : Walk) (state : State) : Prop where
  found : e.walkNumber? (.text r.address) = some i
  walk?_eq : e.walk? i = some w
  serves_eq : w.serves = r.start.values
  unstopped : w.stopping = false
  delay_eq : w.delay = e.stateDelay
  state_eq : r.session.state = .state state
  stands : w.StandsAt state

/-- What a moment does to the walk of a registration and to the state of the session, where the
registration goes on. -/
inductive Tends (e : Engine) (m : Moment) (i : Nat) (w : Walk) (state : State) :
    Walk → State → Prop where
  /-- The walk has no turn; it stands where it stood, and the session is in the same state. -/
  | waits {w' : Walk} (hturn : ∀ o heeding, m.move ≠ .turn i o heeding)
    (hphase : w'.phase = w.phase) : Tends e m i w state w' state
  /-- The walk has a turn, and the session is left alone. -/
  | stays {o : Observers} {heeding : Bool} (hmove : m.move = .turn i o heeding)
    (hheeded : w.isAsleep = true → (heeding && w.stopping) = true) :
    Tends e m i w state (w.turnWith heeding e.registry m.now o).walk state
  /-- The walk wakes up, and the session moves to the next state. -/
  | moves {o : Observers} {heeding : Bool} {next : State} (hmove : m.move = .turn i o heeding)
    (hasleep : w.isAsleep = true) (hnext : state.next? = some next) :
    Tends e m i w state (w.turnWith heeding e.registry m.now o).walk next

variable {e new : Engine} {l l' : List Registration} {starts starts' : List Start} {m : Moment}
  {ms : List Moment} {r r' : Registration} {i : Nat} {w w' : Walk} {state : State}

section Live

/-- For the walk of a registration its session is live. -/
theorem Holds.live?_of_mem (h : e.Holds l starts) (hr : r ∈ l)
    (hserves : w.serves = r.start.values) :
    e.registry.live? w.address w.generation = .ok (some r.session) := by
  obtain ⟨haddress, hgeneration⟩ := Prod.mk.inj hserves
  rw [h.registry_eq, haddress, hgeneration, Registry.live?_ofList]
  change Except.ok (((at? l (.text r.address)).filter fun s => s.generation == r.generation).map
    Registration.session) = .ok (some r.session)
  rw [h.at?_of_mem hr]
  simp [Option.filter_some]

/-- A session that is written is found. -/
theorem Holds.at?_written (h : e.Holds l starts) (hr : r ∈ l) (s : Session) :
    at? (adjust l (.text r.address) fun t => { t with session := s }) (.text r.address) =
      some { r with session := s } := by
  have hadjust := at?_adjust (l := l) (v := .text r.address)
    (g := fun t => { t with session := s }) (fun _ => rfl) (.text r.address)
  rw [hadjust, h.at?_of_mem hr]
  simp

/-- What the walk of a registration writes is live for it. -/
theorem Holds.live?_setSession (h : e.Holds l starts) (hr : r ∈ l)
    (hserves : w.serves = r.start.values) (s : Session) :
    (e.registry.setSession w.address s).live? w.address w.generation = .ok (some s) := by
  obtain ⟨haddress, hgeneration⟩ := Prod.mk.inj hserves
  have hat : at? l w.address = some r := by
    rw [haddress]
    exact h.at?_of_mem hr
  rw [h.registry_eq, Registry.setSession_of_some hat, haddress, hgeneration, Registry.live?_ofList]
  change Except.ok (((at? (adjust l (.text r.address) _) (.text r.address)).filter
    fun s => s.generation == r.generation).map Registration.session) = .ok (some s)
  rw [h.at?_written hr s]
  simp [Option.filter_some]

/-- For a walk of no registration nothing is live. -/
theorem Holds.live?_eq_none (h : e.Holds l starts) (hw : e.walk? i = some w)
    (hgone : ∀ r ∈ l, w.serves ≠ r.start.values) :
    e.registry.live? w.address w.generation = .ok none := by
  obtain ⟨s, _, haddress, hgeneration⟩ := h.start_of_walk hw
  rw [h.registry_eq, haddress, hgeneration, Registry.live?_ofList]
  cases hr : at? l (.text s.address) with
  | none => rfl
  | some r =>
    obtain ⟨hmem, hat⟩ := mem_of_at? hr
    have hne : r.generation ≠ s.generation := by
      intro heq
      apply hgone r hmem
      rw [Walk.serves, haddress, hgeneration, Start.values, hat, ← heq]
      rfl
    simp [Option.filter_some, hne]

end Live

section Moment

/-- A moment at which a walk has no turn leaves it where it stands, and a request to stop stays. -/
theorem Fares.phase_eq (h : e.Fares m i w w') (hturn : ∀ o heeding, m.move ≠ .turn i o heeding) :
    w'.phase = w.phase ∧ (w.stopping = true → w'.stopping = true) := by
  cases h with
  | kept => exact ⟨rfl, id⟩
  | told => exact ⟨w.phase_told, fun hstopping => Walk.stopping_told (Or.inr hstopping)⟩
  | turned hmove => exact absurd hmove (hturn _ _)

/-- At a moment a walk has no turn, or it has one and goes on from it. -/
theorem Fares.waits_or_turned (h : e.Fares m i w w') :
    (∀ o heeding, m.move ≠ .turn i o heeding) ∨
      ∃ o heeding, m.move = .turn i o heeding ∧
        w' = (w.turnWith heeding e.registry m.now o).walk := by
  cases h with
  | kept hturn => exact Or.inl hturn
  | told hcancels => exact Or.inl fun o heeding => hcancels.not_turn i o heeding
  | turned hmove => exact Or.inr ⟨_, _, hmove, rfl⟩

/-- A registration that is there before and after a moment goes on. -/
theorem Holds.carries_of_mem (h : e.Holds l starts) (hr : r ∈ l)
    (h' : (e.after m).Holds l' starts') (hr' : r' ∈ l') (hstart : r'.start = r.start) :
    e.Carries m r r' := by
  have hat' := h'.at?_of_start hr' hstart
  rcases (h.step_to h').removes_or_carries (h.at?_of_mem hr) with ⟨_, hnone⟩ | ⟨s, hs, hcarries⟩
  · rw [hnone] at hat'
    cases hat'
  · obtain rfl : s = r' := Option.some.inj (hs.symm.trans hat')
    exact hcarries

/-- A session is left alone at a moment at which its walk has no turn. -/
private theorem Holds.sameCourse_of_waits (h : e.Holds l starts) (hw : e.walk? i = some w)
    (hr : r ∈ l) (hserves : w.serves = r.start.values) (h' : (e.after m).Holds l' starts')
    (hr' : r' ∈ l') (hstart : r'.start = r.start)
    (hturn : ∀ o heeding, m.move ≠ .turn i o heeding) : r'.session.SameCourse r.session := by
  rcases (h.carries_of_mem hr h' hr' hstart).course with hsame | ⟨hhas, _⟩
  · exact hsame
  · obtain ⟨j, o, heeding, v, hmove, hv, _, hgeneration⟩ := hhas
    have hsame : w.generation = v.generation := (congrArg Prod.snd hserves).trans hgeneration.symm
    obtain rfl := h.eq_of_walk_generation hw hv hsame
    exact absurd hmove (hturn o heeding)

/-- What a turn of a walk does to the session whose state it stands at. -/
private theorem Holds.tends_of_turn (he : e.Reachable) (h : e.Holds l starts)
    (hw : e.walk? i = some w) (hr : r ∈ l) (hserves : w.serves = r.start.values)
    (hstate : r.session.state = .state state) (hstands : w.StandsAt state)
    (h' : (e.after m).Holds l' starts') (hr' : r' ∈ l') (hstart : r'.start = r.start)
    {o : Observers} {heeding : Bool} (hmove : m.move = .turn i o heeding) :
    ∃ state', r'.session.state = .state state' ∧
      e.Tends m i w state (w.turnWith heeding e.registry m.now o).walk state' ∧
      (w.turnWith heeding e.registry m.now o).walk.StandsAt state' := by
  have hafter : (e.after m).registry = (w.turnWith heeding e.registry m.now o).registry := by
    rw [after_turn hmove, turnOf_of_some hw]
  have hat' := h'.at?_of_start hr' hstart
  obtain ⟨state', hattends, hstands'⟩ := Walk.turnWith_attends (h.live?_of_mem hr hserves)
    (h.live?_setSession hr hserves) hstate (he.countsNumbers l starts h r hr) hstands heeding
    m.now o
  cases hattends with
  | stays hregistry hheeded =>
    obtain rfl : l = l' := by
      refine Registry.ofList_injective ?_
      rw [← h.registry_eq, ← h'.registry_eq, hafter, hregistry]
    rw [h.at?_of_mem hr] at hat'
    obtain rfl := Option.some.inj hat'
    exact ⟨state, hstate, .stays hmove hheeded, hstands'⟩
  | moves hasleep hnext _ hregistry =>
    have haddress : w.address = .text r.address := congrArg Prod.fst hserves
    have hl' : l' = adjust l (.text r.address) fun s =>
        { s with session := (r.session.advance m.now).1 } := by
      refine Registry.ofList_injective ?_
      rw [← h'.registry_eq, hafter, hregistry, haddress, h.registry_eq,
        Registry.setSession_of_some (h.at?_of_mem hr)]
    rw [hl', h.at?_written hr] at hat'
    obtain rfl := Option.some.inj hat'
    obtain ⟨hmoved, _⟩ := Session.advance_of_next hstate hnext m.now
    exact ⟨_, hmoved, .moves hmove hasleep hnext, hstands'⟩

/-- What a moment does to a session and to the walk that stands at its state. -/
private theorem Holds.tends (he : e.Reachable) (h : e.Holds l starts) (hw : e.walk? i = some w)
    (hr : r ∈ l) (hserves : w.serves = r.start.values) (hstate : r.session.state = .state state)
    (hstands : w.StandsAt state) (h' : (e.after m).Holds l' starts') (hfares : e.Fares m i w w')
    (hr' : r' ∈ l') (hstart : r'.start = r.start) :
    ∃ state', r'.session.state = .state state' ∧ e.Tends m i w state w' state' ∧
      w'.StandsAt state' := by
  rcases hfares.waits_or_turned with hturn | ⟨o, heeding, hmove, rfl⟩
  · obtain ⟨hphase, hstopping⟩ := hfares.phase_eq hturn
    have hsame := h.sameCourse_of_waits hw hr hserves h' hr' hstart hturn
    exact ⟨state, hsame.state_eq.trans hstate, .waits hturn hphase,
      hstands.of_phase_eq hphase hstopping⟩
  · exact h.tends_of_turn he hw hr hserves hstate hstands h' hr' hstart hmove

/-- A registration that is there after a moment was there before, or it has just been made. -/
theorem Holds.goes_on_or_initial (h : e.Holds l starts) (h' : (e.after m).Holds l' starts')
    (hr' : r' ∈ l') :
    (∃ r ∈ l, r'.start = r.start) ∨
      e.Adds m (.text r'.address) ∧ r'.generation = e.nextGeneration ∧
        r'.session.state = .state .idle := by
  rcases (h.step_to h').carries_or_initial (h'.at?_of_mem hr') with
    ⟨r, hr, hcarries⟩ | ⟨hadds, b, p, rfl⟩
  · exact Or.inl ⟨r, (mem_of_at? hr).1, hcarries.start_eq⟩
  · exact Or.inr ⟨hadds, rfl, rfl⟩

/-- The generation of a new registration has no walk before it is made. -/
theorem Holds.generation_ne_next (h : e.Holds l starts) (hw : e.walk? i = some w) :
    w.generation ≠ .int e.nextGeneration := by
  intro heq
  have hmem : w.serves ∈ e.served := List.mem_map_of_mem (List.mem_of_getElem? hw)
  obtain ⟨a, g, hvalues, hlt⟩ := h.values_of_served hmem
  have hg : g = e.nextGeneration := Value.int.inj ((congrArg Prod.snd hvalues).symm.trans heq)
  omega

/-- After a moment the walk of a registration stands at the state of the session. -/
private theorem Attended.stands_after (ha : e.Attended l) (he : e.Reachable) (h : e.Holds l starts)
    (h' : (e.after m).Holds l' starts') (hw' : (e.after m).walk? i = some w') (hr' : r' ∈ l')
    (hserves' : w'.serves = r'.start.values) :
    ∃ state, r'.session.state = .state state ∧ w'.StandsAt state := by
  rcases h.fares_or_starts hw' with ⟨w, hw, hfares⟩ | ⟨a, _, rfl⟩
  · have hserves : w.serves = r'.start.values := hfares.serves_eq.symm.trans hserves'
    rcases h.goes_on_or_initial h' hr' with ⟨r, hr, hstart⟩ | ⟨_, hgeneration, _⟩
    · obtain ⟨state, hstate, hstands⟩ := ha.stands i w r hw hr (hstart ▸ hserves)
      obtain ⟨state', hstate', _, hstands'⟩ :=
        h.tends he hw hr (hstart ▸ hserves) hstate hstands h' hfares hr' hstart
      exact ⟨state', hstate', hstands'⟩
    · have hnext : w.generation = .int e.nextGeneration := by
        rw [← hgeneration]
        exact congrArg Prod.snd hserves
      exact absurd hnext (h.generation_ne_next hw)
  · rcases h.goes_on_or_initial h' hr' with ⟨r, hr, hstart⟩ | ⟨_, _, hidle⟩
    · have hlt : r.generation < e.nextGeneration := h.generation_lt (h.at?_of_mem hr)
      have hgeneration : r'.generation = r.generation := congrArg Start.generation hstart
      have hnext : e.nextGeneration = r'.generation := Value.int.inj (congrArg Prod.snd hserves')
      omega
    · exact ⟨.idle, hidle, rfl⟩

/-- A walk that is found by an address after a moment has not been told to stop. -/
private theorem Attended.unstopped_after (ha : e.Attended l) (h : e.Holds l starts) {a : Value}
    (hfound : (a, i) ∈ (e.after m).walkOf) (hw' : (e.after m).walk? i = some w') :
    w'.stopping = false := by
  rcases h.fares_or_starts hw' with ⟨w, hw, hfares⟩ | ⟨a, _, rfl⟩
  · rcases h.found_before hfound with ⟨hbefore, hcancels⟩ | hnone
    · have hunstopped := ha.found_unstopped a i w hbefore hw
      cases hfares with
      | kept => exact hunstopped
      | told hcancels' => exact absurd hcancels' hcancels
      | turned => exact (w.turnWith_isOf _ _ _ _).stopping_eq.trans hunstopped
    · rw [hw] at hnone
      cases hnone
  · rfl

/-- A walk that is not over after a moment is found by its address, or has been told to stop. -/
private theorem Attended.found_after (ha : e.Attended l) (h : e.Holds l starts)
    (hw' : (e.after m).walk? i = some w') (hrunning : w'.isRunning = true)
    (hunstopped : w'.stopping = false) : (w'.address, i) ∈ (e.after m).walkOf := by
  rcases h.fares_or_starts hw' with ⟨w, hw, hfares⟩ | ⟨a, hstarts, rfl⟩
  · have haddress : w'.address = w.address := congrArg Prod.fst hfares.serves_eq
    rw [haddress]
    cases hfares with
    | kept _ hcancels =>
      have hfound := ha.unstopped_found i _ hw hrunning hunstopped
      exact (h.found_or_cancels hfound m).resolve_right hcancels
    | told =>
      have hwas : w.isRunning = true := by
        rw [← hrunning, Walk.isRunning, Walk.isRunning, Walk.phase_told]
      rw [Walk.stopping_told (Or.inl hwas)] at hunstopped
      cases hunstopped
    | turned hmove =>
      have hwas : w.isRunning = true := by
        by_contra hover
        rw [Walk.turnWith_of_over (Bool.eq_false_iff.mpr hover)] at hrunning
        exact hover hrunning
      rw [(w.turnWith_isOf _ _ _ _).stopping_eq] at hunstopped
      have hfound := ha.unstopped_found i w hw hwas hunstopped
      exact (h.found_or_cancels hfound m).resolve_right (not_cancels_of_turn hmove)
  · exact hstarts.found

/-- Every moment keeps up that walks and registrations go together. -/
private theorem Attended.after (ha : e.Attended l) (he : e.Reachable) (h : e.Holds l starts)
    (h' : (e.after m).Holds l' starts') : (e.after m).Attended l' := by
  constructor
  case stands => exact fun i w' r' hw' hr' hserves' => ha.stands_after he h h' hw' hr' hserves'
  case found_unstopped => exact fun a i w' hfound hw' => ha.unstopped_after h hfound hw'
  case unstopped_found =>
    exact fun i w' hw' hrunning hunstopped => ha.found_after h hw' hrunning hunstopped
  case delay_eq =>
    intro i w' hw'
    rw [h.stateDelay_after m]
    rcases h.fares_or_starts hw' with ⟨w, hw, hfares⟩ | ⟨a, _, rfl⟩
    · exact hfares.delay_eq.trans (ha.delay_eq i w hw)
    · rfl

end Moment

/-- In every engine that is reached, walks and registrations go together. -/
theorem Reachable.attended (he : e.Reachable) :
    ∀ l starts, e.Holds l starts → e.Attended l := by
  have hall : e.Reachable ∧ ∃ l starts, e.Holds l starts ∧ e.Attended l := by
    refine Reachable.induction
      (P := fun e => e.Reachable ∧ ∃ l starts, e.Holds l starts ∧ e.Attended l)
      (fun e he => ⟨he.reachable, [], [], he.holds, ?_⟩)
      (fun e m ⟨he, l, starts, h, ha⟩ => ⟨he.run [m], ?_⟩) he
    · have hnone (i : Nat) : e.walk? i = none := by simp [Roster.walk?, he.walks_eq]
      constructor
      case stands => simp
      case found_unstopped => simp [hnone]
      case unstopped_found => simp [hnone]
      case delay_eq => simp [hnone]
    · obtain ⟨l', starts', _, _, h'⟩ := h.exists_after m
      exact ⟨l', starts', h', ha.after he h h'⟩
  obtain ⟨_, l, starts, h, ha⟩ := hall
  intro l' starts' h'
  obtain rfl := h.eq_of_registry h'.registry_eq
  exact ha

section Open

/-- An engine that was never closed has come out of a run. -/
theorem IsOpen.reachable (he : e.IsOpen) : e.Reachable := by
  obtain ⟨new, ms, hnew, _, rfl⟩ := he
  exact ⟨new, ms, hnew, rfl⟩

/-- A run without a closing leaves an engine that was never closed. -/
theorem IsNew.isOpen (hnew : new.IsNew) (hms : ∀ m ∈ ms, m.move ≠ .close) : (new.run ms).IsOpen :=
  ⟨new, ms, hnew, hms, rfl⟩

/-- A new registration has a walk that is found by its address. -/
private theorem Holds.exists_found_of_next (h : e.Holds l starts)
    (h' : (e.after m).Holds l' starts') (hr' : r' ∈ l') (hnext : r'.generation = e.nextGeneration) :
    ∃ i, (.text r'.address, i) ∈ (e.after m).walkOf := by
  have hmem : r'.start ∈ starts' := h'.sublist.subset (List.mem_map_of_mem hr')
  obtain ⟨i, hi⟩ := List.mem_iff_getElem?.mp hmem
  obtain ⟨w', hw', haddress, hgeneration⟩ := h'.walk_of_start hi
  refine ⟨i, ?_⟩
  rcases h.fares_or_starts hw' with ⟨w, hw, hfares⟩ | ⟨a, hstarts, rfl⟩
  · have hsame : w'.generation = w.generation := congrArg Prod.snd hfares.serves_eq
    refine absurd ?_ (h.generation_ne_next hw)
    rw [← hsame, hgeneration, ← hnext]
    rfl
  · have hfound := hstarts.found
    rw [show Value.text a = .text r'.address from haddress] at hfound
    exact hfound

/-- The walk that is found by the address of a registration attends to it. -/
private theorem Holds.exists_attends_of_found (h : e.Holds l starts) (he : e.Reachable)
    (hr : r ∈ l) (hfound : (.text r.address, i) ∈ e.walkOf) :
    ∃ w state, e.Attends r i w state := by
  have ha := he.attended l starts h
  obtain ⟨s, hat, hserved⟩ := h.served_of_walkOf hfound
  obtain rfl : s = r := Option.some.inj (hat.symm.trans (h.at?_of_mem hr))
  obtain ⟨w, hw, hserves⟩ := Option.map_eq_some_iff.mp ((List.getElem?_map ..).symm.trans hserved)
  obtain ⟨state, hstate, hstands⟩ := ha.stands i w s hw hr hserves
  exact ⟨w, state, h.walkNumber?_eq_some_iff.mpr hfound, hw, hserves,
    ha.found_unstopped _ i w hfound hw, ha.delay_eq i w hw, hstate, hstands⟩

/-- A moment other than closing leaves the walk attending to the registration, if this goes on. -/
theorem Attends.after (hattends : e.Attends r i w state) (he : e.Reachable) (h : e.Holds l starts)
    (hr : r ∈ l) (hm : m.move ≠ .close) (h' : (e.after m).Holds l' starts') (hr' : r' ∈ l')
    (hstart : r'.start = r.start) :
    ∃ w' state', (e.after m).Attends r' i w' state' ∧ e.Tends m i w state w' state' := by
  have haddress : r'.address = r.address := congrArg Start.address hstart
  have hbefore := h.walkNumber?_eq_some_iff.mp hattends.found
  have hfound : (.text r'.address, i) ∈ (e.after m).walkOf := by
    rw [haddress]
    refine (h.found_or_cancels hbefore m).resolve_right ?_
    rintro ⟨a, ha, hremoves | hclose⟩
    · -- a registration that goes on has not been removed
      obtain rfl := h.eq_of_walkOf hbefore ha
      have hnone := (h.step_to h').at?_of_removes hremoves
      rw [← haddress, h'.at?_of_mem hr'] at hnone
      cases hnone
    · exact hm hclose
  obtain ⟨w', state', hattends'⟩ := h'.exists_attends_of_found (he.run [m]) hr' hfound
  obtain ⟨w'', hw'', hfares⟩ := h.exists_fares hattends.walk?_eq m
  obtain rfl := Option.some.inj (hw''.symm.trans hattends'.walk?_eq)
  obtain ⟨state'', hstate'', htends, _⟩ := h.tends he hattends.walk?_eq hr
    hattends.serves_eq hattends.state_eq hattends.stands h' hfares hr' hstart
  obtain rfl := StateCode.state.inj (hstate''.symm.trans hattends'.state_eq)
  exact ⟨w'', state'', hattends', htends⟩

/-- As long as the engine is not closed, a walk attends to each registration that is made. -/
theorem Reachable.exists_attends_since (he : e.Reachable) (hms : ∀ m ∈ ms, m.move ≠ .close)
    (h : (e.run ms).Holds l starts) (hr : r ∈ l) (hsince : e.nextGeneration ≤ r.generation) :
    ∃ i w state, (e.run ms).Attends r i w state := by
  -- by induction on the run from its end: the registration goes on, or it has just been made
  induction ms using List.reverseRecOn generalizing l starts r with
  | nil =>
    have hlt : r.generation < e.nextGeneration := h.generation_lt (h.at?_of_mem hr)
    omega
  | append_singleton ms m ih =>
    have hbefore : ∀ n ∈ ms, n.move ≠ .close := fun n hn => hms n (List.mem_append_left _ hn)
    have hm : m.move ≠ .close := hms m (by simp)
    obtain ⟨l₀, starts₀, h₀⟩ := (he.run ms).exists_holds
    rw [run_concat] at h ⊢
    rcases h₀.goes_on_or_initial h hr with ⟨r₀, hr₀, hstart⟩ | ⟨_, hnext, _⟩
    · have hgeneration : r.generation = r₀.generation := congrArg Start.generation hstart
      obtain ⟨i, w, state, hattends⟩ := ih hbefore h₀ hr₀ (hgeneration ▸ hsince)
      obtain ⟨w', state', hattends', _⟩ := hattends.after (he.run ms) h₀ hr₀ hm h hr hstart
      exact ⟨i, w', state', hattends'⟩
    · obtain ⟨i, hfound⟩ := h₀.exists_found_of_next h hr hnext
      obtain ⟨w, state, hattends⟩ := h.exists_attends_of_found ((he.run ms).run [m]) hr hfound
      exact ⟨i, w, state, hattends⟩

/-- A registration in a run was there at its beginning, or it was made since. -/
theorem Holds.before_or_since (h : e.Holds l starts) (h' : (e.run ms).Holds l' starts')
    (hr' : r' ∈ l') : (∃ r ∈ l, r'.start = r.start) ∨ e.nextGeneration ≤ r'.generation := by
  induction ms generalizing e l starts with
  | nil =>
    obtain rfl := h.eq_of_registry h'.registry_eq
    exact Or.inl ⟨r', hr', rfl⟩
  | cons m ms ih =>
    obtain ⟨between, starts₁, hstep, _, hbetween⟩ := h.exists_after m
    rcases ih hbetween h' with ⟨r₁, hr₁, hstart⟩ | hsince
    · rcases h.goes_on_or_initial hbetween hr₁ with ⟨r, hr, hstart'⟩ | ⟨_, hnext, _⟩
      · exact Or.inl ⟨r, hr, hstart.trans hstart'⟩
      · have hgeneration : r'.generation = r₁.generation := congrArg Start.generation hstart
        exact Or.inr (by omega)
    · exact Or.inr (Int.le_trans hstep.next_le hsince)

/-- All registrations of a new engine are made in its run. -/
theorem IsNew.made_since (hnew : new.IsNew) (h : (new.run ms).Holds l starts) (hr : r ∈ l) :
    new.nextGeneration ≤ r.generation := by
  rcases hnew.holds.before_or_since h hr with ⟨r₀, hr₀, _⟩ | hsince
  · cases hr₀
  · exact hsince

/-- As long as the engine has not been closed, a walk attends to each registration. -/
theorem IsOpen.exists_attends (he : e.IsOpen) (h : e.Holds l starts) (hr : r ∈ l) :
    ∃ i w state, e.Attends r i w state := by
  obtain ⟨new, ms, hnew, hms, rfl⟩ := he
  exact hnew.reachable.exists_attends_since hms h hr (hnew.made_since h hr)

end Open

section Over

/-- A walk that attends to an established session has nothing left to do. -/
theorem Attends.over_or_observing (h : e.Attends r i w .established) :
    w.isRunning = false ∨ w.isObserving = true := by
  have hstands := h.stands
  unfold Walk.StandsAt at hstands
  unfold Walk.isRunning Walk.isObserving
  cases hphase : w.phase with
  | scheduled =>
    rw [hphase] at hstands
    cases hstands
  | asleep =>
    rw [hphase] at hstands
    exact absurd rfl hstands
  | observing => exact Or.inr rfl
  | ended | calledOff | failed => exact Or.inl rfl

/-- A walk that attends to a registration is over only when there is nothing left to do, or when an
observer has called it off. -/
theorem Attends.established_or_calledOff (h : e.Attends r i w state)
    (hover : w.isRunning = false) : state = .established ∨ w.isCalledOff = true := by
  have hstands := h.stands
  unfold Walk.StandsAt at hstands
  unfold Walk.isRunning at hover
  cases hphase : w.phase with
  | scheduled | asleep | observing =>
    rw [hphase] at hover
    cases hover
  | ended =>
    rw [hphase, h.unstopped] at hstands
    exact Or.inl (hstands.resolve_left Bool.false_ne_true)
  | calledOff => exact Or.inr (by rw [Walk.isCalledOff, hphase])
  | failed =>
    rw [hphase] at hstands
    exact hstands.elim

end Over

end Engine

end Peering
