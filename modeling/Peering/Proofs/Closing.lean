import Peering.Proofs.Orphans
import Peering.Proofs.Readings

/-!
# Closing the engine

Closing requests the cancellation of all walks and forgets by which addresses they are found. Peers,
sessions and generations stay. If no observer swallows the cancellation, none of these walks does
anything any more, so the sessions that are there stay on their course for good. The engine itself
can still be used: its peers can be updated and removed, and a peer that is added from then on has a
walk like any other, as long as no observer calls it off.
-/

namespace Peering

open Registration

namespace Walk

variable {w : Walk}

/-- The walk is over, or it has been told to stop. -/
def IsSettled (w : Walk) : Prop := w.isRunning = false ∨ w.stopping = true

/-- What has been told to stop is settled, and so is a walk that was. -/
theorem IsSettled.told (h : w.IsSettled) : w.told.IsSettled := by
  rcases h with hover | hstopping
  · left
    rw [Walk.told, hover]
    exact hover
  · exact Or.inr (stopping_told (Or.inr hstopping))

/-- A turn of a settled walk that heeds its cancellation writes nothing, and it only reports. -/
theorem IsSettled.turnWith (h : w.IsSettled) (r : Registry) (now : Float) (o : Observers) :
    (w.turnWith true r now o).registry = r ∧
      (w.turnWith true r now o).effects.all Effect.isReport = true := by
  rcases h with hover | hstopping
  · rw [turnWith_of_over hover]
    exact ⟨rfl, rfl⟩
  · rw [turnWith_of_heeded (by rw [hstopping]; rfl)]
    refine ⟨(w.halt_quiet r).registry_eq, ?_⟩
    unfold halt
    cases w.phase <;> rfl

/-- A settled walk stays so in every turn. -/
theorem IsSettled.walk_turnWith (h : w.IsSettled) (heeding : Bool) (r : Registry) (now : Float)
    (o : Observers) : (w.turnWith heeding r now o).walk.IsSettled := by
  rcases h with hover | hstopping
  · rw [turnWith_of_over hover]
    exact Or.inl hover
  · exact Or.inr ((w.turnWith_isOf heeding r now o).stopping_eq.trans hstopping)

end Walk

namespace Engine

/-- In the run no observer swallows the cancellation of a walk with a number below a bound: it
reaches the walk at its next turn. -/
def HeedsBelow (n : Nat) (ms : List Moment) : Prop :=
  ∀ m ∈ ms, ∀ i o heeding, m.move = .turn i o heeding → i < n → heeding = true

/-- All requests that change peers are served, unless the fault switch is on. -/
structure ServesRequests (e : Engine) : Prop where
  /-- A valid peer at an address that is not registered is added under the next generation. -/
  adds : ∀ input p a now, e.faults.isOn = false → input.peer = .ok p → p.validate = .ok a →
    p.isCopyable = true → e.registry.peerOf.get? (.text a) = none →
    e.Adds ⟨.call (.addPeer input), now⟩ (.text a) ∧
      (e.after ⟨.call (.addPeer input), now⟩).IsLive (.text a) (.int e.nextGeneration)
  /-- The configuration of a registered peer is replaced, and its session is left alone. -/
  updates : ∀ input p a q now, e.faults.isOn = false → input.peer = .ok p → p.validate = .ok a →
    p.isCopyable = true → e.registry.peerOf.get? (.text a) = some q →
    (e.meet ⟨.call (.updatePeer input), now⟩).result = .ok .done ∧
      (e.after ⟨.call (.updatePeer input), now⟩).registry.peerOf.get? (.text a) =
        some (Registry.updated q p now) ∧
      (e.after ⟨.call (.updatePeer input), now⟩).sessionAt? (.text a) = e.sessionAt? (.text a)
  /-- A registered peer is removed, and its address can be added again. -/
  removes : ∀ a q now, e.faults.isOn = false → e.registry.peerOf.get? a = some q →
    e.Removes ⟨.call (.removePeer a), now⟩ a ∧
      (e.after ⟨.call (.removePeer a), now⟩).registry.peerOf.get? a = none ∧
      (e.after ⟨.call (.removePeer a), now⟩).faults.isOn = false

/-- In a run the walk of a registration takes it towards being established. -/
structure IsWalked (e : Engine) (ms : List Moment) (a g : Value) (s : Session) (state : State) :
    Prop where
  /-- The session of the registration is in a state. -/
  session : (e.run ms).sessionAt? a = some s
  state_eq : s.state = .state state
  /-- Unless this is the last one, exactly one walk is at work for the address. -/
  hasOneWalk : state ≠ .established → ∃ i, (e.run ms).HasOneWalk a i
  /-- Each time that the walk has woken up, the session has moved to the next state. -/
  wakes_eq : (e.visits a g ms).countP Visit.wakes = state.number
  /-- The session is established after six turns in which no observer asks for a delay. -/
  established : 6 ≤ (e.visits a g ms).countP (fun v => v.observers.isPrompt) → state = .established

/-- Closing freezes the engine, and the closed engine can be used in a run. -/
structure ClosesInto (e closed : Engine) (ms : List Moment) : Prop where
  /-- Closing changes no peer, session or generation. -/
  registry_eq : closed.registry = e.registry
  nextGeneration_eq : closed.nextGeneration = e.nextGeneration
  /-- No walk is found by an address any more. -/
  walkOf_eq : closed.walkOf = []
  /-- The sessions that are there never change their states, histories and times again. -/
  frozen : ∀ a g s s', e.IsLive a g → e.sessionAt? a = some s → (closed.run ms).IsLive a g →
    (closed.run ms).sessionAt? a = some s' → s'.SameCourse s
  /-- The walks that are there call no observer and ask for no delay; they only report. -/
  silent : ∀ m i o, m.move = .turn i o true → i < e.walks.length →
    ((closed.run ms).meet m).effects.all Effect.isReport = true
  /-- Until a peer is added, the figures tell of no active walk. -/
  inactive : (∀ before m since a, ms = before ++ m :: since → ¬(closed.run before).Adds m a) →
    ∃ figures, (closed.run ms).statistics = .ok figures ∧ figures.activeWalks = 0
  /-- Peers can be added, updated and removed. -/
  serves : (closed.run ms).ServesRequests
  /-- Until the engine is closed again, each peer that has been added since is walked as ever, if no
  observer raises the cancellation error in the turns of its walk. -/
  walks : (∀ m ∈ ms, m.move ≠ .close) → ∀ a g, closed.nextGeneration ≤ g →
    (closed.run ms).IsLive a (.int g) →
      (∀ v ∈ closed.visits a (.int g) ms, v.observers.cancels = false) →
        ∃ s state, closed.IsWalked ms a (.int g) s state

variable {e : Engine} {l l' : List Registration} {starts starts' : List Start} {m : Moment}
  {ms : List Moment} {r r' : Registration} {n i : Nat}

section Frozen

/-- All walks with a number below a bound are settled. -/
def SettlesBelow (e : Engine) (n : Nat) : Prop :=
  ∀ i < n, ∃ w, e.walk? i = some w ∧ w.IsSettled

/-- Settled walks stay so. -/
private theorem SettlesBelow.after (hs : e.SettlesBelow n) (h : e.Holds l starts) (m : Moment) :
    (e.after m).SettlesBelow n := by
  intro i hi
  obtain ⟨w, hw, hsettled⟩ := hs i hi
  obtain ⟨w', hw', hfares⟩ := h.exists_fares hw m
  refine ⟨w', hw', ?_⟩
  cases hfares with
  | kept => exact hsettled
  | told => exact hsettled.told
  | turned => exact hsettled.walk_turnWith _ _ _ _

private theorem SettlesBelow.run (hs : e.SettlesBelow n) (he : e.Reachable) (ms : List Moment) :
    (e.run ms).SettlesBelow n := by
  induction ms using List.reverseRecOn with
  | nil => exact hs
  | append_singleton ms m ih =>
    obtain ⟨l, starts, h⟩ := (he.run ms).exists_holds
    rw [run_concat]
    exact ih.after h m

/-- A turn of a settled walk that heeds its cancellation leaves the tables alone, and reports. -/
private theorem SettlesBelow.turn (hs : e.SettlesBelow n) {o : Observers}
    (hmove : m.move = .turn i o true) (hi : i < n) :
    (e.after m).registry = e.registry ∧ (e.meet m).effects.all Effect.isReport = true := by
  obtain ⟨w, hw, hsettled⟩ := hs i hi
  rw [after_turn hmove, meet_turn hmove, turnOf_of_some hw]
  exact hsettled.turnWith e.registry m.now o

/-- The walk of a registration keeps its number. -/
private theorem Holds.exists_walk_run (h : e.Holds l starts) (he : e.Reachable) (hr : r ∈ l)
    (ms : List Moment) :
    ∃ j < e.walks.length, ∃ w, (e.run ms).walk? j = some w ∧ w.serves = r.start.values := by
  induction ms using List.reverseRecOn with
  | nil =>
    obtain ⟨j, hj⟩ := List.mem_iff_getElem?.mp (h.sublist.subset (List.mem_map_of_mem hr))
    obtain ⟨w, hw, haddress, hgeneration⟩ := h.walk_of_start hj
    exact ⟨j, (List.getElem?_eq_some_iff.mp hw).1, w, hw, Prod.ext haddress hgeneration⟩
  | append_singleton ms m ih =>
    obtain ⟨j, hj, w, hw, hserves⟩ := ih
    obtain ⟨l', starts', h'⟩ := (he.run ms).exists_holds
    obtain ⟨w', hw', hfares⟩ := h'.exists_fares hw m
    rw [run_concat]
    exact ⟨j, hj, w', hw', hfares.serves_eq.trans hserves⟩

/-- Where all walks are settled and heed their cancellation, the sessions stay on their course. -/
private theorem SettlesBelow.sameCourse (hs : e.SettlesBelow e.walks.length) (he : e.Reachable)
    (h : e.Holds l starts) (hheeds : HeedsBelow e.walks.length ms) (hr : r ∈ l)
    (h' : (e.run ms).Holds l' starts') (hr' : r' ∈ l') (hstart : r'.start = r.start) :
    r'.session.SameCourse r.session := by
  -- by induction on the run from its end: only the walk of the registration could move the session
  induction ms using List.reverseRecOn generalizing l' starts' r' with
  | nil =>
    obtain rfl := h.eq_of_registry h'.registry_eq
    obtain rfl := h.eq_of_address hr hr' (congrArg Start.address hstart)
    exact .refl _
  | append_singleton ms m ih =>
    obtain ⟨l₀, starts₀, h₀⟩ := (he.run ms).exists_holds
    obtain ⟨j, hj, w, hw, hserves⟩ := h.exists_walk_run he hr ms
    rw [run_concat] at h'
    rcases h₀.goes_on_or_initial h' hr' with ⟨r₀, hr₀, hstart₀⟩ | ⟨_, hnext, _⟩
    · have hsame := ih (fun n hn => hheeds n (List.mem_append_left _ hn)) h₀ hr₀
        (hstart₀.symm.trans hstart)
      rcases (h₀.carries_of_mem hr₀ h' hr' hstart₀).course with hcourse | ⟨hhas, _⟩
      · exact hcourse.trans hsame
      · obtain ⟨i, o, heeding, v, hmove, hv, _, hgeneration⟩ := hhas
        have hsame_generation : w.generation = v.generation := by
          have hown : w.generation = .int r.generation := congrArg Prod.snd hserves
          have hr₀g : r₀.generation = r.generation :=
            congrArg Start.generation (hstart₀.symm.trans hstart)
          rw [hown, hgeneration, hr₀g]
        obtain rfl := h₀.eq_of_walk_generation hw hv hsame_generation
        obtain rfl := hheeds m (by simp) j o heeding hmove hj
        obtain ⟨hregistry, _⟩ := (hs.run he ms).turn hmove hj
        obtain rfl := Registry.ofList_injective
          (h₀.registry_eq.symm.trans (hregistry.symm.trans h'.registry_eq))
        obtain rfl := h₀.eq_of_address hr₀ hr' (congrArg Start.address hstart₀)
        exact hsame
    · have hgeneration : r'.generation = r.generation := congrArg Start.generation hstart
      refine absurd ?_ (h₀.generation_ne_next hw)
      rw [← hnext, hgeneration]
      exact congrArg Prod.snd hserves

end Frozen

section Inactive

/-- Where no walk is found by an address and no peer is added, none is found afterwards. -/
private theorem Holds.walkOf_of_not_adds (h : e.Holds l starts) (hnone : e.walkOf = [])
    (hadds : ∀ a, ¬e.Adds m a) : (e.after m).walkOf = [] := by
  obtain ⟨l', starts', _, _, h'⟩ := h.exists_after m
  refine List.eq_nil_iff_forall_not_mem.mpr fun ⟨a, i⟩ hfound => ?_
  rcases h.found_before hfound with ⟨hbefore, _⟩ | hwalk
  · rw [hnone] at hbefore
    cases hbefore
  · obtain ⟨s, _, _, hi⟩ := h'.walkOf_live _ hfound
    obtain ⟨w', hw', _⟩ := h'.walk_of_start hi
    rcases h.fares_or_starts hw' with ⟨w, hw, _⟩ | ⟨b, hstarts, _⟩
    · rw [hwalk] at hw
      cases hw
    · exact hadds _ hstarts.adds

/-- Where no walk is found by an address, none is found as long as no peer is added. -/
private theorem Reachable.walkOf_run (he : e.Reachable) (hnone : e.walkOf = [])
    (hadds : ∀ before m since a, ms = before ++ m :: since → ¬(e.run before).Adds m a) :
    (e.run ms).walkOf = [] := by
  induction ms using List.reverseRecOn with
  | nil => exact hnone
  | append_singleton ms m ih =>
    obtain ⟨l, starts, h⟩ := (he.run ms).exists_holds
    rw [run_concat]
    refine h.walkOf_of_not_adds (ih fun before n since a hms => ?_) fun a => ?_
    · exact hadds before n (since ++ [m]) a (by simp [hms])
    · exact hadds ms m [] a rfl

end Inactive

section Requests

variable {input : PeerInput} {p : Peer} {a : String}

private theorem Holds.get?_peerOf (h : e.Holds l starts) (v : Value) :
    e.registry.peerOf.get? v = (at? l v).map Registration.peer := by
  rw [h.registry_eq]
  exact get?_column l Registration.peer v

/-- A valid peer at a new address is registered under the next generation. -/
private theorem Holds.adds_of_new (h : e.Holds l starts) (hoff : e.faults.isOn = false)
    (hp : input.peer = .ok p) (hvalid : p.validate = .ok a) (hcopy : p.isCopyable = true)
    (hnone : at? l (.text a) = none) (now : Float) :
    e.Adds ⟨.call (.addPeer input), now⟩ (.text a) ∧
      (e.after ⟨.call (.addPeer input), now⟩).IsLive (.text a) (.int e.nextGeneration) := by
  obtain ⟨hengine, hresult⟩ := addPeer_of_new h.registry_eq hoff hp hvalid hnone hcopy now
  refine ⟨⟨input, p, rfl, hp, Peer.address_of_validate hvalid, ?_⟩, ?_⟩
  · change (e.addPeer input now).result.map (fun _ => Answer.done) = .ok .done
    rw [hresult]
    rfl
  · change (e.addPeer input now).engine.IsLive (.text a) (.int e.nextGeneration)
    rw [hengine, IsLive, enrolled]
    simp only [Registry.ofList, get?_column, at?_append_singleton, hnone]
    simp [Registration.initial]

/-- The peer of a registration is replaced by a valid one. -/
private theorem Holds.updates_of_registered (h : e.Holds l starts) (hoff : e.faults.isOn = false)
    (hp : input.peer = .ok p) (hvalid : p.validate = .ok a) (hcopy : p.isCopyable = true)
    (hr : at? l (.text a) = some r) (now : Float) :
    (e.meet ⟨.call (.updatePeer input), now⟩).result = .ok .done ∧
      (e.after ⟨.call (.updatePeer input), now⟩).registry =
        .ofList (adjust l (.text a) fun s => { s with peer := Registry.updated r.peer p now }) := by
  have haddress := Peer.address_of_validate hvalid
  obtain ⟨hengine, hresult⟩ :=
    updatePeer_of_registered h.registry_eq hoff hp (haddress ▸ hr) hvalid hcopy now
  constructor
  · change (e.updatePeer input now).result.map (fun _ => Answer.done) = .ok .done
    rw [hresult]
    rfl
  · change (e.updatePeer input now).engine.registry = _
    rw [hengine, haddress]
    rfl

/-- A registered peer is removed, and the fault switch stays off. -/
private theorem Holds.removes_of_registered (h : e.Holds l starts) (hoff : e.faults.isOn = false)
    {v : Value} (hr : at? l v = some r) (now : Float) :
    e.Removes ⟨.call (.removePeer v), now⟩ v ∧
      (e.after ⟨.call (.removePeer v), now⟩).faults.isOn = false := by
  obtain ⟨hengine, hresult⟩ := removePeer_of_registered h.registry_eq hoff hr
  refine ⟨⟨rfl, ?_⟩, ?_⟩
  · change (e.removePeer v).result.map (fun _ => Answer.done) = .ok .done
    rw [hresult]
    rfl
  · change (e.removePeer v).engine.faults.isOn = false
    rw [hengine]
    exact hoff

/-- An engine that is reached serves its requests. -/
theorem Reachable.servesRequests (he : e.Reachable) : e.ServesRequests := by
  obtain ⟨l, starts, h⟩ := he.exists_holds
  constructor
  case adds =>
    intro input p a now hoff hp hvalid hcopy hnone
    rw [h.get?_peerOf, Option.map_eq_none_iff] at hnone
    exact h.adds_of_new hoff hp hvalid hcopy hnone now
  case updates =>
    intro input p a q now hoff hp hvalid hcopy hq
    obtain ⟨r, hr, rfl⟩ := Option.map_eq_some_iff.mp ((h.get?_peerOf _).symm.trans hq)
    obtain ⟨hresult, hregistry⟩ := h.updates_of_registered hoff hp hvalid hcopy hr now
    have hat : at? (adjust l (.text a) fun s => { s with peer := Registry.updated r.peer p now })
        (.text a) = some { r with peer := Registry.updated r.peer p now } := by
      have hadjust := at?_adjust (l := l) (v := .text a)
        (g := fun s => { s with peer := Registry.updated r.peer p now }) (fun _ => rfl) (.text a)
      rw [hadjust, hr, Option.map_some, if_pos (matchesAt_iff.mpr (mem_of_at? hr).2)]
    refine ⟨hresult, ?_, ?_⟩
    · rw [hregistry]
      simp only [Registry.ofList, get?_column, hat, Option.map_some]
    · rw [sessionAt?, hregistry, h.sessionAt?_eq, hr]
      simp only [Registry.ofList, get?_column, hat, Option.map_some]
  case removes =>
    intro v q now hoff hq
    obtain ⟨r, hr, rfl⟩ := Option.map_eq_some_iff.mp ((h.get?_peerOf _).symm.trans hq)
    obtain ⟨hremoves, hoff'⟩ := h.removes_of_registered hoff hr now
    obtain ⟨l', starts', hstep, _, h'⟩ := h.exists_after ⟨.call (.removePeer v), now⟩
    refine ⟨hremoves, ?_, hoff'⟩
    rw [h'.get?_peerOf, hstep.at?_of_removes hremoves]
    rfl

end Requests

/-- As long as the engine is not closed, each peer that is added is walked towards being
established, if no observer calls off its walk. -/
theorem Reachable.exists_isWalked (he : e.Reachable) (hms : ∀ m ∈ ms, m.move ≠ .close) {a : Value}
    {g : Int} (hsince : e.nextGeneration ≤ g) (hlive : (e.run ms).IsLive a (.int g))
    (hnone : ∀ v ∈ e.visits a (.int g) ms, v.observers.cancels = false) :
    ∃ s state, e.IsWalked ms a (.int g) s state := by
  obtain ⟨l, starts, h⟩ := (he.run ms).exists_holds
  obtain ⟨r, hat, hgeneration⟩ := h.isLive_iff.mp hlive
  obtain ⟨hr, rfl⟩ := mem_of_at? hat
  obtain rfl := Value.int.inj hgeneration
  obtain ⟨i, w, state, hattends⟩ := he.exists_attends_since hms h hr hsince
  have hpaces := he.paces_since hms h hr hsince hattends
  have hcalledOff := hpaces.not_calledOff hnone
  refine ⟨r.session, state, ?_⟩
  constructor
  case session =>
    rw [h.sessionAt?_eq, hat]
    rfl
  case state_eq => exact hattends.state_eq
  case hasOneWalk =>
    exact fun hleft => ⟨i, hattends.hasOneWalk (he.run ms) h hr hleft hcalledOff⟩
  case wakes_eq => exact hpaces.wakes_eq
  case established =>
    intro hturns
    by_contra hleft
    have hbound := hpaces.prompt_le hleft hcalledOff
    have hremaining := w.remaining_pos hleft
    omega

/-- All walks of an engine that has been closed are settled. -/
private theorem Reachable.settles_close (he : e.Reachable) (hnone : e.walkOf = []) :
    e.SettlesBelow e.walks.length := by
  obtain ⟨l, starts, h⟩ := he.exists_holds
  intro i hi
  have hw : e.walk? i = some e.walks[i] := List.getElem?_eq_getElem hi
  refine ⟨_, hw, ?_⟩
  unfold Walk.IsSettled
  by_contra hactive
  rw [not_or, Bool.not_eq_false, Bool.not_eq_true] at hactive
  have hfound := (he.attended l starts h).unstopped_found i _ hw hactive.1 hactive.2
  rw [hnone] at hfound
  cases hfound

/-- Closing an engine that is reached leaves peers, sessions and generations as they are and freezes
the sessions, if no observer swallows a cancellation; and the engine can still be used. -/
theorem Reachable.close_freezes (he : e.Reachable) (hheeds : HeedsBelow e.walks.length ms) :
    e.ClosesInto e.close.1 ms := by
  have hclosed : e.close.1.Reachable := he.run [⟨.close, 0.0⟩]
  have hregistry : e.close.1.registry = e.registry := (Roster.cancelAll_eq _ _).1
  have hlength : e.close.1.walks.length = e.walks.length := by
    have hwalks := congrArg List.length (Roster.cancelAll_eq e.toRoster e.walkOf.values).2.1
    rwa [List.length_map, List.length_map] at hwalks
  have hsettles := hclosed.settles_close rfl
  rw [← hlength] at hheeds
  obtain ⟨l, starts, h⟩ := hclosed.exists_holds
  obtain ⟨l', starts', h'⟩ := (hclosed.run ms).exists_holds
  constructor
  case registry_eq => exact hregistry
  case nextGeneration_eq => rfl
  case walkOf_eq => rfl
  case frozen =>
    intro a g s s' hlive hs hlive' hs'
    rw [IsLive, ← hregistry] at hlive
    rw [sessionAt?, ← hregistry] at hs
    obtain ⟨r, hat, rfl, rfl⟩ := h.registration_of_isLive hlive hs
    obtain ⟨r', hat', hgeneration, rfl⟩ := h'.registration_of_isLive hlive' hs'
    obtain ⟨hr, rfl⟩ := mem_of_at? hat
    obtain ⟨hr', haddress⟩ := mem_of_at? hat'
    have hstart : r'.start = r.start := by
      rw [Registration.start, Registration.start, Value.int.inj hgeneration,
        Value.text.inj haddress]
    exact hsettles.sameCourse hclosed h hheeds hr h' hr' hstart
  case silent =>
    intro m i o hmove hi
    rw [← hlength] at hi
    exact ((hsettles.run hclosed ms).turn hmove hi).2
  case inactive =>
    intro hadds
    obtain ⟨figures, hfigures, hactive⟩ := (hclosed.run ms).exists_statistics
    refine ⟨figures, hfigures, ?_⟩
    rw [hactive, activeWalks, hclosed.walkOf_run rfl hadds]
    rfl
  case serves => exact (hclosed.run ms).servesRequests
  case walks =>
    exact fun hms a g hsince hlive hnone => hclosed.exists_isWalked hms hsince hlive hnone

/-- An engine with one walk that waits for an observer, one that sleeps, and one that has not begun.
-/
def busy : Engine :=
  ({} : Engine).run [
    ⟨.call (.addPeer (.record samplePeer)), 0.0⟩,
    ⟨.turn 0 {} true, 0.0⟩,
    ⟨.turn 0 { stateChange := some (.suspended 1.0) } true, 2.0⟩,
    ⟨.call (.addPeer (.record otherPeer)), 2.0⟩,
    ⟨.turn 1 {} true, 2.0⟩,
    ⟨.call (.addPeer (.record { samplePeer with address := .text "192.0.2.3" })), 2.0⟩]

/-- What follows when that engine has been closed: the walks end, the first peer is updated, and the
second one is removed and added again. -/
def reopenedRun : List Moment := [
  ⟨.turn 0 {} true, 3.0⟩, ⟨.turn 1 {} true, 3.0⟩, ⟨.turn 2 {} true, 3.0⟩,
  ⟨.call (.updatePeer (.record { samplePeer with multihop := .int 2 })), 4.0⟩,
  ⟨.call (.removePeer (.text "192.0.2.2")), 4.0⟩,
  ⟨.call (.addPeer (.record otherPeer)), 4.0⟩,
  ⟨.turn 3 {} true, 4.0⟩, ⟨.turn 3 {} true, 5.0⟩, ⟨.turn 3 {} true, 6.0⟩,
  ⟨.turn 3 {} true, 7.0⟩, ⟨.turn 3 {} true, 8.0⟩, ⟨.turn 3 {} true, 9.0⟩]

/-- The session of the first peer stays where it was, and that of the second one is established. -/
theorem close_freezes_busy :
    busy.Reachable ∧ HeedsBelow busy.walks.length reopenedRun ∧
      (∃ s s', busy.sessionAt? sampleAddress = some s ∧ s.state = .state .connect ∧
        (busy.close.1.run reopenedRun).sessionAt? sampleAddress = some s' ∧ s'.SameCourse s) ∧
      ∃ s, (busy.close.1.run reopenedRun).sessionAt? (.text "192.0.2.2") = some s ∧
        s.state = .state .established := by
  have hreachable : busy.Reachable := ⟨{}, _, ⟨rfl, rfl, rfl, rfl⟩, rfl⟩
  have hheeds : HeedsBelow busy.walks.length reopenedRun := by
    intro m hm i o heeding hmove _
    simp only [reopenedRun, List.mem_cons, List.not_mem_nil, or_false] at hm
    rcases hm with rfl | rfl | rfl | rfl | rfl | rfl | rfl | rfl | rfl | rfl | rfl | rfl <;>
      simp_all
  have hms : ∀ m ∈ reopenedRun, m.move ≠ .close := by
    intro m hm
    simp only [reopenedRun, List.mem_cons, List.not_mem_nil, or_false] at hm
    rcases hm with rfl | rfl | rfl | rfl | rfl | rfl | rfl | rfl | rfl | rfl | rfl | rfl <;> simp
  have hcloses := hreachable.close_freezes hheeds
  refine ⟨hreachable, hheeds, ⟨_, _, rfl, rfl, rfl, ?_⟩, ?_⟩
  · exact hcloses.frozen sampleAddress (.int 1) _ _ rfl rfl rfl rfl
  · obtain ⟨s, state, hwalked⟩ :=
      hcloses.walks hms (.text "192.0.2.2") 4 (by decide) rfl (by decide)
    obtain rfl := hwalked.established (by decide)
    exact ⟨s, hwalked.session, hwalked.state_eq⟩

end Engine

end Peering
