import Peering.Proofs.Attendance
import Peering.Proofs.Traces

/-!
# The pace of walks

As long as the engine has not been closed, the delays of a walk count the states of its session: it
asks for one delay in each state but the last, and each delay that passes moves the session to the
next state. Whatever observers do and whatever else happens, no delay is asked for twice, and none
is left out. So a session is established once five delays have passed, and this takes at most six
turns in which no observer asks for a delay of its own. Only an observer that raises the cancellation
error keeps a session from being established: the walk that has called it ends there.
-/

namespace Peering

open Registration

/-- The turns that a walk needs at most until its session is established, if no observer asks for a
delay of its own. -/
def Walk.remaining (w : Walk) (state : State) : Nat :=
  5 - state.number + if w.isAsleep then 0 else 1

/-- What the turns of a walk and the delays that it has asked for say of where it stands. -/
structure Walk.Paces (w : Walk) (state : State) (visits : List Visit)
    (sleeps : List (Value × Value × Float)) : Prop where
  /-- There is a delay for each state that has been entered, and one for the walk if it sleeps. -/
  sleeps_eq : sleeps = List.replicate (state.number + if w.isAsleep then 1 else 0)
    (w.address, w.generation, w.delay)
  /-- Each delay that has passed has moved the session. -/
  wakes_eq : visits.countP Visit.wakes = state.number
  /-- Turns in which no observer asks for a delay bring the session nearer to being established, as
  long as the walk has not been called off. -/
  prompt_le : state ≠ .established → w.isCalledOff = false →
    visits.countP (fun v => v.observers.isPrompt) + w.remaining state ≤ 6
  /-- The walk has been called off only in a turn in which an observer raised the cancellation
  error. -/
  exists_cancels : w.isCalledOff = true → ∃ v ∈ visits, v.observers.cancels = true

/-- A state that is not the last has a number below five. -/
theorem State.number_lt {state : State} (hleft : state ≠ .established) : state.number < 5 := by
  cases state <;> first | decide | exact absurd rfl hleft

namespace Walk

variable {w w' : Walk} {state next : State} {visits : List Visit}
  {sleeps : List (Value × Value × Float)} {r : Registry} {now : Float} {o : Observers}
  {heeding : Bool}

/-- A walk needs another turn until the session is established. -/
theorem remaining_pos (w : Walk) (hleft : state ≠ .established) : 0 < w.remaining state := by
  have hnumber := State.number_lt hleft
  unfold remaining
  omega

/-- A walk that stands where it stood keeps the pace. -/
theorem Paces.of_phase_eq (h : w.Paces state visits sleeps) (hphase : w'.phase = w.phase)
    (hcontinues : w'.Continues w) : w'.Paces state visits sleeps := by
  have hasleep : w'.isAsleep = w.isAsleep := by rw [isAsleep, isAsleep, hphase]
  have hcalledOff : w'.isCalledOff = w.isCalledOff := by rw [isCalledOff, isCalledOff, hphase]
  constructor
  case sleeps_eq =>
    rw [hasleep, hcontinues.address_eq, hcontinues.generation_eq, hcontinues.delay_eq]
    exact h.sleeps_eq
  case wakes_eq => exact h.wakes_eq
  case prompt_le =>
    rw [remaining, hasleep, hcalledOff]
    exact h.prompt_le
  case exists_cancels =>
    rw [hcalledOff]
    exact h.exists_cancels

/-- A walk that has been called off after a turn was called off before, or an observer has raised
the cancellation error in it. -/
private theorem Paces.cancels_turnWith (h : w.Paces state visits sleeps)
    (hcalledOff : (w.turnWith heeding r now o).walk.isCalledOff = true) :
    ∃ v ∈ visits ++ [{ walk := w, observers := o, heeding }], v.observers.cancels = true := by
  by_cases hbefore : w.isCalledOff = true
  · obtain ⟨v, hv, hcancels⟩ := h.exists_cancels hbefore
    exact ⟨v, List.mem_append_left _ hv, hcancels⟩
  · exact ⟨_, List.mem_append_right _ (List.mem_singleton.mpr rfl),
      cancels_of_turnWith hcalledOff (Bool.eq_false_iff.mpr hbefore)⟩

/-- A walk has not been called off if no observer has raised the cancellation error in its turns. -/
theorem Paces.not_calledOff (h : w.Paces state visits sleeps)
    (hnone : ∀ v ∈ visits, v.observers.cancels = false) : w.isCalledOff = false := by
  by_contra hcalledOff
  obtain ⟨v, hv, hcancels⟩ := h.exists_cancels (Bool.eq_true_of_not_eq_false hcalledOff)
  rw [hnone v hv] at hcancels
  cases hcancels

/-- A walk that has not been called off after a turn was not called off before. -/
private theorem not_calledOff_of_turnWith
    (h : (w.turnWith heeding r now o).walk.isCalledOff = false) : w.isCalledOff = false := by
  by_contra hbefore
  rw [isCalledOff_turnWith (Bool.eq_true_of_not_eq_false hbefore)] at h
  cases h

/-- What a turn leaves of the turns that are needed. After one in which no observer asks for a delay
the walk is asleep, unless it has been called off. -/
private theorem remaining_turnWith
    (hstands : (w.turnWith heeding r now o).walk.StandsAt state) (hunstopped : w.stopping = false)
    (hleft : state ≠ .established)
    (hcalledOff : (w.turnWith heeding r now o).walk.isCalledOff = false) :
    (if o.isPrompt then 1 else 0) + (w.turnWith heeding r now o).walk.remaining state ≤
      5 - state.number + 1 := by
  have hisOf := w.turnWith_isOf heeding r now o
  by_cases ho : o.isPrompt = true
  · have hobserving := isObserving_turnWith ho w heeding r now
    have hbegun := hisOf.hasBegun
    have hstopping := hisOf.stopping_eq.trans hunstopped
    have hasleep : (w.turnWith heeding r now o).walk.isAsleep = true := by
      unfold StandsAt at hstands
      unfold isObserving at hobserving
      unfold isAsleep
      cases hphase : (w.turnWith heeding r now o).walk.phase with
      | scheduled => exact absurd hphase hbegun
      | asleep => rfl
      | observing rest n => simp [hphase] at hobserving
      | ended =>
        rw [hphase, hstopping] at hstands
        rcases hstands with hstopped | hlast
        · cases hstopped
        · exact absurd hlast hleft
      | calledOff => simp [isCalledOff, hphase] at hcalledOff
      | failed f =>
        rw [hphase] at hstands
        exact hstands.elim
    rw [if_pos ho, remaining, if_pos hasleep]
    omega
  · rw [if_neg ho, remaining]
    split <;> omega

/-- A turn asks for the delay of the walk once, or not at all. -/
private theorem naps_turnWith :
    (w.turnWith heeding r now o).walk.naps =
      List.replicate (if (w.turnWith heeding r now o).walk.isAsleep then 1 else 0)
        (w.address, w.generation, w.delay) := by
  obtain ⟨haddress, hgeneration, hdelay⟩ := w.turnWith_continues heeding r now o
  rw [naps, haddress, hgeneration, hdelay]
  split <;> rfl

/-- A walk that has a turn in which its session is left alone keeps the pace. -/
theorem Paces.stays (h : w.Paces state visits sleeps) (hawake : w.isAsleep = false)
    (hunstopped : w.stopping = false)
    (hstands : (w.turnWith heeding r now o).walk.StandsAt state) :
    (w.turnWith heeding r now o).walk.Paces state
      (visits ++ [{ walk := w, observers := o, heeding }])
      (sleeps ++ (w.turnWith heeding r now o).walk.naps) := by
  obtain ⟨haddress, hgeneration, hdelay⟩ := w.turnWith_continues heeding r now o
  constructor
  case sleeps_eq =>
    rw [h.sleeps_eq, hawake, naps_turnWith, haddress, hgeneration, hdelay,
      List.replicate_append_replicate]
    simp only [Bool.false_eq_true, if_false, Nat.add_zero]
  case wakes_eq =>
    have hwakes : Visit.wakes { walk := w, observers := o, heeding } = false := by
      simp [Visit.wakes, hawake]
    rw [List.countP_append, h.wakes_eq, List.countP_singleton, hwakes]
    rfl
  case prompt_le =>
    intro hleft hcalledOff
    have hbefore := h.prompt_le hleft (not_calledOff_of_turnWith hcalledOff)
    have hafter := remaining_turnWith hstands hunstopped hleft hcalledOff
    rw [remaining, hawake, if_neg Bool.false_ne_true] at hbefore
    rw [List.countP_append, List.countP_singleton]
    change _ + (if o.isPrompt = true then 1 else 0) + _ ≤ 6
    omega
  case exists_cancels => exact h.cancels_turnWith

/-- A walk that wakes up and moves its session keeps the pace. -/
theorem Paces.moves (h : w.Paces state visits sleeps) (hasleep : w.isAsleep = true)
    (hunstopped : w.stopping = false) (hnext : state.next? = some next)
    (hstands : (w.turnWith heeding r now o).walk.StandsAt next) :
    (w.turnWith heeding r now o).walk.Paces next
      (visits ++ [{ walk := w, observers := o, heeding }])
      (sleeps ++ (w.turnWith heeding r now o).walk.naps) := by
  obtain ⟨haddress, hgeneration, hdelay⟩ := w.turnWith_continues heeding r now o
  have hnumber : next.number = state.number + 1 := State.number_next hnext
  constructor
  case sleeps_eq =>
    rw [h.sleeps_eq, hasleep, naps_turnWith, haddress, hgeneration, hdelay, hnumber,
      List.replicate_append_replicate]
    simp only [if_true]
  case wakes_eq =>
    have hwakes : Visit.wakes { walk := w, observers := o, heeding } = true := by
      simp [Visit.wakes, hasleep, hunstopped]
    rw [List.countP_append, h.wakes_eq, List.countP_singleton, hwakes, hnumber]
    rfl
  case prompt_le =>
    intro hleft hcalledOff
    have hfirst : state ≠ .established := by
      rintro rfl
      cases hnext
    have hlast := State.number_lt hleft
    have hbefore := h.prompt_le hfirst (not_calledOff_of_turnWith hcalledOff)
    have hafter := remaining_turnWith hstands hunstopped hleft hcalledOff
    rw [remaining, hasleep, if_pos rfl] at hbefore
    rw [List.countP_append, List.countP_singleton]
    change _ + (if o.isPrompt = true then 1 else 0) + _ ≤ 6
    omega
  case exists_cancels => exact h.cancels_turnWith

end Walk

namespace Engine

variable {e new : Engine} {l : List Registration} {starts : List Start} {m : Moment}
  {ms : List Moment} {r : Registration} {i : Nat} {w : Walk} {state : State} {a g : Value}

/-- One walk attends to a registration, and its session is in one state. -/
theorem Attends.unique {j : Nat} {v : Walk} {state' : State} (h : e.Attends r i w state)
    (h' : e.Attends r j v state') : i = j ∧ w = v ∧ state = state' := by
  obtain rfl := Option.some.inj (h.found.symm.trans h'.found)
  obtain rfl := Option.some.inj (h.walk?_eq.symm.trans h'.walk?_eq)
  obtain rfl := StateCode.state.inj (h.state_eq.symm.trans h'.state_eq)
  exact ⟨rfl, rfl, rfl⟩

/-- A turn for a registration is one of the walk that attends to it. -/
theorem Attends.turn_of_hasTurn (h : e.Attends r i w state) (hholds : e.Holds l starts)
    (hturn : e.HasTurn m (.text r.address) (.int r.generation)) :
    ∃ o heeding, m.move = .turn i o heeding := by
  obtain ⟨j, o, heeding, v, hmove, hv, _, hgeneration⟩ := hturn
  have hsame : w.generation = v.generation :=
    (congrArg Prod.snd h.serves_eq).trans hgeneration.symm
  obtain rfl := hholds.eq_of_walk_generation h.walk?_eq hv hsame
  exact ⟨o, heeding, hmove⟩

/-- No cancellation reaches a walk that attends to a registration. -/
private theorem Attends.not_heeded (h : e.Attends r i w state) {heeding : Bool} :
    ¬(heeding && w.stopping) = true := by
  rw [h.unstopped, Bool.and_false]
  exact Bool.false_ne_true

/-- A moment at which the registration goes on lets its walk keep the pace. -/
private theorem Attends.paces_after {r' : Registration} {j : Nat} {w' : Walk} {state' : State}
    {l' : List Registration} {starts' : List Start} {visits : List Visit}
    {sleeps : List (Value × Value × Float)} (hattends : e.Attends r i w state)
    (hpaces : w.Paces state visits sleeps) (he : e.Reachable) (h : e.Holds l starts) (hr : r ∈ l)
    (hm : m.move ≠ .close) (h' : (e.after m).Holds l' starts') (hr' : r' ∈ l')
    (hstart : r'.start = r.start) (hattends' : (e.after m).Attends r' j w' state') :
    w'.Paces state' (visits ++ e.visitsAt (.text r.address) (.int r.generation) m)
      (sleeps ++ sleepsIn (e.doneFor (.text r.address) (.int r.generation) m)) := by
  obtain ⟨w₁, state₁, hattends₁, htends⟩ := hattends.after he h hr hm h' hr' hstart
  obtain ⟨rfl, rfl, rfl⟩ := hattends₁.unique hattends'
  have hown : w.serves = (.text r.address, .int r.generation) := hattends.serves_eq
  cases htends with
  | waits hturn hphase =>
    have hnone : ¬e.HasTurn m (.text r.address) (.int r.generation) := by
      intro hhas
      obtain ⟨o, heeding, hmove⟩ := hattends.turn_of_hasTurn h hhas
      exact hturn o heeding hmove
    have hserves : w₁.serves = w.serves :=
      hattends'.serves_eq.trans ((congrArg Start.values hstart).trans hattends.serves_eq.symm)
    obtain ⟨haddress, hgeneration⟩ := Prod.mk.inj hserves
    have hdelay : w₁.delay = w.delay :=
      hattends'.delay_eq.trans ((h.stateDelay_after m).trans hattends.delay_eq.symm)
    rw [h.visitsAt_of_not_hasTurn hnone, h.doneFor_of_not_hasTurn hnone, sleepsIn_nil,
      List.append_nil, List.append_nil]
    exact hpaces.of_phase_eq hphase ⟨haddress, hgeneration, hdelay⟩
  | stays hmove hheeded =>
    have hawake : w.isAsleep = false :=
      Bool.eq_false_iff.mpr fun hasleep => hattends.not_heeded (hheeded hasleep)
    rw [h.turn_visitsAt hmove hattends.walk?_eq hown,
      h.turn_sleepsIn hmove hattends.walk?_eq hown]
    exact hpaces.stays hawake hattends.unstopped hattends'.stands
  | moves hmove hasleep hnext =>
    rw [h.turn_visitsAt hmove hattends.walk?_eq hown,
      h.turn_sleepsIn hmove hattends.walk?_eq hown]
    exact hpaces.moves hasleep hattends.unstopped hnext hattends'.stands

/-- The walk of a new registration has not had a turn yet. -/
private theorem Holds.phase_of_next (h : e.Holds l starts) (hw : (e.after m).walk? i = some w)
    (hnext : w.generation = .int e.nextGeneration) : w.phase = .scheduled := by
  rcases h.fares_or_starts hw with ⟨v, hv, hfares⟩ | ⟨a, _, rfl⟩
  · have hsame : w.generation = v.generation := congrArg Prod.snd hfares.serves_eq
    exact absurd (hsame.symm.trans hnext) (h.generation_ne_next hv)
  · rfl

/-- The walk of a new registration has not been late yet. -/
private theorem paces_scheduled (hphase : w.phase = .scheduled) : w.Paces .idle [] [] where
  sleeps_eq := by simp [Walk.isAsleep, hphase, State.number]
  wakes_eq := rfl
  prompt_le _ _ := by simp [Walk.remaining, Walk.isAsleep, hphase, State.number]
  exists_cancels h := by simp [Walk.isCalledOff, hphase] at h

/-- Nothing is done for a registration before it is made. -/
private theorem Holds.not_served_next (h : e.Holds l starts) (b : String) :
    (.text b, .int e.nextGeneration) ∉ e.served := by
  intro hmem
  obtain ⟨_, k, hvalues, hlt⟩ := h.values_of_served hmem
  have hk : e.nextGeneration = k := Value.int.inj (congrArg Prod.snd hvalues)
  omega

/-- As long as the engine is not closed, the walk that attends to a registration made in the
meantime keeps the pace. -/
theorem Reachable.paces_since (he : e.Reachable) (hms : ∀ m ∈ ms, m.move ≠ .close)
    (h : (e.run ms).Holds l starts) (hr : r ∈ l) (hsince : e.nextGeneration ≤ r.generation)
    (hattends : (e.run ms).Attends r i w state) :
    w.Paces state (e.visits (.text r.address) (.int r.generation) ms)
      (sleepsIn (e.traceOf (.text r.address) (.int r.generation) ms)) := by
  -- by induction on the run from its end: the registration goes on, or it has just been made
  induction ms using List.reverseRecOn generalizing l starts r i w state with
  | nil =>
    have hlt : r.generation < e.nextGeneration := h.generation_lt (h.at?_of_mem hr)
    omega
  | append_singleton ms m ih =>
    have hbefore : ∀ n ∈ ms, n.move ≠ .close := fun n hn => hms n (List.mem_append_left _ hn)
    obtain ⟨l₀, starts₀, h₀⟩ := (he.run ms).exists_holds
    rw [run_concat] at h hattends
    rw [visits, traceOf, gather_concat, gather_concat, sleepsIn_append]
    rcases h₀.goes_on_or_initial h hr with ⟨r₀, hr₀, hstart⟩ | ⟨_, hnext, hidle⟩
    · have haddress : r.address = r₀.address := congrArg Start.address hstart
      have hgeneration : r.generation = r₀.generation := congrArg Start.generation hstart
      have hsince₀ : e.nextGeneration ≤ r₀.generation := hgeneration ▸ hsince
      obtain ⟨i₀, w₀, state₀, hattends₀⟩ := he.exists_attends_since hbefore h₀ hr₀ hsince₀
      have hpaces := hattends₀.paces_after (ih hbefore h₀ hr₀ hsince₀ hattends₀) (he.run ms) h₀ hr₀
        (hms m (by simp)) h hr hstart hattends
      rw [haddress, hgeneration]
      exact hpaces
    · have hgeneration : w.generation = .int (e.run ms).nextGeneration := by
        rw [← hnext]
        exact congrArg Prod.snd hattends.serves_eq
      obtain rfl := StateCode.state.inj (hidle.symm.trans hattends.state_eq)
      have hturn : ¬(e.run ms).HasTurn m (.text r.address) (.int r.generation) := by
        rintro ⟨j, o, heeding, v, _, hv, _, hv'⟩
        exact h₀.generation_ne_next hv (hnext ▸ hv')
      have hserved : (.text r.address, .int r.generation) ∉ (e.run ms).served := by
        rw [hnext]
        exact h₀.not_served_next r.address
      rw [h₀.visitsAt_of_not_hasTurn hturn, h₀.doneFor_of_not_hasTurn hturn,
        he.gather_of_not_served (fun h => h.visitsAt_of_not_hasTurn) hserved,
        he.gather_of_not_served (fun h => h.doneFor_of_not_hasTurn) hserved]
      exact paces_scheduled (h₀.phase_of_next hattends.walk?_eq hgeneration)

/-- The walk that attends to a registration keeps the pace. -/
theorem IsNew.paces (hnew : new.IsNew) (hms : ∀ m ∈ ms, m.move ≠ .close)
    (h : (new.run ms).Holds l starts) (hr : r ∈ l) (hattends : (new.run ms).Attends r i w state) :
    w.Paces state (new.visits (.text r.address) (.int r.generation) ms)
      (sleepsIn (new.traceOf (.text r.address) (.int r.generation) ms)) :=
  hnew.reachable.paces_since hms h hr (hnew.made_since h hr) hattends

/-- A run does not change the delay. -/
theorem IsNew.stateDelay_run (hnew : new.IsNew) (ms : List Moment) :
    (new.run ms).stateDelay = new.stateDelay := by
  induction ms using List.reverseRecOn with
  | nil => rfl
  | append_singleton ms m ih =>
    obtain ⟨l, starts, h⟩ := (hnew.reachable.run ms).exists_holds
    rw [run_concat]
    exact (h.stateDelay_after m).trans ih

/-- The walk of a registration keeps the pace: the delays that it has asked for in a run count the
states of the session, and each one that passes moves the session on. -/
structure KeepsPace (new : Engine) (ms : List Moment) (a g : Value) (i : Nat) (w : Walk)
    (s : Session) (state : State) : Prop where
  /-- The walk is the one that is found by the address, and it was started for the registration. -/
  found : (new.run ms).walkNumber? a = some i
  walk?_eq : (new.run ms).walk? i = some w
  serves_eq : w.serves = (a, g)
  /-- The session of the registration is in a state. -/
  session : (new.run ms).sessionAt? a = some s
  state_eq : s.state = .state state
  /-- The walk has asked for one delay in each state before this one, and for another one if it
  sleeps. All of them are the delay of the engine. -/
  sleeps_eq : sleepsIn (new.traceOf a g ms) =
    List.replicate (state.number + if w.isAsleep then 1 else 0) (a, g, new.stateDelay)
  /-- As many delays have passed as there are states before this one. -/
  wakes_eq : (new.visits a g ms).countP Visit.wakes = state.number
  /-- The session is established once five delays have passed, and not before. -/
  established_iff : s.isEstablished = true ↔ (new.visits a g ms).countP Visit.wakes = 5
  /-- When a delay passes, the session moves to the next state. -/
  wake_moves : ∀ m o heeding, m.move = .turn i o heeding → w.isAsleep = true →
    ((new.run ms).after m).IsLive a g ∧ ∃ next s', state.next? = some next ∧
      ((new.run ms).after m).sessionAt? a = some s' ∧ s'.state = .state next
  /-- The walk is over only when the session is established, or when it has been called off. -/
  over_established : w.isRunning = false → state = .established ∨ w.isCalledOff = true
  /-- It is called off only in one of its turns in which an observer raises the cancellation
  error. -/
  exists_cancels : w.isCalledOff = true → ∃ v ∈ new.visits a g ms, v.observers.cancels = true
  /-- When the session is established, the walk is over, or it still waits for an observer. -/
  established_over : state = .established → w.isRunning = false ∨ w.isObserving = true
  /-- It is over in the very turn in which the session is established and no observer asks for a
  delay of its own, or in which the last observer returns. -/
  ends_at_once : ∀ m o heeding s', m.move = .turn i o heeding → o.isPrompt = true →
    ((new.run ms).after m).sessionAt? a = some s' → s'.isEstablished = true →
      ((new.run ms).after m).isRunning i = false

/-- What is there after a turn of the walk that attends to a registration. -/
private theorem IsNew.exists_attends_of_turn (hnew : new.IsNew)
    (h : (new.run ms).Holds l starts) (hr : r ∈ l) (hattends : (new.run ms).Attends r i w state)
    {o : Observers} {heeding : Bool} (hmove : m.move = .turn i o heeding) :
    ∃ r' state', ((new.run ms).after m).IsLive (.text r.address) (.int r.generation) ∧
      ((new.run ms).after m).sessionAt? (.text r.address) = some r'.session ∧
      ((new.run ms).after m).Attends r' i
        (w.turnWith heeding (new.run ms).registry m.now o).walk state' ∧
      (w.isAsleep = true → state.next? = some state') := by
  obtain ⟨l', starts', hstep, _, h'⟩ := h.exists_after m
  rcases hstep.removes_or_carries (h.at?_of_mem hr) with ⟨hremoves, _⟩ | ⟨r', hat', hcarries⟩
  · exact absurd hremoves (not_removes_of_turn hmove _)
  have hm : m.move ≠ .close := by simp [hmove]
  obtain ⟨w', state', hattends', htends⟩ := hattends.after (hnew.reachable.run ms) h hr hm h'
    (mem_of_at? hat').1 hcarries.start_eq
  have hlive := h'.isLive_iff.mpr ⟨r', hat', congrArg Value.int hcarries.generation_eq⟩
  have hsession : ((new.run ms).after m).sessionAt? (.text r.address) = some r'.session := by
    rw [h'.sessionAt?_eq, hat']
    rfl
  have hwalk : ((new.run ms).after m).walk? i =
      some (w.turnWith heeding (new.run ms).registry m.now o).walk := by
    rw [after_turn hmove, turnOf_of_some hattends.walk?_eq]
    exact List.getElem?_set_self (List.getElem?_eq_some_iff.mp hattends.walk?_eq).1
  obtain rfl := Option.some.inj (hwalk.symm.trans hattends'.walk?_eq)
  refine ⟨r', state', hlive, hsession, hattends', fun hasleep => ?_⟩
  generalize (w.turnWith heeding (new.run ms).registry m.now o).walk = w' at htends
  cases htends with
  | waits hwaits => exact absurd hmove (hwaits o heeding)
  | stays _ hheeded => exact absurd (hheeded hasleep) hattends.not_heeded
  | moves _ _ hnext => exact hnext

/-- As long as the engine is not closed, the walks of all registrations keep the pace, whatever the
other walks, the callers and the observers do. A walk comes to its end before the session is
established only if an observer that it calls raises the cancellation error. -/
theorem IsNew.walks_keep_pace (hnew : new.IsNew) (hms : ∀ m ∈ ms, m.move ≠ .close)
    (hlive : (new.run ms).IsLive a g) :
    ∃ i w s state, KeepsPace new ms a g i w s state := by
  have hopen := hnew.isOpen hms
  obtain ⟨l, starts, h⟩ := hopen.reachable.exists_holds
  obtain ⟨r, hat, rfl⟩ := h.isLive_iff.mp hlive
  obtain ⟨hr, rfl⟩ := mem_of_at? hat
  obtain ⟨i, w, state, hattends⟩ := hopen.exists_attends h hr
  have hpaces := hnew.paces hms h hr hattends
  refine ⟨i, w, r.session, state, ?_⟩
  constructor
  case found => exact hattends.found
  case walk?_eq => exact hattends.walk?_eq
  case serves_eq => exact hattends.serves_eq
  case session =>
    rw [h.sessionAt?_eq, hat]
    rfl
  case state_eq => exact hattends.state_eq
  case sleeps_eq =>
    obtain ⟨haddress, hgeneration⟩ := Prod.mk.inj hattends.serves_eq
    rw [hpaces.sleeps_eq, haddress, hgeneration, hattends.delay_eq, hnew.stateDelay_run ms]
    rfl
  case wakes_eq => exact hpaces.wakes_eq
  case established_iff =>
    rw [hpaces.wakes_eq, Session.isEstablished_of_state hattends.state_eq]
    cases state <;> decide
  case wake_moves =>
    intro m o heeding hmove hasleep
    obtain ⟨r', state', hlive', hsession', hattends', hnext⟩ :=
      hnew.exists_attends_of_turn h hr hattends hmove
    exact ⟨hlive', state', r'.session, hnext hasleep, hsession', hattends'.state_eq⟩
  case over_established => exact hattends.established_or_calledOff
  case exists_cancels => exact hpaces.exists_cancels
  case established_over =>
    rintro rfl
    exact hattends.over_or_observing
  case ends_at_once =>
    intro m o heeding s' hmove ho hs' hestablished
    obtain ⟨r', state', _, hsession', hattends', _⟩ :=
      hnew.exists_attends_of_turn h hr hattends hmove
    obtain rfl := Option.some.inj (hsession'.symm.trans hs')
    obtain rfl := (Session.isEstablished_of_state hattends'.state_eq).mp hestablished
    have hobserving := Walk.isObserving_turnWith ho w heeding (new.run ms).registry m.now
    rw [Roster.isRunning, hattends'.walk?_eq, Option.any_some]
    exact hattends'.over_or_observing.resolve_right (Bool.eq_false_iff.mp hobserving)

/-- When the observer of state changes raises the cancellation error, the walk that has called it is
over although the session of the registration is not established, nobody has closed the engine, and
the peer has not been removed. -/
theorem over_at_connect_calledOffRun :
    IsNew {} ∧ (∀ m ∈ calledOffRun, m.move ≠ .close) ∧
      (({} : Engine).run calledOffRun).IsLive sampleAddress (.int 1) ∧
      (({} : Engine).run calledOffRun).walkNumber? sampleAddress = some 0 ∧
      (({} : Engine).run calledOffRun).isRunning 0 = false ∧
      ∃ s, (({} : Engine).run calledOffRun).sessionAt? sampleAddress = some s ∧
        s.state = .state .connect ∧ s.isEstablished = false := by
  have hnew : IsNew {} := ⟨rfl, rfl, rfl, rfl⟩
  exact ⟨hnew, not_close_of_mem_calledOffRun, rfl, rfl, rfl, _, rfl, rfl, rfl⟩

/-- A run in which a peer is removed and added again. The first walk wakes up too late, and an
observer of the second one fails and later asks for a delay of its own. -/
def pacedRun : List Moment := [
  ⟨.call (.addPeer (.record samplePeer)), 0.0⟩,
  ⟨.turn 0 {} true, 0.0⟩,
  ⟨.call (.removePeer sampleAddress), 1.0⟩,
  ⟨.call (.addPeer (.record samplePeer)), 1.0⟩,
  ⟨.turn 1 {} true, 1.0⟩,
  ⟨.turn 0 {} false, 2.0⟩,
  ⟨.turn 1 { stateChange := some (.raised "no") } true, 3.0⟩,
  ⟨.turn 1 { stateChange := some (.suspended 1.0) } true, 5.0⟩]

/-- The second session has come to its third state, and two delays have been asked for. -/
theorem walks_keep_pace_pacedRun :
    IsNew {} ∧ (∀ m ∈ pacedRun, m.move ≠ .close) ∧
      (({} : Engine).run pacedRun).IsLive sampleAddress (.int 2) ∧
      ∃ w s, KeepsPace {} pacedRun sampleAddress (.int 2) 1 w s .active ∧ w.isAsleep = false := by
  have hnew : IsNew {} := ⟨rfl, rfl, rfl, rfl⟩
  have hopen : ∀ m ∈ pacedRun, m.move ≠ .close := by
    intro m hm
    simp only [pacedRun, List.mem_cons, List.not_mem_nil, or_false] at hm
    rcases hm with rfl | rfl | rfl | rfl | rfl | rfl | rfl | rfl <;> simp
  have hlive : (({} : Engine).run pacedRun).IsLive sampleAddress (.int 2) := rfl
  obtain ⟨i, w, s, state, hpace⟩ := hnew.walks_keep_pace hopen hlive
  obtain rfl : 1 = i := Option.some.inj hpace.found
  have hasleep : w.isAsleep = false := by
    obtain rfl := Option.some.inj hpace.walk?_eq
    rfl
  have hstate : s.state = .state .active := by
    obtain rfl := Option.some.inj hpace.session
    rfl
  obtain rfl := StateCode.state.inj (hpace.state_eq.symm.trans hstate)
  exact ⟨hnew, hopen, hlive, w, s, hpace, hasleep⟩

end Engine

end Peering
