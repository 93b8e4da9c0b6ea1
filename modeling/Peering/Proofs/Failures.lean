import Peering.Proofs.Monitoring

/-!
# Failures that cannot occur

Some operations of the engine would fail on tables that do not fit together: a walk that finds no
session or one without a next state, a state without a name, a peer that is missing in one of the
tables. In an engine that is reached, nothing of this happens. Each session is in one of the six
states, and a walk that is asleep and still the one of its registration finds the session that it
left, which nobody else has moved.
-/

namespace Peering

open Registration

namespace Walk

variable {w : Walk} {r : Registry}

/-- A walk that stands where the state of its session puts it has not failed. -/
theorem StandsAt.failure?_eq {state : State} (h : w.StandsAt state) : w.failure? = none := by
  unfold StandsAt at h
  unfold failure?
  cases hphase : w.phase with
  | failed f =>
    rw [hphase] at h
    exact h.elim
  | scheduled | asleep | observing | ended | calledOff => rfl

section Gone

variable (hgone : r.live? w.address w.generation = .ok none)
include hgone

private theorem failure?_proceed_of_gone (n : Notice) (told : Telling) :
    (w.proceed r n told).walk.failure? = none := by
  unfold proceed
  split
  · rfl
  · rfl
  · split
    · rfl
    · rw [lookAhead, hgone]
      rfl

/-- A walk whose registration is gone does not fail in its turns. -/
private theorem failure?_turnWith_of_gone (hw : w.failure? = none) (heeding : Bool) (now : Float)
    (o : Observers) : (w.turnWith heeding r now o).walk.failure? = none := by
  rcases w.turnWith_eq heeding r now o with hhalt | hresume
  · rw [hhalt, halt]
    cases hphase : w.phase with
    | scheduled | asleep | observing => rfl
    | ended | calledOff | failed => exact hw
  · rw [hresume, resume]
    cases hphase : w.phase with
    | scheduled =>
      simp only [lookAhead, hgone]
      rfl
    | asleep =>
      simp only [step, hgone]
      rfl
    | observing rest n =>
      simp only [goOn]
      split
      · exact failure?_proceed_of_gone hgone n _
      · exact failure?_proceed_of_gone hgone n .all
      · rfl
      · exact failure?_proceed_of_gone hgone n .calledOff
    | ended | calledOff | failed => exact hw

end Gone

/-- A walk that wakes up and moves its session first reports this with the names of both states. -/
private theorem head?_step {s : Session} {state next : State} {now : Float} {o : Observers}
    (hlive : r.live? w.address w.generation = .ok (some s)) (hstate : s.state = .state state)
    (hadvance : (s.advance now).2 = .ok next) :
    (w.step r now o).effects.head? =
      some (w.report .info ("State transition: " ++ state.name ++ " -> " ++ next.name)) := by
  rcases hpair : s.advance now with ⟨moved, result⟩
  rw [hpair] at hadvance
  obtain rfl : result = .ok next := hadvance
  simp only [step, hlive, hpair, hstate]
  rfl

end Walk

namespace Engine

/-- What would fail inside the engine does not. -/
structure IsSound (e : Engine) : Prop where
  /-- No walk has failed. -/
  walks : ∀ w ∈ e.walks, w.failure? = none
  /-- No walk fails at its next turn, whatever the clock shows and whatever observers do. -/
  turns : ∀ w ∈ e.walks, ∀ heeding now o,
    (w.turnWith heeding e.registry now o).walk.failure? = none
  /-- A walk that wakes up and is the one of the live registration finds a session which has a
  next state, moves it there, and has names for both states. -/
  wakes : ∀ w ∈ e.walks, w.isAsleep = true →
    e.registry.isCurrent w.address w.generation = .ok true →
    ∃ s state next, e.registry.getSession w.address = .ok s ∧ s.isEstablished = false ∧
      s.state = .state state ∧ state.next? = some next ∧
      ∀ now o, (s.advance now).2 = .ok next ∧ (w.step e.registry now o).effects.head? =
        some (w.report .info ("State transition: " ++ state.name ++ " -> " ++ next.name))
  /-- The sessions can be counted by state. -/
  counts : ∃ counts, e.registry.countByState = .ok counts
  /-- What is there to be deleted is in all tables. -/
  deletes : ∀ a p, e.registry.getPeer a = .ok p →
    ∃ sessionOf generationOf, e.registry.sessionOf.remove? a = some sessionOf ∧
      e.registry.generationOf.remove? a = some generationOf
  /-- Whatever a monitor of the engine finds changed at a poll can be put into words. -/
  events : ∀ rounds round current,
    (((({ engine := e } : Lookout).run rounds).found round).getAllSessions round.now).2 =
      .ok current →
    Monitor.AreDescribed
      (Event.between (({ engine := e } : Lookout).run rounds).monitor.sessions current)

variable {e : Engine} {l : List Registration} {starts : List Start} {w : Walk}

/-- No walk that has not failed fails at its next turn. -/
private theorem Holds.failure?_turnWith (he : e.Reachable) (h : e.Holds l starts)
    (hmem : w ∈ e.walks) (hw : w.failure? = none) (heeding : Bool) (now : Float) (o : Observers) :
    (w.turnWith heeding e.registry now o).walk.failure? = none := by
  obtain ⟨i, hi⟩ := List.mem_iff_getElem?.mp hmem
  by_cases hserves : ∃ r ∈ l, w.serves = r.start.values
  · obtain ⟨r, hr, hserves⟩ := hserves
    obtain ⟨state, hstate, hstands⟩ := (he.attended l starts h).stands i w r hi hr hserves
    obtain ⟨state', _, hstands'⟩ := Walk.turnWith_attends (h.live?_of_mem hr hserves)
      (h.live?_setSession hr hserves) hstate (he.countsNumbers l starts h r hr) hstands heeding
      now o
    exact hstands'.failure?_eq
  · have hgone := h.live?_eq_none hi fun r hr heq => hserves ⟨r, hr, heq⟩
    exact Walk.failure?_turnWith_of_gone hgone hw heeding now o

/-- No walk ever fails. -/
private theorem Reachable.failure?_eq (he : e.Reachable) : ∀ w ∈ e.walks, w.failure? = none := by
  have hall : e.Reachable ∧ ∀ w ∈ e.walks, w.failure? = none := by
    refine Reachable.induction (P := fun e => e.Reachable ∧ ∀ w ∈ e.walks, w.failure? = none)
      (fun e he => ⟨he.reachable, by simp [he.walks_eq]⟩)
      (fun e m ⟨he, hwalks⟩ => ⟨he.run [m], fun w' hmem' => ?_⟩) he
    obtain ⟨l, starts, h⟩ := he.exists_holds
    obtain ⟨i, hi⟩ := List.mem_iff_getElem?.mp hmem'
    rcases h.fares_or_starts hi with ⟨w, hw, hfares⟩ | ⟨a, _, rfl⟩
    · have hmem := List.mem_of_getElem? hw
      cases hfares with
      | kept => exact hwalks w' hmem
      | told =>
        rw [Walk.failure?, Walk.phase_told]
        exact hwalks w hmem
      | turned => exact h.failure?_turnWith he hmem (hwalks w hmem) _ _ _
    · rfl
  exact hall.2

/-- What a walk finds that wakes up and is the one of the live registration. -/
private theorem Holds.exists_session_of_asleep (he : e.Reachable) (h : e.Holds l starts)
    (hmem : w ∈ e.walks) (hasleep : w.isAsleep = true)
    (hcurrent : e.registry.isCurrent w.address w.generation = .ok true) :
    ∃ s state next, e.registry.getSession w.address = .ok s ∧ s.isEstablished = false ∧
      s.state = .state state ∧ state.next? = some next ∧
      ∀ now o, (s.advance now).2 = .ok next ∧ (w.step e.registry now o).effects.head? =
        some (w.report .info ("State transition: " ++ state.name ++ " -> " ++ next.name)) := by
  obtain ⟨i, hi⟩ := List.mem_iff_getElem?.mp hmem
  obtain ⟨r, hr, hserves⟩ : ∃ r ∈ l, w.serves = r.start.values := by
    by_contra hnone
    have hgone := h.live?_eq_none hi fun r hr heq => hnone ⟨r, hr, heq⟩
    rw [Registry.live?, hcurrent] at hgone
    simp only at hgone
    split at hgone <;> cases hgone
  obtain ⟨state, hstate, hstands⟩ := (he.attended l starts h).stands i w r hi hr hserves
  have hleft : state ≠ .established := by
    unfold Walk.isAsleep at hasleep
    unfold Walk.StandsAt at hstands
    cases hphase : w.phase with
    | asleep =>
      rw [hphase] at hstands
      exact hstands
    | scheduled | observing | ended | calledOff | failed =>
      rw [hphase] at hasleep
      cases hasleep
  obtain ⟨next, hnext⟩ := State.exists_next hleft
  have hadvance (now : Float) : (r.session.advance now).2 = .ok next :=
    (he.countsNumbers l starts h r hr).advance_eq_ok
      ((Session.next?_of_state hstate).trans (congrArg _ hnext)) now
  have haddress : w.address = .text r.address := congrArg Prod.fst hserves
  refine ⟨r.session, state, next, ?_, ?_, hstate, hnext, fun now o => ⟨hadvance now, ?_⟩⟩
  · rw [h.registry_eq, haddress]
    exact Registry.getSession_of_some (h.at?_of_mem hr)
  · rw [Bool.eq_false_iff]
    exact fun hestablished => hleft ((Session.isEstablished_of_state hstate).mp hestablished)
  · exact Walk.head?_step (h.live?_of_mem hr hserves) hstate (hadvance now)

/-- In every engine that is reached, nothing fails inside. -/
theorem Reachable.nothing_fails_inside (he : e.Reachable) : e.IsSound := by
  obtain ⟨l, starts, h⟩ := he.exists_holds
  constructor
  case walks => exact he.failure?_eq
  case turns =>
    exact fun w hmem => h.failure?_turnWith he hmem (he.failure?_eq w hmem)
  case wakes => exact fun w => h.exists_session_of_asleep he
  case counts =>
    obtain ⟨states, hstates, _⟩ := Session.exists_states (h.exists_state he)
    exact ⟨_, by rw [Registry.countByState, hstates]⟩
  case deletes =>
    intro a p hp
    rw [h.registry_eq] at hp ⊢
    cases hr : at? l a with
    | none =>
      rw [Registry.getPeer_of_none hr] at hp
      cases hp
    | some r => simp [Registry.ofList, Table.remove?, hr]
  case events =>
    intro rounds round current hread
    exact ((Lookout.isProper_mk he).run rounds).areDescribed hread

/-- Where one session is established and another walk sleeps, nothing fails inside. -/
theorem nothing_fails_inside_halfEstablished :
    halfEstablished.Reachable ∧ halfEstablished.walks.map Walk.isAsleep = [false, true] ∧
      halfEstablished.registry.countEstablished = 1 ∧ halfEstablished.IsSound := by
  have hreachable : halfEstablished.Reachable := ⟨{}, _, ⟨rfl, rfl, rfl, rfl⟩, rfl⟩
  exact ⟨hreachable, by decide +kernel, by decide +kernel, hreachable.nothing_fails_inside⟩

end Engine

end Peering
