import Peering.Proofs.Succession

/-!
# Only the walk of the live registration writes

A walk may go on after its registration has been removed, for a cancellation may reach it late
or never, and by then the address may be registered again. This file shows that such a walk does
no harm: it writes no session, it calls no observer of state changes, and the session of the later
registration is moved by the later walk alone.
-/

namespace Peering

open Registration

namespace Engine

/-- What happens at the moment is fenced: only the walk of a live registration writes, and it
writes the session of this registration only. -/
structure Fenced (e : Engine) (m : Moment) : Prop where
  /-- A walk whose registration is not live writes nothing and calls no observer of state
  changes. -/
  stale_quiet : ∀ a g, e.HasTurn m a g → ¬e.IsLive a g →
    (e.after m).registry = e.registry ∧ changesIn (e.meet m).effects = []
  /-- A walk writes nothing but the session at its address. -/
  turn_writes : ∀ a g, e.HasTurn m a g → (e.after m).registry = e.registry ∨
    ∃ s, (e.after m).registry = e.registry.setSession a s
  /-- The observer of state changes is called for a live registration only, and in a turn of its
  walk. -/
  change_live : ∀ c ∈ changesIn (e.meet m).effects, e.HasTurn m c.1 c.2.1 ∧ e.IsLive c.1 c.2.1
  /-- The session of a registration that goes on is moved by the walk of this registration
  only. -/
  moved_by_own : ∀ a g s s', e.IsLive a g → (e.after m).IsLive a g → e.sessionAt? a = some s →
    (e.after m).sessionAt? a = some s' → s'.SameCourse s ∨ e.HasTurn m a g
  /-- No two walks were started for one generation. -/
  walk_unique : ∀ i j v w, e.walk? i = some v → e.walk? j = some w →
    v.generation = w.generation → i = j
  /-- A walk goes on with the registration that it was started for. -/
  walk_continues : ∀ i w, e.walk? i = some w →
    ∃ w', (e.after m).walk? i = some w' ∧ w'.address = w.address ∧ w'.generation = w.generation

variable {e : Engine} {l l' : List Registration} {starts : List Start} {m : Moment}

/-- The walk that has the turn is the one that was started for the registration. -/
private theorem HasTurn.eq_of_turn {a g : Value} (h : e.HasTurn m a g) {i : Nat} {o : Observers}
    {heeding : Bool} {w : Walk} (hmove : m.move = .turn i o heeding)
    (hw : e.walk? i = some w) : w.address = a ∧ w.generation = g := by
  obtain ⟨j, o', heeding', w', hmove', hw', haddress, hgeneration⟩ := h
  rw [hmove] at hmove'
  obtain ⟨rfl, _, _⟩ := Move.turn.inj hmove'
  rw [hw] at hw'
  obtain rfl := Option.some.inj hw'
  exact ⟨haddress, hgeneration⟩

/-- A moment with a turn is quiet, or the walk moves the session of its live registration. -/
private theorem Step.quiet_or_moved (hstep : e.Step l m l') (he : e.registry = .ofList l)
    {a g : Value} (hturn : e.HasTurn m a g) :
    (e.after m).registry = e.registry ∧ changesIn (e.meet m).effects = [] ∨
      (∃ r, at? l a = some r ∧ .int r.generation = g) ∧
        ∃ s, (e.after m).registry = e.registry.setSession a s := by
  have hmove : ∃ i o heeding, m.move = .turn i o heeding := by
    obtain ⟨i, o, heeding, _, hmove, _⟩ := hturn
    exact ⟨i, o, heeding, hmove⟩
  obtain ⟨i, o, heeding, hmove⟩ := hmove
  cases hstep with
  | idle htables hchanges => exact Or.inl ⟨htables.registry_eq, hchanges⟩
  | quiet _ _ _ _ hafter hchanges =>
    left
    rw [hafter]
    exact ⟨rfl, hchanges⟩
  | @moved _ _ _ w w' r hmove' hw hr hgeneration _ _ hafter =>
    right
    obtain ⟨haddress, hgeneration'⟩ := hturn.eq_of_turn hmove' hw
    refine ⟨⟨r, haddress ▸ hr, hgeneration.symm.trans hgeneration'⟩,
      (r.session.advance m.now).1, ?_⟩
    rw [hafter, he, ← haddress, Registry.setSession_of_some hr]
  | added hmove' | removed hmove' | updated hmove' | noted hmove' | closed hmove' =>
    rw [hmove] at hmove'
    cases hmove'

/-- The observer of state changes is called only where a walk moves the session of its live
registration. -/
private theorem Step.changes (hstep : e.Step l m l') {c : Value × Value × StateCode × State}
    (hc : c ∈ changesIn (e.meet m).effects) :
    e.HasTurn m c.1 c.2.1 ∧ ∃ r, at? l c.1 = some r ∧ .int r.generation = c.2.1 := by
  have hcall {c' : Call} (hmove : m.move = .call c') : changesIn (e.meet m).effects = [] :=
    changesIn_meet_of_not_turn fun i o heeding => by simp [hmove]
  cases hstep with
  | idle _ hchanges | quiet _ _ _ _ _ hchanges =>
    rw [hchanges] at hc
    cases hc
  | added hmove | removed hmove | updated hmove | noted hmove =>
    rw [hcall hmove] at hc
    cases hc
  | closed hmove =>
    rw [changesIn_meet_of_not_turn fun i o heeding => by simp [hmove]] at hc
    cases hc
  | @moved i o heeding w w' r hmove hw hr hgeneration _ _ _ hchanges =>
    rw [hchanges] at hc
    split at hc
    · split at hc
      · obtain rfl := List.mem_singleton.mp hc
        exact ⟨⟨i, o, heeding, w, hmove, hw, rfl, rfl⟩, r, hr, hgeneration.symm⟩
      · cases hc
    · cases hc

namespace Holds

/-- What happens at a moment is fenced. -/
private theorem fenced (h : e.Holds l starts) (m : Moment) : e.Fenced m := by
  obtain ⟨l', starts', hstep, hgrows, h'⟩ := h.exists_after m
  constructor
  case stale_quiet =>
    intro a g hturn hstale
    rcases hstep.quiet_or_moved h.registry_eq hturn with hquiet | ⟨hlive, _⟩
    · exact hquiet
    · exact absurd (h.isLive_iff.mpr hlive) hstale
  case turn_writes =>
    intro a g hturn
    rcases hstep.quiet_or_moved h.registry_eq hturn with hquiet | ⟨_, hwrites⟩
    · exact Or.inl hquiet.1
    · exact Or.inr hwrites
  case change_live =>
    intro c hc
    obtain ⟨hturn, hlive⟩ := hstep.changes hc
    exact ⟨hturn, h.isLive_iff.mpr hlive⟩
  case moved_by_own =>
    intro a g s s' hlive hlive' hs hs'
    obtain ⟨r, r', rfl, rfl, hr, rfl, hc⟩ := h.carries_of_isLive hlive hlive' hs hs'
    rcases hc.course with hsame | ⟨hturn, _⟩
    · exact Or.inl hsame
    · exact Or.inr ((mem_of_at? hr).2 ▸ hturn)
  case walk_unique =>
    intro i j v w hv hw hgeneration
    exact h.eq_of_walk_generation hv hw hgeneration
  case walk_continues =>
    intro i w hw
    obtain ⟨s, hs, haddress, hgeneration⟩ := h.start_of_walk hw
    have hs' : starts'[i]? = some s := by
      obtain ⟨rest, rfl⟩ := hgrows
      rw [List.getElem?_append_left (List.getElem?_eq_some_iff.mp hs).1]
      exact hs
    obtain ⟨w', hw', haddress', hgeneration'⟩ := h'.walk_of_start hs'
    exact ⟨w', hw', haddress'.trans haddress.symm, hgeneration'.trans hgeneration.symm⟩

end Holds

/-- In every run, whatever the order of calls and turns and whether or not cancellations reach
the walks, only the walk of a live registration writes, and it writes the session of this
registration only. Once a registration has been removed, it is never live again, its walk writes
nothing any more, and the observer of state changes is never called for it again. -/
theorem Reachable.only_live_walks_write (he : e.Reachable) :
    (∀ m, e.Fenced m) ∧
      ∀ m a g, e.IsLive a g → e.Removes m a → ∀ ms n,
        (∀ b, ¬((e.after m).run ms).IsLive b g) ∧
        (∀ b, ((e.after m).run ms).HasTurn n b g →
          (((e.after m).run ms).after n).registry = ((e.after m).run ms).registry) ∧
        ∀ c ∈ changesIn (((e.after m).run ms).meet n).effects, c.2.1 ≠ g := by
  obtain ⟨l, starts, h⟩ := he.exists_holds
  refine ⟨h.fenced, fun m a g hlive hremoves ms n => ?_⟩
  obtain ⟨r, hr, rfl⟩ := h.isLive_iff.mp hlive
  have hspent := (h.isSpent_of_removes hr hremoves).run ms
  have hdead (b : Value) : ¬((e.after m).run ms).IsLive b (.int r.generation) := hspent.not_isLive b
  obtain ⟨_, l', starts', h', _⟩ := hspent
  refine ⟨hdead, fun b hturn => ?_, fun c hc heq => ?_⟩
  · exact ((h'.fenced n).stale_quiet b _ hturn (hdead b)).1
  · exact hdead c.1 (heq ▸ ((h'.fenced n).change_live c hc).2)

/-- The walk of a registration that has been replaced sleeps on; its next turn, in which no
cancellation reaches it, writes nothing. -/
theorem only_live_walks_write_readded :
    readded.Reachable ∧ readded.IsLive sampleAddress (.int 2) ∧
      readded.HasTurn ⟨.turn 0 {} false, 3.0⟩ sampleAddress (.int 1) ∧
      (readded.after ⟨.turn 0 {} false, 3.0⟩).registry = readded.registry := by
  have hlive : readded.IsLive sampleAddress (.int 2) := rfl
  have hturn : readded.HasTurn ⟨.turn 0 {} false, 3.0⟩ sampleAddress (.int 1) :=
    ⟨0, {}, false, _, rfl, rfl, rfl, rfl⟩
  have hstale : ¬readded.IsLive sampleAddress (.int 1) := by
    intro h
    rw [IsLive, hlive] at h
    cases h
  obtain ⟨hfenced, _⟩ := reachable_readded.only_live_walks_write
  exact ⟨reachable_readded, hlive, hturn, ((hfenced _).stale_quiet _ _ hturn hstale).1⟩

end Engine

end Peering
