import Peering.Proofs.History
import Peering.Proofs.Likeness

/-!
# What becomes of sessions

At a moment a session is left alone, or one thing is done to it: an error is noted, messages are
counted, or its walk moves it. What all of these keep, and every new session has, holds of all
sessions of an engine that is reached. In particular the message counters are always numbers.
-/

namespace Peering

open Registration

/-- What a moment makes of a session. -/
inductive Session.Becomes (s : Session) (now : Float) : Session → Prop where
  /-- Nothing is done to it. -/
  | same : Becomes s now s
  /-- An error is noted. -/
  | remarked (message : Value) : Becomes s now { s with lastError := message }
  /-- Messages are counted, as far as sums can be formed. -/
  | counted (received sent : Value) : Becomes s now (s.count received sent).1
  /-- The walk moves it. -/
  | moved : Becomes s now (s.advance now).1

/-- What becomes of a session that counts by numbers counts by numbers. -/
theorem Session.CountsNumbers.becomes {s s' : Session} {now : Float} (h : s.CountsNumbers)
    (hs' : s.Becomes now s') : s'.CountsNumbers := by
  cases hs' with
  | same => exact h
  | remarked => exact ⟨h.received, h.sent⟩
  | counted received sent => exact h.count received sent
  | moved => exact h.advance now

namespace Engine

variable {e : Engine} {l l' : List Registration} {starts : List Start} {m : Moment}
  {r' : Registration}

/-- The registration after a moment was there before, with a session that has become the present
one, or it is new. -/
def Descends (e : Engine) (l : List Registration) (m : Moment) (r' : Registration) : Prop :=
  (∃ r ∈ l, r'.start = r.start ∧ r.session.Becomes m.now r'.session) ∨
    ∃ a p, r' = Registration.initial a p e.nextGeneration m.now

private theorem descends_of_mem (hr' : r' ∈ l) : e.Descends l m r' :=
  .inl ⟨r', hr', rfl, .same⟩

/-- Where the session at an address is replaced, what has become of it is there. -/
private theorem Holds.descends_of_mem_adjust (h : e.Holds l starts) {v : Value} {r₀ : Registration}
    {s : Session} (hr₀ : at? l v = some r₀) (hs : r₀.session.Becomes m.now s)
    (hr' : r' ∈ adjust l v fun r => { r with session := s }) : e.Descends l m r' := by
  obtain ⟨r, hr, rfl⟩ := List.mem_map.mp hr'
  by_cases hv : matchesAt v r = true
  · have hat : at? l v = some r := matchesAt_iff.mp hv ▸ h.at?_of_mem hr
    obtain rfl : r₀ = r := Option.some.inj (hr₀.symm.trans hat)
    rw [if_pos hv]
    exact .inl ⟨r₀, hr, rfl, hs⟩
  · rw [if_neg hv]
    exact descends_of_mem hr

/-- What a request settles of the registrations. -/
private theorem Holds.descends_of_settles (h : e.Holds l starts) {c : Call} {v : Value}
    {plan : Edit × Except Failure Unit} (hsettles : c.Settles (at? l v) plan)
    (hr' : r' ∈ plan.1.apply l v e.nextGeneration m.now) : e.Descends l m r' := by
  cases hsettles with
  | fails => exact descends_of_mem hr'
  | @enroll input p a =>
    rcases List.mem_append.mp hr' with hr' | hr'
    · exact descends_of_mem hr'
    · exact .inr ⟨a, p, List.mem_singleton.mp hr'⟩
  | drop => exact descends_of_mem (List.mem_of_mem_filter hr')
  | configure =>
    obtain ⟨r, hr, rfl⟩ := List.mem_map.mp hr'
    refine .inl ⟨r, hr, ?_⟩
    split
    · exact ⟨rfl, .same⟩
    · exact ⟨rfl, .same⟩
  | remark _ message hfound => exact h.descends_of_mem_adjust hfound (.remarked message) hr'
  | count _ received sent hfound =>
    exact h.descends_of_mem_adjust hfound (.counted received sent) hr'

/-- Every registration after a moment descends from those before it. -/
theorem Holds.descends (h : e.Holds l starts) (hregistry : (e.after m).registry = .ofList l')
    (hr' : r' ∈ l') : e.Descends l m r' := by
  have hsame (hkept : (e.after m).registry = e.registry) : e.Descends l m r' := by
    obtain rfl : l = l' :=
      Registry.ofList_injective (h.registry_eq.symm.trans (hkept.symm.trans hregistry))
    exact descends_of_mem hr'
  cases hmove : m.move with
  | call c =>
    cases hrequest : c.isRequest with
    | false =>
      refine hsame ?_
      rw [after_call hmove]
      exact (sameTables_of_not_request hrequest e m.now).registry_eq
    | true =>
      obtain ⟨v, hv⟩ := Call.exists_target hrequest
      obtain ⟨out, hout, hfollows⟩ := perform_follows h.registry_eq hrequest hv m.now
      have hedited := hfollows.edited.registry_eq h.registry_eq
      rw [after_call hmove, hout] at hregistry
      obtain rfl := Registry.ofList_injective (hedited.symm.trans hregistry)
      exact h.descends_of_settles (Call.settles hrequest _ _ _) hr'
  | turn i o heeding =>
    rw [after_turn hmove] at hregistry hsame
    cases hw : e.walk? i with
    | none => exact hsame (by rw [turnOf_of_none hw])
    | some w =>
      have hmem : w ∈ e.walks := List.mem_of_getElem? hw
      rw [turnOf_of_some hw] at hregistry
      obtain rfl := Registry.ofList_injective
        ((h.registry_turn hmem heeding m.now o).symm.trans hregistry)
      cases hs : w.writes? heeding e.registry m.now with
      | none =>
        rw [hs] at hr'
        exact descends_of_mem hr'
      | some s =>
        obtain ⟨r, hr, _, rfl⟩ := h.registration_of_writes hmem hs
        rw [hs] at hr'
        exact h.descends_of_mem_adjust hr .moved hr'
  | close =>
    refine hsame ?_
    rw [after_close hmove]
    exact (Roster.cancelAll_eq _ _).1

/-- The message counters of all sessions are numbers. -/
theorem Reachable.countsNumbers (he : e.Reachable) :
    ∀ l starts, e.Holds l starts → ∀ r ∈ l, r.session.CountsNumbers := by
  have hall : ∃ l starts, e.Holds l starts ∧ ∀ r ∈ l, r.session.CountsNumbers := by
    refine Reachable.induction
      (P := fun e => ∃ l starts, e.Holds l starts ∧ ∀ r ∈ l, r.session.CountsNumbers)
      (fun e he => ⟨[], [], he.holds, by simp⟩) (fun e m ⟨l, starts, h, hl⟩ => ?_) he
    obtain ⟨l', starts', _, _, h'⟩ := h.exists_after m
    refine ⟨l', starts', h', fun r' hr' => ?_⟩
    rcases h.descends h'.registry_eq hr' with ⟨r, hr, _, hbecomes⟩ | ⟨a, p, rfl⟩
    · exact (hl r hr).becomes hbecomes
    · exact Session.countsNumbers_initial _ _
  obtain ⟨l, starts, h, hl⟩ := hall
  intro l' starts' h'
  obtain rfl := h.eq_of_registry h'.registry_eq
  exact hl

/-- The histories of all sessions tell their courses. -/
theorem Reachable.tellsCourse (he : e.Reachable) :
    ∀ l starts, e.Holds l starts → ∀ r ∈ l, r.session.OnCourse r.peer.createdAt := by
  intro l starts h r hr
  obtain ⟨l', starts', h', hcourse⟩ := he.onCourse
  obtain rfl := h.eq_of_registry h'.registry_eq
  exact hcourse _ r (h.at?_of_mem hr)

end Engine

end Peering
