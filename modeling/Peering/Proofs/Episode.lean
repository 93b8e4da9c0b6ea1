import Peering.Proofs.Erasure

/-!
# Finished registrations leave no trace

A registration that has been taken out again may be deleted from a run: the request that made it,
the one that took it out, all calls for the address in between, and all turns of its walk, later
ones too. What remains ends with an engine that resembles the one of the whole run. It does not
matter whether the address was registered before, or is registered again later.
-/

namespace Peering

open Registration

/-- Everything counts but one registration. -/
def Choice.without (address generation : Value) : Choice :=
  fun p => !(address.eqv p.1 && generation.eqv p.2)

/-- The part of a run in which an address is registered, with what comes before and after it. -/
structure Episode where
  /-- What comes before. -/
  before : List Moment
  /-- The moment at which the address is added. -/
  add : Moment
  /-- What happens while the address is registered. -/
  between : List Moment
  /-- The moment at which the address is removed. -/
  remove : Moment
  /-- What comes after. -/
  later : List Moment

namespace Episode

variable (E : Episode) (new : Engine) (a g : Value)

/-- From the moment at which the address is added to that at which it is removed. -/
def stretch : List Moment := E.add :: (E.between ++ [E.remove])

/-- The whole run. -/
def whole : List Moment := E.before ++ (E.stretch ++ E.later)

/-- The engine on which the address has just been added. -/
def added : Engine := (new.run E.before).after E.add

/-- The engine on which the address has just been removed. -/
def removed : Engine := ((E.added new).run E.between).after E.remove

/-- What is left of the stretch: no call for the address, and no turn of the walk. -/
def stretchLeft : List Moment :=
  (new.run E.before).project (.without a g) (Call.staysIn fun v => !a.eqv v) E.stretch

/-- What is left of what comes after: no turn of the walk. -/
def laterLeft : List Moment :=
  (E.removed new).project (.without a g) (fun _ => true) E.later

/-- What is left of the run. -/
def left : List Moment := E.before ++ (E.stretchLeft new a g ++ E.laterLeft new a g)

/-- The stretch leads to the engine on which the address has just been removed. -/
theorem run_stretch : (new.run E.before).run E.stretch = E.removed new :=
  Engine.run_append (E.added new) E.between [E.remove]

/-- The whole run is what comes after the removal, on the engine left by the removal. -/
theorem run_whole : new.run E.whole = (E.removed new).run E.later := by
  rw [whole, Engine.run_append, Engine.run_append, run_stretch]

/-- What is left of the run is what is left of its three parts, one after the other. -/
theorem run_left : new.run (E.left new a g) =
    ((new.run E.before).run (E.stretchLeft new a g)).run (E.laterLeft new a g) := by
  rw [left, Engine.run_append, Engine.run_append]

/-- The episode is that of an address under a generation. -/
structure Concerns : Prop where
  /-- The address is added. -/
  adds : (new.run E.before).Adds E.add a
  /-- It gets the generation. -/
  isLive : (E.added new).IsLive a g
  /-- It is not removed in between. -/
  stays : ∀ before m rest, E.between = before ++ m :: rest →
    ¬((E.added new).run before).Removes m a
  /-- It is removed. -/
  removes : ((E.added new).run E.between).Removes E.remove a

end Episode

namespace Engine

variable {e new : Engine} {l : List Registration} {starts : List Start} {a g : Value}
  {m : Moment} {ms : List Moment} {k : Int}

/-- A registration that is not removed at a moment goes on. -/
private theorem Holds.isLive_after (h : e.Holds l starts) (hlive : e.IsLive a g)
    (hstays : ¬e.Removes m a) : (e.after m).IsLive a g := by
  obtain ⟨r, hr, hg⟩ := h.isLive_iff.mp hlive
  obtain ⟨l', starts', hstep, _, h'⟩ := h.exists_after m
  rcases hstep.removes_or_carries hr with ⟨hremoves, _⟩ | ⟨r', hr', hcarries⟩
  · exact absurd hremoves hstays
  · exact h'.isLive_iff.mpr ⟨r', hr', by rw [hcarries.generation_eq, hg]⟩

/-- A registration that is not removed in a run goes on. -/
private theorem Holds.isLive_run (h : e.Holds l starts) (hlive : e.IsLive a g)
    (hstays : ∀ before m rest, ms = before ++ m :: rest → ¬(e.run before).Removes m a) :
    (e.run ms).IsLive a g := by
  induction ms generalizing e l starts with
  | nil => exact hlive
  | cons m ms ih =>
    obtain ⟨_, _, _, _, h'⟩ := h.exists_after m
    refine ih h' (h.isLive_after hlive (hstays [] m ms rfl)) fun before n rest hms => ?_
    exact hstays (m :: before) n rest (by rw [hms]; rfl)

/-- A generation that is spent is at no address. -/
private theorem IsSpent.exists_generationAt (h : e.IsSpent k) (v : Value) :
    ∃ j, e.generationAt v = .int j ∧ j ≠ k := by
  obtain ⟨hlt, l, starts, h, hl⟩ := h
  cases hr : at? l v with
  | none => exact ⟨_, h.generationAt_of_none hr, (Int.ne_of_lt hlt).symm⟩
  | some r => exact ⟨_, h.generationAt_of_some hr, hl v r hr⟩

/-- A new registration gets the next generation. -/
private theorem Holds.generation_of_adds (h : e.Holds l starts) (hadds : e.Adds m a)
    (hlive : (e.after m).IsLive a g) :
    (∃ b, a = .text b) ∧ at? l a = none ∧ g = .int e.nextGeneration := by
  obtain ⟨l', starts', hstep, _, h'⟩ := h.exists_after m
  obtain ⟨b, p, rfl, hnone, rfl⟩ := hstep.eq_append_of_adds hadds
  refine ⟨⟨b, rfl⟩, hnone, ?_⟩
  obtain ⟨r, hr, rfl⟩ := h'.isLive_iff.mp hlive
  rw [at?_append_singleton, hnone, Option.none_or] at hr
  split at hr
  · obtain rfl := Option.some.inj hr
    rfl
  · cases hr

/-- While a registration is there, or about to be made, the calls for its address are those that are
not kept. -/
private theorem fits_without {b : String} (hg : e.generationAt (.text b) = .int k) :
    e.Fits (.without (.text b) (.int k)) (Call.staysIn fun v => !(Value.text b).eqv v)
      (Call.isFor fun v => !(Value.text b).eqv v) where
  keeps_eq c v hv := by
    rw [Call.staysIn, hv, Option.all_some, Choice.without]
    cases hb : (Value.text b).eqv v with
    | false => rfl
    | true =>
      obtain rfl := Value.text_eqv_iff.mp hb
      simp [hg]
  keeps_overview c hc := by rw [Call.staysIn, hc]; rfl
  keeps_of_shown c hc := Call.staysIn_of_isFor hc
  not_shown_faults := rfl
  all_of_shown c hshown hc := by
    rw [Call.isFor, hc] at hshown
    cases hshown

/-- Once a generation is spent everything counts that is registered. -/
private theorem IsSpent.counts (h : e.IsSpent k) (v : Value) :
    Choice.without a (.int k) (v, e.generationAt v) = true := by
  obtain ⟨j, hj, hne⟩ := h.exists_generationAt v
  rw [hj, Choice.without]
  simp [hne.symm]

section Concerns

variable {E : Episode} {b : String}

/-- At each moment of the stretch the registration is there, or about to be made. -/
private theorem fits_stretch (h : E.Concerns new (.text b) (.int k))
    (hbefore : (new.run E.before).Holds l starts) (hnone : at? l (.text b) = none)
    (hk : (new.run E.before).nextGeneration = k) {before rest : List Moment}
    (hstretch : E.stretch = before ++ m :: rest) :
    ((new.run E.before).run before).Fits (.without (.text b) (.int k))
      (Call.staysIn fun v => !(Value.text b).eqv v)
      (Call.isFor fun v => !(Value.text b).eqv v) := by
  apply fits_without
  cases before with
  | nil => exact (hbefore.generationAt_of_none hnone).trans (congrArg Value.int hk)
  | cons first before =>
    obtain ⟨rfl, hrest⟩ := List.cons.inj hstretch
    have hrest : E.between ++ [E.remove] = before ++ m :: rest := hrest
    -- the moment at which the address is removed is the last one of the stretch
    have hbetween : E.between = before ++ (m :: rest).dropLast := by
      have hinit := congrArg List.dropLast hrest
      rwa [List.dropLast_concat, List.dropLast_append_of_ne_nil (List.cons_ne_nil m rest)] at hinit
    obtain ⟨_, _, _, _, hadded⟩ := hbefore.exists_after E.add
    refine (hadded.isLive_run h.isLive fun earlier n next hearlier => ?_).generationAt_eq
    refine h.stays earlier n (next ++ (m :: rest).dropLast) ?_
    rw [hbetween, hearlier, List.append_assoc]
    rfl

/-- When the address has been removed, the generation is spent. -/
private theorem isSpent_removed (h : E.Concerns new a (.int k)) (hnew : new.IsNew) :
    (E.removed new).IsSpent k := by
  obtain ⟨_, _, hadded⟩ := ((hnew.reachable.run E.before).run [E.add]).exists_holds
  have hlive := hadded.isLive_run h.isLive h.stays
  obtain ⟨_, _, hbetween⟩ :=
    (((hnew.reachable.run E.before).run [E.add]).run E.between).exists_holds
  obtain ⟨r, hr, hg⟩ := hbetween.isLive_iff.mp hlive
  exact Value.int.inj hg ▸ hbetween.isSpent_of_removes hr h.removes

end Concerns

/-- A registration that has been taken out again leaves no trace. If it is deleted from a run, with
the requests that made it and took it out, all other calls for its address while it was there, and
all turns of its walk, then the engine at the end resembles that of the whole run. On the way each
call for another address is answered as in the whole run, and once the registration has been taken
out every call is, but for the reads of the fault switch. -/
theorem IsNew.finished_registrations_leave_no_trace (hnew : new.IsNew) {E : Episode}
    (h : E.Concerns new a g) :
    ∃ ρ, (new.run (E.left new a g)).Resembles (new.run E.whole) (.without a g) ρ ∧
      (new.run E.before).Retraces (new.run E.before) (.without a g)
        (Call.staysIn fun v => !a.eqv v) (Call.isFor fun v => !a.eqv v) E.stretch ρ ∧
      ((new.run E.before).run (E.stretchLeft new a g)).Retraces (E.removed new) (.without a g)
        (fun _ => true) (fun c => !c.readsFaults) E.later ρ := by
  obtain ⟨l, starts, hbefore⟩ := (hnew.reachable.run E.before).exists_holds
  obtain ⟨⟨b, rfl⟩, hnone, rfl⟩ := hbefore.generation_of_adds h.adds h.isLive
  have hspent := isSpent_removed h hnew
  have R : Restricts (new.run E.before) (new.run E.before) l
      (.without (.text b) (.int (new.run E.before).nextGeneration)) id := by
    refine hbefore.restricts_self fun p hp => ?_
    obtain ⟨_, j, rfl, hlt⟩ := hbefore.values_of_served hp
    simp [Choice.without, (Int.ne_of_lt hlt).symm]
  obtain ⟨ρ₁, l₁, _, R₁, hstretch⟩ := R.run_project E.stretch fun _ _ _ hsplit =>
    fits_stretch h hbefore hnone rfl hsplit
  rw [E.run_stretch] at R₁ hstretch
  obtain ⟨ρ, l₂, hρ, R₂, hlater⟩ := R₁.run_project E.later fun before _ _ _ =>
    fits_whole fun v => (hspent.run before).counts v
  refine ⟨ρ, ?_, hstretch ρ hρ, hlater ρ (.refl _ _)⟩
  rw [E.run_whole, E.run_left]
  exact R₂.resembles fun v => (hspent.run E.later).counts v

/-- A peer is added, served by its walk and removed, while another one is there. Afterwards its walk
has one more turn, and it is added again. -/
def sampleEpisode : Episode where
  before := [⟨.call (.addPeer (.record otherPeer)), 0.0⟩]
  add := ⟨.call (.addPeer (.record samplePeer)), 1.0⟩
  between := [
    ⟨.turn 1 {} true, 1.0⟩,
    ⟨.turn 0 {} true, 1.0⟩,
    ⟨.call (.incrementCounters sampleAddress (.int 3) (.int 4)), 2.0⟩,
    ⟨.call (.session otherPeer.address), 2.0⟩]
  remove := ⟨.call (.removePeer sampleAddress), 3.0⟩
  later := [
    ⟨.turn 1 {} false, 4.0⟩,
    ⟨.turn 0 {} true, 4.0⟩,
    ⟨.call (.addPeer (.record samplePeer)), 5.0⟩,
    ⟨.turn 2 {} true, 5.0⟩]

/-- What is left of the episode. -/
def sampleEpisodeLeft : List Moment := [
  ⟨.call (.addPeer (.record otherPeer)), 0.0⟩,
  ⟨.turn 0 {} true, 1.0⟩,
  ⟨.call (.session otherPeer.address), 2.0⟩,
  ⟨.turn 0 {} true, 4.0⟩,
  ⟨.call (.addPeer (.record samplePeer)), 5.0⟩,
  ⟨.turn 1 {} true, 5.0⟩]

/-- The sample is about the second registration of the sample address. -/
theorem concerns_sampleEpisode : sampleEpisode.Concerns {} sampleAddress (.int 2) where
  adds := ⟨_, samplePeer, rfl, rfl, rfl, rfl⟩
  isLive := rfl
  stays before m rest hsplit hremoves := by
    have hm : m ∈ sampleEpisode.between := hsplit ▸ List.mem_append_right _ List.mem_cons_self
    have hmove := hremoves.1
    simp only [sampleEpisode, List.mem_cons, List.not_mem_nil, or_false] at hm
    rcases hm with rfl | rfl | rfl | rfl <;> cases hmove
  removes := ⟨rfl, rfl⟩

/-- Without the episode the second registration of the address has the second generation. -/
theorem finished_registrations_leave_no_trace_sampleEpisode :
    sampleEpisode.Concerns {} sampleAddress (.int 2) ∧ ∃ ρ : Int → Int, ρ 3 = 2 ∧
      (({} : Engine).run sampleEpisodeLeft).Resembles (({} : Engine).run sampleEpisode.whole)
        (.without sampleAddress (.int 2)) ρ := by
  have hnew : IsNew {} := ⟨rfl, rfl, rfl, rfl⟩
  obtain ⟨ρ, hresembles, _, _⟩ :=
    hnew.finished_registrations_leave_no_trace concerns_sampleEpisode
  have hleft : sampleEpisode.left {} sampleAddress (.int 2) = sampleEpisodeLeft := rfl
  rw [hleft] at hresembles
  have hgenerations : [(otherPeer.address, Value.int 1), (sampleAddress, Value.int 2)] =
      [(otherPeer.address, Value.int (ρ 1)), (sampleAddress, Value.int (ρ 3))] :=
    hresembles.generations_eq
  have hρ : ρ 3 = 2 := by
    injection hgenerations with _ hrest
    injection hrest with hentry _
    injection hentry with _ hvalue
    exact (Value.int.inj hvalue).symm
  exact ⟨concerns_sampleEpisode, ρ, hρ, hresembles⟩

end Engine

end Peering
