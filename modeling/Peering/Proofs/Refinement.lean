import Peering.Proofs.Reference

/-!
# Runs on the reference

As long as messages are counted by integers, a run does to the reference what it does to the
engine: after every moment the reference has the fault switch of the engine and the configurations
of which the engine has copies, and every request has the same outcome on both.
-/

namespace Peering

open Registration

/-- The increments of the call are integers, if it has any. -/
def Call.IsPlain (c : Call) : Prop :=
  ∀ address received sent, c = .incrementCounters address received sent →
    ∃ i j, received = .int i ∧ sent = .int j

/-- A call that counts no messages is plain. -/
theorem Call.isPlain_of_ne {c : Call} (hc : ∀ v i j, c ≠ .incrementCounters v i j) :
    c.IsPlain := by
  intro v received sent hcall
  exact absurd hcall (hc v received sent)

/-- The call of the moment is plain, if there is one. -/
def Moment.IsPlain (m : Moment) : Prop := ∀ c, m.move = .call c → c.IsPlain

namespace Engine

variable {e : Engine} {R : Reference} {l : List Registration} {starts : List Start}

/-- The reference has the fault switch of the engine and the configurations of which it has copies.
-/
def Mirrors (e : Engine) (R : Reference) : Prop :=
  ∃ l starts, e.Holds l starts ∧ e.faults = R.faults ∧ R.Shows l

/-- A request does to the reference what it does to the engine. -/
theorem perform_agrees (he : e.registry = .ofList l) (hfaults : e.faults = R.faults)
    (hR : R.Shows l) {c : Call} (hrequest : c.isRequest = true) (hplain : c.IsPlain)
    (now : Float) :
    ∃ out, c.perform e now = Call.changing out ∧ out.Agrees (R.perform c) := by
  cases c with
  | addPeer input => exact ⟨_, rfl, addPeer_agrees he hfaults hR input now⟩
  | updatePeer input => exact ⟨_, rfl, updatePeer_agrees he hfaults hR input now⟩
  | removePeer v => exact ⟨_, rfl, removePeer_agrees he hfaults hR v⟩
  | setSessionError v message => exact ⟨_, rfl, setSessionError_agrees he hfaults hR v message⟩
  | incrementCounters v received sent =>
    obtain ⟨i, j, rfl, rfl⟩ := hplain v received sent rfl
    exact ⟨_, rfl, incrementCounters_agrees he hfaults hR v i j⟩
  | setFaults | session | sessions | peer | peers | counts | runningConfig | statistics | walk
  | faults | describe => cases hrequest

/-- A call does to the reference what it does to the engine. -/
private theorem shows_perform (he : e.registry = .ofList l) (hfaults : e.faults = R.faults)
    (hR : R.Shows l) {c : Call} (hplain : c.IsPlain) (now : Float) :
    ∃ l', (c.perform e now).engine.registry = .ofList l' ∧
      (c.perform e now).engine.faults = (R.perform c).1.faults ∧ (R.perform c).1.Shows l' := by
  cases hrequest : c.isRequest with
  | true =>
    obtain ⟨out, hperform, hagrees⟩ := perform_agrees he hfaults hR hrequest hplain now
    obtain ⟨l', hregistry, hshows⟩ := hagrees.shows
    rw [hperform]
    exact ⟨l', hregistry, hagrees.faults_eq, hshows⟩
  | false =>
    cases c with
    | addPeer | updatePeer | removePeer | setSessionError | incrementCounters => cases hrequest
    | setFaults enabled =>
      cases enabled with
      | false =>
        refine ⟨l, he, ?_, hR.copies_eq, hR.counts⟩
        exact congrArg FaultSwitch.disable hfaults
      | true =>
        refine ⟨l, he, ?_, hR.copies_eq, hR.counts⟩
        exact congrArg FaultSwitch.enable hfaults
    | session | sessions | peer | peers | counts | runningConfig | statistics | walk | faults
    | describe => exact ⟨l, he, hfaults, hR⟩

/-- Turns of walks and the closing of the engine leave the fault switch alone. -/
private theorem faults_after {m : Moment} (hm : ∀ c, m.move ≠ .call c) :
    (e.after m).faults = e.faults := by
  unfold after meet
  split
  · rename_i c hmove
    exact absurd hmove (hm c)
  · rename_i i o heeding _
    cases heeding <;> rfl
  · rfl

/-- Turns of walks and the closing of the engine change no configuration. -/
private theorem shows_after (hR : R.Shows l) {m : Moment} {l' : List Registration}
    (hm : ∀ c, m.move ≠ .call c) (hstep : e.Step l m l') : R.Shows l' := by
  cases hstep with
  | idle | quiet | closed => exact hR
  | moved _ _ hr =>
    have hcounts := hR.counts _ (mem_of_at? hr).1
    exact hR.write _ (hcounts.advance m.now)
  | added hmove | removed hmove | updated hmove | noted hmove => exact absurd hmove (hm _)

/-- Every moment does to the reference what it does to the engine. -/
theorem Mirrors.after (h : e.Mirrors R) {m : Moment} (hplain : m.IsPlain) :
    (e.after m).Mirrors (R.after m) := by
  obtain ⟨l, starts, hholds, hfaults, hR⟩ := h
  obtain ⟨l', starts', hstep, _, hholds'⟩ := hholds.exists_after m
  cases hmove : m.move with
  | call c =>
    obtain ⟨l'', hregistry, hfaults', hshows⟩ :=
      shows_perform hholds.registry_eq hfaults hR (hplain c hmove) m.now
    have hafter : e.after m = (c.perform e m.now).engine := by
      simp only [Engine.after, meet, hmove]
    obtain rfl : l' = l'' := hholds'.eq_of_registry (hafter ▸ hregistry)
    simp only [Reference.after, hmove]
    exact ⟨l', starts', hholds', hafter ▸ hfaults', hshows⟩
  | turn i o heeding =>
    have hm (c : Call) : m.move ≠ .call c := by simp [hmove]
    simp only [Reference.after, hmove]
    exact ⟨l', starts', hholds', (faults_after hm).trans hfaults, shows_after hR hm hstep⟩
  | close =>
    have hm (c : Call) : m.move ≠ .call c := by simp [hmove]
    simp only [Reference.after, hmove]
    exact ⟨l', starts', hholds', (faults_after hm).trans hfaults, shows_after hR hm hstep⟩

/-- Every run does to the reference what it does to the engine. -/
theorem Mirrors.run (h : e.Mirrors R) {ms : List Moment} (hplain : ∀ m ∈ ms, m.IsPlain) :
    (e.run ms).Mirrors (R.run ms) := by
  induction ms generalizing e R with
  | nil => exact h
  | cons m ms ih =>
    have hafter := h.after (hplain m List.mem_cons_self)
    exact ih hafter fun n hn => hplain n (List.mem_cons_of_mem m hn)

/-- A new engine has the configurations of an empty reference. -/
theorem IsNew.mirrors (he : e.IsNew) : e.Mirrors { faults := e.faults } :=
  ⟨[], [], he.holds, rfl, ⟨rfl, by simp⟩⟩

end Engine

end Peering
