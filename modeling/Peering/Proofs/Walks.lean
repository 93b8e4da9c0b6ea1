import Peering.Proofs.Edits
import Peering.Proofs.Succession
import Peering.Proofs.TextKeys

/-!
# What becomes of walks

A walk is started when its peer is added, and it is told to stop when its peer is removed or the
engine is closed, and then it is not found any more. Nothing else happens to a walk but its own
turns. This file says so of each moment, for the walks and for the numbers by which they are found.
-/

namespace Peering

open Registration

/-- The walk once its cancellation has been requested. One that is over is left alone. -/
def Walk.told (w : Walk) : Walk := if w.isRunning then { w with stopping := true } else w

namespace Walk

variable {w : Walk}

/-- A second request for cancellation changes nothing. -/
@[simp] theorem told_told (w : Walk) : w.told.told = w.told := by
  by_cases hw : w.isRunning = true
  · have hrunning : Walk.isRunning { w with stopping := true } = true := hw
    simp [told, hw, hrunning]
  · simp [told, hw]

/-- A request for cancellation does not move the walk. -/
@[simp] theorem phase_told (w : Walk) : w.told.phase = w.phase := by
  unfold told
  split <;> rfl

/-- A request for cancellation leaves the registration of the walk alone. -/
@[simp] theorem serves_told (w : Walk) : w.told.serves = w.serves := by
  unfold told
  split <;> rfl

/-- A request for cancellation leaves the delay of the walk alone. -/
@[simp] theorem delay_told (w : Walk) : w.told.delay = w.delay := by
  unfold told
  split <;> rfl

/-- A walk that has been told to stop is over, or its cancellation is pending. -/
theorem stopping_told (hw : w.isRunning = true ∨ w.stopping = true) : w.told.stopping = true := by
  unfold told
  split
  · rfl
  · rename_i hover
    rcases hw with hw | hw
    · exact absurd hw hover
    · exact hw

end Walk

namespace Roster

/-- A request for cancellation is for one walk only. -/
theorem walk?_cancel (r : Roster) (i j : Nat) :
    (r.cancel i).1.walk? j = (r.walk? j).map fun w => if j = i then w.told else w := by
  unfold cancel
  cases hw : r.walk? i with
  | none =>
    by_cases hj : j = i
    · simp [hj, hw]
    · simp [hj]
  | some w =>
    by_cases hj : j = i
    · subst hj
      have hset (w' : Walk) : (r.setWalk j w').walk? j = some w' :=
        List.getElem?_set_self (List.getElem?_eq_some_iff.mp hw).1
      by_cases hrunning : w.isRunning = true
      · simp [hw, hrunning, Walk.told, hset]
      · simp [hw, hrunning, Walk.told]
    · have hne : i ≠ j := fun h => hj h.symm
      by_cases hrunning : w.isRunning = true
      · simp [hrunning, hj, setWalk, walk?, hne]
      · simp [hrunning, hj]

/-- Requests for cancellations reach the walks with the numbers. -/
theorem walk?_cancelAll (r : Roster) (numbers : List Nat) (j : Nat) :
    (r.cancelAll numbers).1.walk? j =
      (r.walk? j).map fun w => if j ∈ numbers then w.told else w := by
  induction numbers generalizing r with
  | nil => simp [cancelAll]
  | cons i rest ih =>
    have hrest : (r.cancelAll (i :: rest)).1.walk? j = ((r.cancel i).1.cancelAll rest).1.walk? j :=
      rfl
    rw [hrest, ih, walk?_cancel, Option.map_map]
    congr 1
    funext w
    by_cases hji : j = i <;> by_cases hj : j ∈ rest <;> simp [hji, hj]

end Roster

namespace Engine

variable {e : Engine} {l l' : List Registration} {starts starts' : List Start} {m : Moment}

/-- At the moment, the cancellation of the walk with a number is requested: the peer that it was
found by is removed, or the engine is closed. -/
def Cancels (e : Engine) (m : Moment) (i : Nat) : Prop :=
  ∃ a, (a, i) ∈ e.walkOf ∧ (e.Removes m a ∨ m.move = .close)

/-- What a moment makes of the walk with a number. -/
inductive Fares (e : Engine) (m : Moment) (i : Nat) (w : Walk) : Walk → Prop where
  /-- Nothing. -/
  | kept (hturn : ∀ o heeding, m.move ≠ .turn i o heeding) (hcancels : ¬e.Cancels m i) :
    Fares e m i w w
  /-- It is told to stop. -/
  | told (hcancels : e.Cancels m i) : Fares e m i w w.told
  /-- It has a turn. -/
  | turned {o : Observers} {heeding : Bool} (hmove : m.move = .turn i o heeding) :
    Fares e m i w (w.turnWith heeding e.registry m.now o).walk

/-- The walk that a registration would get now. -/
def walkFor (e : Engine) (a : String) : Walk :=
  { address := .text a, generation := .int e.nextGeneration, delay := e.stateDelay }

/-- At the moment, a walk is started under a number, and is found by its address from then on. -/
structure StartsWalk (e : Engine) (m : Moment) (i : Nat) (a : String) : Prop where
  adds : e.Adds m (.text a)
  walk?_eq : e.walk? i = none
  found : (.text a, i) ∈ (e.after m).walkOf

/-- A turn of a walk removes no address. -/
theorem not_removes_of_turn {i : Nat} {o : Observers} {heeding : Bool}
    (hmove : m.move = .turn i o heeding) (a : Value) : ¬e.Removes m a := by
  rintro ⟨hremove, _⟩
  rw [hmove] at hremove
  cases hremove

/-- A turn of a walk cancels none. -/
theorem not_cancels_of_turn {i j : Nat} {o : Observers} {heeding : Bool}
    (hmove : m.move = .turn j o heeding) : ¬e.Cancels m i := by
  rintro ⟨a, _, hremoves | hclose⟩
  · exact not_removes_of_turn hmove a hremoves
  · rw [hmove] at hclose
    cases hclose

/-- Where a cancellation is requested, no walk has a turn. -/
theorem Cancels.not_turn {i : Nat} (h : e.Cancels m i) (j : Nat) (o : Observers) (heeding : Bool) :
    m.move ≠ .turn j o heeding :=
  fun hmove => not_cancels_of_turn hmove h

namespace Holds

/-- The walk that an address is found by is the one in the table. -/
theorem walkNumber?_eq_some_iff (h : e.Holds l starts) {v : Value} {i : Nat} :
    e.walkNumber? v = some i ↔ (v, i) ∈ e.walkOf := by
  have haddresses : ((l.map Registration.start).map fun s => Value.text s.address).Nodup := by
    rw [List.map_map]
    exact h.nodup_keys
  refine Table.get?_eq_some_iff ⟨fun a ha => ?_, haddresses.sublist h.keys_suffix.sublist⟩
  obtain ⟨s, _, rfl⟩ := List.mem_map.mp (h.keys_suffix.subset ha)
  exact ⟨s.address, rfl⟩

/-- No walk is found by two addresses. -/
theorem eq_of_walkOf (h : e.Holds l starts) {a b : Value} {i : Nat} (ha : (a, i) ∈ e.walkOf)
    (hb : (b, i) ∈ e.walkOf) : a = b := by
  obtain ⟨s, _, rfl, hs⟩ := h.walkOf_live _ ha
  obtain ⟨t, _, rfl, ht⟩ := h.walkOf_live _ hb
  rw [hs] at ht
  rw [Option.some.inj ht]

/-- A peer that is removed is taken out, and its walk is told to stop. -/
theorem after_of_removes (h : e.Holds l starts) {v : Value} (hremoves : e.Removes m v) :
    e.after m = e.dropped l v := by
  obtain ⟨hmove, hresult⟩ := hremoves
  obtain ⟨out, hout, hfollows⟩ :=
    perform_follows h.registry_eq (c := .removePeer v) rfl rfl m.now
  rw [meet_call hmove, hout] at hresult
  rw [after_call hmove, hout]
  have hsettles := Call.settles (c := .removePeer v) rfl e.faults.isOn (at? l v) m.now
  generalize Call.plan (.removePeer v) e.faults.isOn (at? l v) m.now = plan at hfollows hsettles
  obtain ⟨hedited, hresult'⟩ := hfollows
  cases hsettles with
  | fails _ f =>
    rw [Call.changing, hresult'] at hresult
    cases hresult
  | drop =>
    change out.engine = e.dropped l v
    generalize out.engine = e' at hedited
    cases hedited
    rfl

section Fares

variable {i : Nat} {w : Walk}

/-- Where a walk has been told to stop because its number was among some, or was left alone. -/
private theorem fares_cancelAll (r : Roster) (numbers : List Nat) (hw : r.walk? i = some w)
    (hmem : i ∈ numbers ↔ e.Cancels m i)
    (hturn : ∀ o heeding, m.move ≠ .turn i o heeding)
    (hafter : (e.after m).walk? i = (r.cancelAll numbers).1.walk? i) :
    ∃ w', (e.after m).walk? i = some w' ∧ e.Fares m i w w' := by
  rw [hafter, Roster.walk?_cancelAll, hw, Option.map_some]
  by_cases hi : i ∈ numbers
  · rw [if_pos hi]
    exact ⟨_, rfl, .told (hmem.mp hi)⟩
  · rw [if_neg hi]
    exact ⟨w, rfl, .kept hturn fun hcancels => hi (hmem.mpr hcancels)⟩

private theorem fares_removes (h : e.Holds l starts) (hw : e.walk? i = some w) {v : Value}
    (hremoves : e.Removes m v) : ∃ w', (e.after m).walk? i = some w' ∧ e.Fares m i w w' := by
  have hmove : m.move = .call (.removePeer v) := hremoves.1
  refine fares_cancelAll ⟨.ofList (without l v), e.walks⟩ (e.walkNumber? v).toList hw ?_
    (by simp [hmove]) ?_
  · rw [Option.mem_toList, h.walkNumber?_eq_some_iff]
    constructor
    · intro hi
      exact ⟨v, hi, Or.inl hremoves⟩
    · rintro ⟨a, ha, hremoves' | hclose⟩
      · obtain rfl : v = a :=
          Call.removePeer.inj (Move.call.inj (hmove.symm.trans hremoves'.1))
        exact ha
      · rw [hmove] at hclose
        cases hclose
  · rw [h.after_of_removes hremoves]
    rfl

/-- Calls that remove no peer leave walks alone. -/
private theorem walk?_of_call (h : e.Holds l starts) (hw : e.walk? i = some w) {c : Call}
    (hmove : m.move = .call c) (hremoves : ∀ v, ¬e.Removes m v) :
    (e.after m).walk? i = some w := by
  obtain ⟨l', hstep⟩ := h.exists_step m
  cases hstep with
  | idle htables =>
    rw [Roster.walk?, htables.walks_eq]
    exact hw
  | added _ _ _ _ _ hafter =>
    rw [hafter]
    exact (List.getElem?_append_left (List.getElem?_eq_some_iff.mp hw).1).trans hw
  | removed hmove' _ hresult => exact absurd ⟨hmove', hresult⟩ (hremoves _)
  | updated _ _ _ _ hafter => exact hafter ▸ hw
  | noted _ _ _ _ _ hafter => exact hafter ▸ hw
  | quiet hmove' | moved hmove' | closed hmove' =>
    rw [hmove] at hmove'
    cases hmove'

private theorem fares_turn (hw : e.walk? i = some w) {j : Nat} {o : Observers} {heeding : Bool}
    (hmove : m.move = .turn j o heeding) :
    ∃ w', (e.after m).walk? i = some w' ∧ e.Fares m i w w' := by
  rw [after_turn hmove]
  by_cases hji : j = i
  · subst hji
    rw [turnOf_of_some hw]
    exact ⟨_, List.getElem?_set_self (List.getElem?_eq_some_iff.mp hw).1, .turned hmove⟩
  · have hturn (o : Observers) (heeding : Bool) : m.move ≠ .turn i o heeding := by
      rw [hmove]
      exact fun heq => hji (Move.turn.inj heq).1
    refine ⟨w, ?_, .kept hturn (not_cancels_of_turn hmove)⟩
    cases hv : e.walk? j with
    | none =>
      rw [turnOf_of_none hv]
      exact hw
    | some v =>
      rw [turnOf_of_some hv]
      exact (List.getElem?_set_ne hji).trans hw

private theorem fares_close (hw : e.walk? i = some w) (hmove : m.move = .close) :
    ∃ w', (e.after m).walk? i = some w' ∧ e.Fares m i w w' := by
  refine fares_cancelAll e.toRoster e.walkOf.values hw ?_ (by simp [hmove]) ?_
  · constructor
    · intro hi
      obtain ⟨⟨a, _⟩, ha, rfl⟩ := List.mem_map.mp hi
      exact ⟨a, ha, Or.inr hmove⟩
    · rintro ⟨a, ha, _⟩
      exact List.mem_map_of_mem ha
  · rw [after_close hmove]
    rfl

/-- Every moment does one of these to a walk. -/
theorem exists_fares (h : e.Holds l starts) (hw : e.walk? i = some w) (m : Moment) :
    ∃ w', (e.after m).walk? i = some w' ∧ e.Fares m i w w' := by
  cases hmove : m.move with
  | call c =>
    by_cases hremoves : ∃ v, e.Removes m v
    · obtain ⟨v, hremoves⟩ := hremoves
      exact h.fares_removes hw hremoves
    · have hremoves' (v : Value) : ¬e.Removes m v := fun hv => hremoves ⟨v, hv⟩
      refine ⟨w, h.walk?_of_call hw hmove hremoves', .kept (by simp [hmove]) ?_⟩
      rintro ⟨a, _, ha | hclose⟩
      · exact hremoves' a ha
      · rw [hmove] at hclose
        cases hclose
  | turn j o heeding => exact fares_turn hw hmove
  | close => exact fares_close hw hmove

/-- A walk that is there after a moment was there before, or it has just been started. -/
theorem fares_or_starts (h : e.Holds l starts) {w' : Walk} (hw' : (e.after m).walk? i = some w') :
    (∃ w, e.walk? i = some w ∧ e.Fares m i w w') ∨
      ∃ a, e.StartsWalk m i a ∧ w' = e.walkFor a := by
  cases hw : e.walk? i with
  | some w =>
    obtain ⟨w'', hw'', hfares⟩ := h.exists_fares hw m
    obtain rfl : w' = w'' := Option.some.inj (hw'.symm.trans hw'')
    exact Or.inl ⟨w, rfl, hfares⟩
  | none =>
    right
    have hlength : e.walks.length ≤ i := List.getElem?_eq_none_iff.mp hw
    have hgrows : e.walks.length < (e.after m).walks.length := by
      have hlt : i < (e.after m).walks.length := (List.getElem?_eq_some_iff.mp hw').1
      omega
    obtain ⟨l', hstep⟩ := h.exists_step m
    cases hstep with
    | idle htables =>
      rw [htables.walks_eq] at hgrows
      omega
    | @added input p a hmove hp hvalid hnew hresult hafter =>
      have hwalks : (e.after m).walks = e.walks ++ [e.walkFor a] := by
        rw [hafter]
        rfl
      rw [Roster.walk?, hwalks] at hw'
      rw [hwalks, List.length_append, List.length_singleton] at hgrows
      have hi : i = e.walks.length := by
        have hlt := (List.getElem?_eq_some_iff.mp hw').1
        rw [List.length_append, List.length_singleton] at hlt
        omega
      have hfound : (e.after m).walkOf = e.walkOf ++ [(.text a, e.walks.length)] := by
        rw [hafter]
        exact h.set_walkOf hnew e.walks.length
      refine ⟨a, ⟨⟨input, p, hmove, hp, Peer.address_of_validate hvalid, hresult⟩, hw, ?_⟩, ?_⟩
      · rw [hfound, hi]
        exact List.mem_append_right _ (List.mem_singleton.mpr rfl)
      · rw [hi, List.getElem?_concat_length] at hw'
        exact (Option.some.inj hw').symm
    | removed _ _ _ _ hwalks | closed _ _ hwalks =>
      have hsame := congrArg List.length hwalks
      rw [List.length_map, List.length_map] at hsame
      omega
    | updated _ _ _ _ hafter | noted _ _ _ _ _ hafter =>
      rw [hafter] at hgrows
      exact absurd hgrows (Nat.lt_irrefl _)
    | quiet _ _ _ _ hafter | moved _ _ _ _ _ _ hafter =>
      rw [hafter, List.length_set] at hgrows
      omega

/-- What a moment does to the numbers by which walks are found. -/
private theorem walkOf_cases (h : e.Holds l starts) (m : Moment) :
    (e.after m).walkOf = e.walkOf ∨
      (∃ a, (e.after m).walkOf = e.walkOf ++ [(a, e.walks.length)]) ∨
      (∃ v, e.Removes m v ∧ (e.after m).walkOf = e.walkOf.erase v) ∨
      m.move = .close ∧ (e.after m).walkOf = [] := by
  obtain ⟨l', hstep⟩ := h.exists_step m
  cases hstep with
  | idle htables => exact Or.inl htables.walkOf_eq
  | added _ _ _ hnew _ hafter =>
    right
    left
    rw [hafter]
    exact ⟨_, h.set_walkOf hnew e.walks.length⟩
  | removed hmove _ hresult _ _ hwalkOf =>
    exact Or.inr (Or.inr (Or.inl ⟨_, ⟨hmove, hresult⟩, hwalkOf⟩))
  | closed hmove _ _ hwalkOf => exact Or.inr (Or.inr (Or.inr ⟨hmove, hwalkOf⟩))
  | updated _ _ _ _ hafter | noted _ _ _ _ _ hafter => exact Or.inl (by rw [hafter, withList])
  | quiet _ _ _ _ hafter | moved _ _ _ _ _ _ hafter => exact Or.inl (by rw [hafter])

/-- A walk is found by its address until its cancellation is requested. -/
theorem found_or_cancels (h : e.Holds l starts) {a : Value} (ha : (a, i) ∈ e.walkOf) (m : Moment) :
    (a, i) ∈ (e.after m).walkOf ∨ e.Cancels m i := by
  rcases h.walkOf_cases m with hsame | ⟨b, hadded⟩ | ⟨v, hremoves, herased⟩ | ⟨hclose, _⟩
  · exact Or.inl (hsame ▸ ha)
  · left
    rw [hadded]
    exact List.mem_append_left _ ha
  · by_cases hv : a.eqv v = true
    · right
      obtain ⟨s, _, rfl, _⟩ := h.walkOf_live _ ha
      obtain rfl := Value.text_eqv_iff.mp hv
      exact ⟨_, ha, Or.inl hremoves⟩
    · left
      rw [herased]
      exact List.mem_filter.mpr ⟨ha, by simp [hv]⟩
  · exact Or.inr ⟨a, ha, Or.inr hclose⟩

/-- A walk that is found by an address was found before and has not been told to stop, or it has
just been started. -/
theorem found_before (h : e.Holds l starts) {a : Value} (ha : (a, i) ∈ (e.after m).walkOf) :
    (a, i) ∈ e.walkOf ∧ ¬e.Cancels m i ∨ e.walk? i = none := by
  have hbefore : (a, i) ∈ e.walkOf ∨ e.walk? i = none := by
    rcases h.walkOf_cases m with hsame | ⟨b, hadded⟩ | ⟨v, _, herased⟩ | ⟨_, hnone⟩
    · exact Or.inl (hsame ▸ ha)
    · rw [hadded] at ha
      rcases List.mem_append.mp ha with ha | ha
      · exact Or.inl ha
      · obtain ⟨_, rfl⟩ := Prod.mk.inj (List.mem_singleton.mp ha)
        exact Or.inr (List.getElem?_eq_none (Nat.le_refl _))
    · rw [herased] at ha
      exact Or.inl (List.mem_of_mem_filter ha)
    · rw [hnone] at ha
      cases ha
  refine hbefore.imp_left fun hfound => ⟨hfound, ?_⟩
  rintro ⟨b, hb, hremoves | hclose⟩
  · obtain rfl := h.eq_of_walkOf hfound hb
    rw [h.after_of_removes hremoves] at ha
    obtain ⟨s, _, rfl, _⟩ := h.walkOf_live _ hb
    obtain ⟨_, hkept⟩ := List.mem_filter.mp ha
    simp at hkept
  · rw [after_close hclose] at ha
    cases ha

end Fares

/-- The delay between two states never changes. -/
theorem stateDelay_after (h : e.Holds l starts) (m : Moment) :
    (e.after m).stateDelay = e.stateDelay := by
  cases hmove : m.move with
  | call c =>
    rw [after_call hmove]
    cases hrequest : c.isRequest with
    | true =>
      obtain ⟨v, hv⟩ := Call.exists_target hrequest
      obtain ⟨out, hout, hfollows⟩ := perform_follows h.registry_eq hrequest hv m.now
      rw [hout]
      change out.engine.stateDelay = e.stateDelay
      have hedited := hfollows.edited
      generalize out.engine = e', (c.plan e.faults.isOn (at? l v) m.now).1 = edit at hedited
      cases hedited with
      | keep _ hsettings => exact hsettings.stateDelay_eq
      | enroll | drop | configure | record => rfl
    | false =>
      cases c with
      | addPeer | updatePeer | removePeer | setSessionError | incrementCounters => cases hrequest
      | setFaults enabled => cases enabled <;> rfl
      | session | sessions | peer | peers | counts | runningConfig | statistics | walk | faults
      | describe => rfl
  | turn i o heeding =>
    rw [after_turn hmove]
    rfl
  | close =>
    rw [after_close hmove]
    rfl

end Holds

/-- A walk always serves the same registration. -/
theorem Fares.serves_eq {i : Nat} {w w' : Walk} (h : e.Fares m i w w') : w'.serves = w.serves := by
  cases h with
  | kept => rfl
  | told => exact w.serves_told
  | @turned o heeding =>
    obtain ⟨haddress, hgeneration, _⟩ := w.turnWith_continues heeding e.registry m.now o
    rw [Walk.serves, Walk.serves, haddress, hgeneration]

/-- A walk always has the same delay. -/
theorem Fares.delay_eq {i : Nat} {w w' : Walk} (h : e.Fares m i w w') : w'.delay = w.delay := by
  cases h with
  | kept => rfl
  | told => exact w.delay_told
  | @turned o heeding => exact (w.turnWith_continues heeding e.registry m.now o).delay_eq

end Engine

end Peering
