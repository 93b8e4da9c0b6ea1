import Peering.Proofs.Refinement
import Mathlib.Data.List.Induction

/-!
# The outcome of every call in a run

In every run in which messages are counted by integers, the outcome of each call is that on the
reference. This file shows so, and says in words of the run itself which requests are refused and
why: an address is registered exactly if the last successful request to add or to remove it was
one to add it.
-/

namespace Peering

open Registration

/-- There is no result, for a cause of the kind. -/
def Refuses {α : Type} (result : Except Failure α) (kind : EngineErrorKind) : Prop :=
  ∃ err, result = .error (.refused err) ∧ err.kind = kind

/-- There is no result, for something is not admitted. -/
def RefusesInvalid {α : Type} (result : Except Failure α) : Prop :=
  ∃ field, Refuses result (.validation field)

section Refuses

variable {α β : Type} {kind : EngineErrorKind}

/-- What is made of a result is refused exactly if the result is. -/
@[simp] theorem refuses_map {result : Except Failure α} {f : α → β} :
    Refuses (result.map f) kind ↔ Refuses result kind := by
  cases result <;> simp [Refuses, Except.map]

/-- What is made of a result is not admitted exactly if the result is not. -/
@[simp] theorem refusesInvalid_map {result : Except Failure α} {f : α → β} :
    RefusesInvalid (result.map f) ↔ RefusesInvalid result := by
  simp [RefusesInvalid]

/-- A refusal is one of its kind. -/
@[simp] theorem refuses_refused {err : EngineError} :
    Refuses (.error (.refused err) : Except Failure α) kind ↔ err.kind = kind := by
  simp [Refuses]

/-- What is too deep is not refused. -/
@[simp] theorem not_refuses_tooDeep : ¬Refuses (.error .tooDeep : Except Failure α) kind := by
  simp [Refuses]

/-- What cannot be shown is no cause to refuse. -/
@[simp] theorem not_refuses_ofTextFault (fault : Value.TextFault) :
    ¬Refuses (.error (.ofTextFault fault) : Except Failure α) kind := by
  cases fault <;> simp [Refuses, Failure.ofTextFault]

/-- A result is not refused. -/
@[simp] theorem not_refuses_ok (a : α) : ¬Refuses (.ok a : Except Failure α) kind := by
  simp [Refuses]

end Refuses

namespace Table

variable {α : Type} {t : Table α} {key : Value}

/-- What is required at a key that is there is found. -/
theorem require_of_contains (hkey : key.isKey = true) (h : t.contains key = true)
    (missing : Value → EngineError) : ∃ x, t.require key missing = .ok x := by
  obtain ⟨entry, hfind⟩ := Option.isSome_iff_exists.mp
    (List.find?_isSome.mpr (List.any_eq_true.mp h))
  exact ⟨entry.2, by simp [require, lookUp, hkey, get?, hfind]⟩

/-- What is required at a key that is not there is refused. -/
theorem require_of_not_contains (hkey : key.isKey = true) (h : t.contains key = false)
    (missing : Value → EngineError) :
    t.require key missing = .error (.refused (missing key)) := by
  have hfind : t.find? (fun e => e.1.eqv key) = none := by
    rw [List.find?_eq_none]
    intro entry hentry hmatch
    rw [Bool.eq_false_iff] at h
    exact h (List.any_eq_true.mpr ⟨entry, hentry, hmatch⟩)
  simp [require, lookUp, hkey, get?, hfind]

end Table

namespace Reference

variable {R : Reference} {p : Peer} {address : Value}

/-- A request that is let through has the outcome of its body. -/
theorem request_of_off (hoff : R.faults.isOn = false) (operation : String) (address : Value)
    (body : Except Failure Reference) :
    (R.request operation address body).2 = body.map fun _ => () := by
  simp only [request, hoff, Bool.false_eq_true, if_false]
  cases body <;> rfl

private theorem not_refuses_put (kind : EngineErrorKind) : ¬Refuses (R.put p) kind := by
  unfold put
  split <;> simp

/-- A configuration that is put somewhere can be copied, or it is too deep. -/
private theorem put_map {α : Type} (x : α) :
    (R.put p).map (fun _ => x) = if p.isCopyable then .ok x else .error .tooDeep := by
  unfold put
  split <;> rfl

/-- A valid configuration with an address that is free is put there. -/
theorem add_of_free (hp : p.IsValid) (hfree : R.peers.contains p.address = false) :
    R.add p = R.put p := by
  obtain ⟨a, _, hvalid⟩ := hp.exists_validate
  have hcheck := Peer.check_eq_ok_iff_validate.mpr hvalid
  simp only [add, hcheck, hfree, Bool.false_eq_true, if_false]

/-- A valid configuration with an address that is there is put in place of the one there. -/
theorem update_of_contains (hp : p.IsValid) (hcontains : R.peers.contains p.address = true) :
    R.update p = R.put p := by
  obtain ⟨a, haddress, hvalid⟩ := hp.exists_validate
  have hcheck := Peer.check_eq_ok_iff_validate.mpr hvalid
  have hkey : p.address.isKey = true := by rw [haddress]; rfl
  obtain ⟨q, hq⟩ := Table.require_of_contains hkey hcontains EngineError.peerNotFound
  simp only [update, hq, hcheck]

/-- What does not pass its check is not valid, and is refused as such if what is wrong with it can
be shown. -/
private theorem refusesInvalid_of_check {α : Type} {f : Failure} (hcheck : p.check = .error f)
    (hshown : p.hiddenFault? = none) :
    RefusesInvalid (.error f : Except Failure α) ↔ ¬p.IsValid := by
  obtain ⟨hnot, ⟨-, err, field, rfl, hkind⟩ | ⟨fault, hhidden, -⟩⟩ :=
    Peer.not_isValid_of_check hcheck
  · exact ⟨fun _ => hnot, fun _ => ⟨field, err, rfl, hkind⟩⟩
  · cases hshown.symm.trans hhidden

/-- A configuration of which it can be shown what is wrong is not admitted exactly if something is.
-/
theorem add_invalid (hshown : p.hiddenFault? = none) : RefusesInvalid (R.add p) ↔ ¬p.IsValid := by
  unfold add
  cases hcheck : p.check with
  | error f => exact refusesInvalid_of_check hcheck hshown
  | ok a =>
    have hvalid := Peer.check_eq_ok_iff_validate.mp hcheck
    have hp := (Peer.validate_eq_ok_iff.mp hvalid).1
    cases R.peers.contains p.address with
    | true => simp [RefusesInvalid, EngineError.duplicatePeer, hp]
    | false => simp [RefusesInvalid, not_refuses_put, hp]

/-- A valid configuration is a duplicate exactly if there is one at its address. -/
theorem add_duplicate (hp : p.IsValid) :
    Refuses (R.add p) .duplicatePeer ↔ R.peers.contains p.address = true := by
  obtain ⟨a, _, hvalid⟩ := hp.exists_validate
  have hcheck := Peer.check_eq_ok_iff_validate.mpr hvalid
  simp only [add, hcheck]
  split
  · rename_i hcontains
    simp [EngineError.duplicatePeer, hcontains]
  · rename_i hcontains
    simp [not_refuses_put, hcontains]

/-- An update finds nothing exactly if there is nothing at its address. -/
theorem update_missing (hkey : p.address.isKey = true) :
    Refuses (R.update p) .peerNotFound ↔ R.peers.contains p.address = false := by
  unfold update
  cases hcontains : R.peers.contains p.address with
  | false =>
    simp [Table.require_of_not_contains hkey hcontains, EngineError.peerNotFound]
  | true =>
    obtain ⟨q, hq⟩ := Table.require_of_contains hkey hcontains EngineError.peerNotFound
    simp only [hq]
    cases hcheck : p.check with
    | error f =>
      obtain ⟨-, ⟨-, err, field, rfl, hkind⟩ | ⟨fault, -, rfl⟩⟩ := Peer.not_isValid_of_check hcheck
      · simp [hkind]
      · simp
    | ok a => simp [not_refuses_put]

/-- An update of what is there is not admitted exactly if it is not valid, where it can be shown
what is wrong. -/
theorem update_invalid (hkey : p.address.isKey = true)
    (hcontains : R.peers.contains p.address = true) (hshown : p.hiddenFault? = none) :
    RefusesInvalid (R.update p) ↔ ¬p.IsValid := by
  obtain ⟨q, hq⟩ := Table.require_of_contains hkey hcontains EngineError.peerNotFound
  simp only [update, hq]
  cases hcheck : p.check with
  | error f => exact refusesInvalid_of_check hcheck hshown
  | ok a =>
    have hvalid := Peer.check_eq_ok_iff_validate.mp hcheck
    have hp := (Peer.validate_eq_ok_iff.mp hvalid).1
    simp [RefusesInvalid, not_refuses_put, hp]

/-- A removal finds nothing exactly if there is nothing at its address. -/
theorem remove_missing (hkey : address.isKey = true) :
    Refuses (R.remove address) .peerNotFound ↔ R.peers.contains address = false := by
  unfold remove
  cases hcontains : R.peers.contains address with
  | false =>
    simp [Table.require_of_not_contains hkey hcontains, EngineError.peerNotFound]
  | true =>
    obtain ⟨q, hq⟩ := Table.require_of_contains hkey hcontains EngineError.peerNotFound
    simp [hq]

/-- Touching finds nothing exactly if there is nothing at the address. -/
theorem touch_missing (hkey : address.isKey = true) :
    Refuses (R.touch address) .sessionNotFound ↔ R.peers.contains address = false := by
  unfold touch
  cases hcontains : R.peers.contains address with
  | false =>
    simp [Table.require_of_not_contains hkey hcontains, EngineError.sessionNotFound]
  | true =>
    obtain ⟨q, hq⟩ := Table.require_of_contains hkey hcontains EngineError.sessionNotFound
    simp [hq]

/-- Touching an address never fails for what is not admitted. -/
private theorem not_refusesInvalid_touch (hkey : address.isKey = true) :
    ¬RefusesInvalid (R.touch address) := by
  unfold touch
  cases hcontains : R.peers.contains address with
  | false =>
    simp [RefusesInvalid, Table.require_of_not_contains hkey hcontains,
      EngineError.sessionNotFound]
  | true =>
    obtain ⟨q, hq⟩ := Table.require_of_contains hkey hcontains EngineError.sessionNotFound
    simp [RefusesInvalid, hq]

/-- One of two integers is below zero. -/
theorem isBelowZero_or (i j : Int) :
    (isBelowZero (.int i) || isBelowZero (.int j)) = true ↔ i < 0 ∨ j < 0 := by
  simp [isBelowZero]

/-- Increments are not admitted exactly if one of them is negative. -/
theorem increment_negative (hkey : address.isKey = true) (i j : Int) :
    RefusesInvalid (R.increment address (.int i) (.int j)) ↔ i < 0 ∨ j < 0 := by
  rw [← isBelowZero_or, increment]
  split
  · rename_i hbelow
    simp [RefusesInvalid, EngineError.negativeIncrement, hbelow]
  · rename_i hbelow
    simp [not_refusesInvalid_touch hkey, hbelow]

/-- Other increments find nothing exactly if there is nothing at the address. -/
theorem increment_missing (hkey : address.isKey = true) {i j : Int} (hi : 0 ≤ i) (hj : 0 ≤ j) :
    Refuses (R.increment address (.int i) (.int j)) .sessionNotFound ↔
      R.peers.contains address = false := by
  have hbelow : ¬(isBelowZero (.int i) || isBelowZero (.int j)) = true := by
    rw [isBelowZero_or]
    omega
  rw [increment, if_neg hbelow]
  exact touch_missing hkey

end Reference

namespace Engine

variable {e : Engine} {R : Reference} {l : List Registration} {starts : List Start}
  {ms : List Moment}

/-- In a run of the engine, the last successful request to add or to remove an address was one to
add it. -/
def LastAdded (e : Engine) (ms : List Moment) (address : Value) : Prop :=
  ∃ before m rest, ms = before ++ m :: rest ∧ (e.run before).Adds m address ∧
    ∀ mid n tail, rest = mid ++ n :: tail → ¬(e.run (before ++ m :: mid)).Removes n address

/-- What the last moment of a run means for an address. -/
private theorem lastAdded_concat (n : Moment) (a : Value) :
    e.LastAdded (ms ++ [n]) a ↔
      (e.run ms).Adds n a ∨ e.LastAdded ms a ∧ ¬(e.run ms).Removes n a := by
  constructor
  · rintro ⟨before, m, rest, hms, hadds, hkept⟩
    rcases List.eq_nil_or_concat' rest with rfl | ⟨rest, x, rfl⟩
    · left
      obtain ⟨rfl, hn⟩ := List.append_inj' hms rfl
      obtain rfl := List.singleton_inj.mp hn
      exact hadds
    · right
      have hsplit : ms ++ [n] = (before ++ m :: rest) ++ [x] := by
        rw [hms]
        simp
      obtain ⟨rfl, hx⟩ := List.append_inj' hsplit rfl
      obtain rfl := List.singleton_inj.mp hx
      refine ⟨⟨before, m, rest, rfl, hadds, fun mid x tail hrest => ?_⟩, ?_⟩
      · exact hkept mid x (tail ++ [n]) (by rw [hrest]; simp)
      · exact hkept rest n [] rfl
  · rintro (hadds | ⟨⟨before, m, rest, rfl, hadds, hkept⟩, hremoves⟩)
    · exact ⟨ms, n, [], rfl, hadds, by simp⟩
    · refine ⟨before, m, rest ++ [n], by simp, hadds, fun mid x tail hrest => ?_⟩
      rcases List.eq_nil_or_concat' tail with rfl | ⟨tail, y, rfl⟩
      · obtain ⟨rfl, hx⟩ := List.append_inj' hrest rfl
        obtain rfl := List.singleton_inj.mp hx
        exact hremoves
      · have hsplit : rest ++ [n] = (mid ++ x :: tail) ++ [y] := by
          rw [hrest]
          simp
        obtain ⟨rfl, _⟩ := List.append_inj' hsplit rfl
        exact hkept mid x tail rfl

/-- An address is registered after a run if it was added last. -/
private theorem IsNew.isSome_at?_iff (hnew : e.IsNew) (h : (e.run ms).Holds l starts)
    (a : Value) : (at? l a).isSome = true ↔ e.LastAdded ms a := by
  induction ms using List.reverseRecOn generalizing l starts with
  | nil =>
    obtain rfl : l = [] := h.eq_of_registry hnew.holds.registry_eq
    constructor
    · intro hsome
      cases hsome
    · rintro ⟨before, m, rest, hnil, _⟩
      simp at hnil
  | append_singleton ms n ih =>
    obtain ⟨before, made, hbefore⟩ := (hnew.reachable.run ms).exists_holds
    obtain ⟨l', starts', hstep, _, hafter⟩ := hbefore.exists_after n
    rw [run_append] at h
    obtain rfl : l = l' := h.eq_of_registry hafter.registry_eq
    rw [hstep.isSome_at?_iff, ih hbefore, lastAdded_concat]

/-- The outcomes of calls on the engine are those on the reference. -/
structure AnswersAs (e : Engine) (R : Reference) : Prop where
  /-- The fault switch is the same, with the number of failures that it caused. -/
  faults_eq : e.faults = R.faults
  /-- A request is done on both, or fails on both and for the same cause. -/
  request : ∀ (c : Call) now, c.isRequest = true → c.IsPlain →
    (c.perform e now).result = (R.perform c).2.map fun _ => .done
  /-- A copy of the configuration at an address is read, or there is none for the same cause. -/
  peer : ∀ v, (e.getPeer v).2.map Peer.untimed =
    (R.peers.require v EngineError.peerNotFound).map Registry.kept
  /-- A configuration without sets is read as it was given. -/
  peer_setFree : ∀ v p, R.peers.require v EngineError.peerNotFound = .ok p →
    p.isSetFree = true → (e.getPeer v).2.map Peer.untimed = .ok p
  /-- Copies of the configurations are read, in the same order. -/
  peers : e.getAllPeers.2.map (List.map fun p => (p.address, p.untimed)) =
    .ok (R.peers.mapValues Registry.kept)
  /-- Configurations without sets are read as they were given. -/
  peers_setFree : (∀ entry ∈ R.peers, entry.2.isSetFree = true) →
    e.getAllPeers.2.map (List.map fun p => (p.address, p.untimed)) = .ok R.peers
  /-- There are as many. -/
  peerCount : e.peerCount = R.peers.length
  /-- Where the reference has no configuration, there is no session for the same cause. -/
  session_missing : ∀ v now f, R.peers.require v EngineError.sessionNotFound = .error f →
    (e.getSession v now).2 = .error f
  /-- Where the reference has one, the session that is kept is read. -/
  session_found : ∀ v now p, R.peers.require v EngineError.sessionNotFound = .ok p →
    ∃ s, e.registry.sessionOf.get? v = some s ∧ (e.getSession v now).2 = s.snapshot now

/-- Which calls on the engine are refused and why, depending on which addresses are registered. -/
structure Judges (e : Engine) (Registered : Value → Prop) : Prop where
  /-- While the fault switch is on, every request fails for it and is counted. -/
  faulty : e.faults.isOn = true → ∀ (c : Call) now, c.isRequest = true →
    (∃ operation, Refuses (c.perform e now).result (.simulated operation)) ∧
      (c.perform e now).engine.faults.injected = e.faults.injected + 1
  /-- Only what is not valid is not admitted, where it can be shown what is wrong. -/
  add_invalid : e.faults.isOn = false → ∀ input p now, input.peer = .ok p →
    p.hiddenFault? = none →
    (RefusesInvalid ((Call.addPeer input).perform e now).result ↔ ¬p.IsValid)
  /-- What is valid is a duplicate only at a registered address. -/
  add_duplicate : e.faults.isOn = false → ∀ input p now, input.peer = .ok p → p.IsValid →
    (Refuses ((Call.addPeer input).perform e now).result .duplicatePeer ↔ Registered p.address)
  /-- Every other valid peer is added if it can be copied. -/
  add_free : e.faults.isOn = false → ∀ input p now, input.peer = .ok p → p.IsValid →
    ¬Registered p.address → ((Call.addPeer input).perform e now).result =
      if p.isCopyable then .ok .done else .error .tooDeep
  /-- An update finds no peer only where none is registered. -/
  update_missing : e.faults.isOn = false → ∀ input p now, input.peer = .ok p →
    p.address.isKey = true →
    (Refuses ((Call.updatePeer input).perform e now).result .peerNotFound ↔
      ¬Registered p.address)
  /-- An update at a registered address is not admitted only if it is not valid, where it can be
  shown what is wrong. -/
  update_invalid : e.faults.isOn = false → ∀ input p now, input.peer = .ok p →
    p.address.isKey = true → Registered p.address → p.hiddenFault? = none →
    (RefusesInvalid ((Call.updatePeer input).perform e now).result ↔ ¬p.IsValid)
  /-- Every valid update at a registered address is done if it can be copied. -/
  update_valid : e.faults.isOn = false → ∀ input p now, input.peer = .ok p → p.IsValid →
    Registered p.address → ((Call.updatePeer input).perform e now).result =
      if p.isCopyable then .ok .done else .error .tooDeep
  /-- A removal finds no peer only where none is registered. -/
  remove_missing : e.faults.isOn = false → ∀ v now, v.isKey = true →
    (Refuses ((Call.removePeer v).perform e now).result .peerNotFound ↔ ¬Registered v)
  /-- Noting an error finds no session only where no peer is registered. -/
  error_missing : e.faults.isOn = false → ∀ v message now, v.isKey = true →
    (Refuses ((Call.setSessionError v message).perform e now).result .sessionNotFound ↔
      ¬Registered v)
  /-- Increments are not admitted only if one of them is negative. -/
  increment_negative : e.faults.isOn = false → ∀ v i j now, v.isKey = true →
    (RefusesInvalid ((Call.incrementCounters v (.int i) (.int j)).perform e now).result ↔
      i < 0 ∨ j < 0)
  /-- Counting messages finds no session only where no peer is registered. -/
  increment_missing : e.faults.isOn = false → ∀ v i j now, v.isKey = true → 0 ≤ i → 0 ≤ j →
    (Refuses ((Call.incrementCounters v (.int i) (.int j)).perform e now).result
      .sessionNotFound ↔ ¬Registered v)
  /-- Reading a session finds none only where no peer is registered. -/
  session_missing : ∀ v now, v.isKey = true →
    (Refuses ((Call.session v).perform e now).result .sessionNotFound ↔ ¬Registered v)
  /-- Reading a peer finds none only where none is registered. -/
  peer_missing : ∀ v now, v.isKey = true →
    (Refuses ((Call.peer v).perform e now).result .peerNotFound ↔ ¬Registered v)

section Mirrors

variable (he : e.registry = .ofList l) (hR : R.Shows l)
include he hR

/-- A copy of a configuration of the reference is read. -/
private theorem getPeer_of_shows (v : Value) : (e.getPeer v).2.map Peer.untimed =
    (R.peers.require v EngineError.peerNotFound).map Registry.kept := by
  rw [getPeer, he]
  cases hr : at? l v with
  | none => rw [Registry.getPeer_of_none hr, hR.require_of_none hr, Except.map, Except.map]
  | some r =>
    obtain ⟨p, hp, hcopy⟩ := hR.require_of_some hr EngineError.peerNotFound
    rw [Registry.getPeer_of_some hr, hp, Except.map, Except.map, hcopy]

/-- Copies of the configurations of the reference are read. -/
private theorem getAllPeers_of_shows (haddress : ∀ r ∈ l, r.peer.address = .text r.address) :
    e.getAllPeers.2.map (List.map fun p => (p.address, p.untimed)) =
      .ok (R.peers.mapValues Registry.kept) := by
  have hpeers : e.registry.peers = l.map Registration.peer := by
    rw [he]
    exact values_column l Registration.peer
  simp only [getAllPeers, hpeers, Except.map, hR.copies_eq, column, List.map_map]
  congr 1
  apply List.map_congr_left
  intro r hr
  simp [haddress r hr]

end Mirrors

/-- The outcomes of calls on an engine are those on a reference that mirrors it. -/
private theorem Mirrors.answersAs (h : e.Mirrors R) : e.AnswersAs R := by
  obtain ⟨l, starts, hholds, hfaults, hR⟩ := h
  have he := hholds.registry_eq
  have hpeers := getAllPeers_of_shows he hR hholds.peer_address
  constructor
  case faults_eq => exact hfaults
  case request =>
    intro c now hrequest hplain
    obtain ⟨out, hperform, hagrees⟩ := perform_agrees he hfaults hR hrequest hplain now
    rw [hperform, Call.changing, hagrees.result_eq]
  case peer => exact getPeer_of_shows he hR
  case peer_setFree =>
    intro v p hp hfree
    rw [getPeer_of_shows he hR, hp, Except.map, Registry.kept_eq hfree]
  case peers => exact hpeers
  case peers_setFree =>
    intro hfree
    rw [hpeers, Table.mapValues_eq_self fun entry hentry => Registry.kept_eq (hfree entry hentry)]
  case peerCount =>
    have hlength := congrArg List.length hR.copies_eq
    simpa [peerCount, Registry.size, he, Registry.ofList, Table.mapValues, column] using
      hlength.symm
  case session_missing =>
    intro v now f hf
    cases hr : at? l v with
    | none =>
      rw [hR.require_of_none hr] at hf
      simp only [getSession, he, Registry.getSession_of_none hr]
      exact congrArg Except.error (Except.error.inj hf)
    | some r =>
      obtain ⟨q, hq, -⟩ := hR.require_of_some hr EngineError.sessionNotFound
      cases hq.symm.trans hf
  case session_found =>
    intro v now p hp
    cases hr : at? l v with
    | none =>
      rw [hR.require_of_none hr] at hp
      cases hp
    | some r =>
      refine ⟨r.session, ?_, ?_⟩
      · exact (hholds.sessionAt?_eq v).trans (by rw [hr]; rfl)
      · simp only [getSession, he, Registry.getSession_of_some hr]
        cases r.session.snapshot now <;> rfl

/-- While the fault switch is on, every request fails for it and is counted. -/
private theorem fails_of_on (hon : e.faults.isOn = true) {c : Call} (hrequest : c.isRequest = true)
    (now : Float) : (∃ operation, Refuses (c.perform e now).result (.simulated operation)) ∧
      (c.perform e now).engine.faults.injected = e.faults.injected + 1 := by
  have hfails (operation request : String) (address : Value) (body : Engine → Outcome Unit) :
      (∃ operation', Refuses (Call.changing
          (e.unlessFaulty operation request address body)).result (.simulated operation')) ∧
        (Call.changing (e.unlessFaulty operation request address body)).engine.faults.injected =
          e.faults.injected + 1 := by
    obtain ⟨hengine, hresult⟩ := unlessFaulty_of_on hon operation request address body
    simp only [Call.changing, hengine, hresult, refuses_map, refuses_refused]
    exact ⟨⟨_, rfl⟩, trivial⟩
  cases c with
  | addPeer | updatePeer | removePeer | setSessionError | incrementCounters =>
    exact hfails _ _ _ _
  | setFaults | session | sessions | peer | peers | counts | runningConfig | statistics | walk
  | faults | describe => cases hrequest

/-- While the fault switch is off, a request has the outcome of its body on the reference. -/
private theorem AnswersAs.result_of_off (h : e.AnswersAs R) (hoff : e.faults.isOn = false)
    {c : Call} (hrequest : c.isRequest = true) (hplain : c.IsPlain) (now : Float)
    {operation : String} {address : Value} {body : Except Failure Reference}
    (hbody : R.perform c = R.request operation address body) :
    (c.perform e now).result = body.map fun _ => .done := by
  have hoff' : R.faults.isOn = false := h.faults_eq ▸ hoff
  rw [h.request c now hrequest hplain, hbody, Reference.request_of_off hoff']
  cases body <;> rfl

/-- A session that is there can always be read, or its uptime cannot be told. -/
private theorem not_refuses_snapshot (s : Session) (now : Float) (kind : EngineErrorKind) :
    ¬Refuses (s.snapshot now) kind := by
  unfold Session.snapshot Session.secondsBetween
  split
  · split
    · simp
    · rename_i f hf
      split at hf
      · cases hf
      · obtain rfl := Except.error.inj hf
        simp [Refuses]
      · obtain rfl := Except.error.inj hf
        simp [Refuses]
  · simp

namespace AnswersAs

variable (h : e.AnswersAs R) (hoff : e.faults.isOn = false)
include h hoff

private theorem result_addPeer {input : PeerInput} {p : Peer} (hp : input.peer = .ok p)
    (now : Float) :
    ((Call.addPeer input).perform e now).result = (R.add p).map fun _ => .done := by
  have hbody : R.perform (.addPeer input) = R.request "add peer" input.address (R.add p) := by
    rw [Reference.perform, hp]
    rfl
  exact h.result_of_off hoff rfl (Call.isPlain_of_ne (by simp)) now hbody

private theorem result_updatePeer {input : PeerInput} {p : Peer} (hp : input.peer = .ok p)
    (now : Float) :
    ((Call.updatePeer input).perform e now).result = (R.update p).map fun _ => .done := by
  have hbody : R.perform (.updatePeer input) =
      R.request "update peer" input.address (R.update p) := by
    rw [Reference.perform, hp]
    rfl
  exact h.result_of_off hoff rfl (Call.isPlain_of_ne (by simp)) now hbody

private theorem result_removePeer (v : Value) (now : Float) :
    ((Call.removePeer v).perform e now).result = (R.remove v).map fun _ => .done :=
  h.result_of_off hoff rfl (Call.isPlain_of_ne (by simp)) now rfl

private theorem result_setSessionError (v message : Value) (now : Float) :
    ((Call.setSessionError v message).perform e now).result =
      (R.touch v).map fun _ => .done :=
  h.result_of_off hoff rfl (Call.isPlain_of_ne (by simp)) now rfl

private theorem result_incrementCounters (v : Value) (i j : Int) (now : Float) :
    ((Call.incrementCounters v (.int i) (.int j)).perform e now).result =
      (R.increment v (.int i) (.int j)).map fun _ => .done := by
  refine h.result_of_off hoff rfl (fun v' received sent hcall => ?_) now rfl
  obtain ⟨_, rfl, rfl⟩ := Call.incrementCounters.inj hcall
  exact ⟨i, j, rfl, rfl⟩

end AnswersAs

/-- Reading a session finds none only where the reference has no configuration. -/
private theorem AnswersAs.refuses_session (h : e.AnswersAs R) {v : Value}
    (hkey : v.isKey = true) (now : Float) :
    Refuses ((Call.session v).perform e now).result .sessionNotFound ↔
      R.peers.contains v = false := by
  rw [Call.perform, Call.reading, refuses_map]
  cases hcontains : R.peers.contains v with
  | false =>
    have hrequire := Table.require_of_not_contains hkey hcontains EngineError.sessionNotFound
    simp [h.session_missing v now _ hrequire, EngineError.sessionNotFound]
  | true =>
    obtain ⟨p, hp⟩ := Table.require_of_contains hkey hcontains EngineError.sessionNotFound
    obtain ⟨s, _, hread⟩ := h.session_found v now p hp
    simp [hread, not_refuses_snapshot]

/-- Reading a peer finds none only where the reference has no configuration. -/
private theorem AnswersAs.refuses_peer (h : e.AnswersAs R) {v : Value} (hkey : v.isKey = true)
    (now : Float) :
    Refuses ((Call.peer v).perform e now).result .peerNotFound ↔
      R.peers.contains v = false := by
  rw [Call.perform, Call.reading, refuses_map, ← refuses_map, h.peer v]
  cases hcontains : R.peers.contains v with
  | false =>
    simp [Table.require_of_not_contains hkey hcontains, EngineError.peerNotFound]
  | true =>
    obtain ⟨p, hp⟩ := Table.require_of_contains hkey hcontains EngineError.peerNotFound
    simp [hp]

/-- On an engine that answers as a reference, those addresses are registered that the reference
has. -/
private theorem AnswersAs.judges (h : e.AnswersAs R) {Registered : Value → Prop}
    (hregistered : ∀ a, R.peers.contains a = true ↔ Registered a) : e.Judges Registered := by
  have hmissing (a : Value) : R.peers.contains a = false ↔ ¬Registered a := by
    rw [← hregistered, Bool.not_eq_true]
  constructor
  case faulty => exact fun hon c now hrequest => fails_of_on hon hrequest now
  case add_invalid =>
    intro hoff input p now hp hshown
    rw [h.result_addPeer hoff hp, refusesInvalid_map, Reference.add_invalid hshown]
  case add_duplicate =>
    intro hoff input p now hp hvalid
    rw [h.result_addPeer hoff hp, refuses_map, Reference.add_duplicate hvalid, hregistered]
  case add_free =>
    intro hoff input p now hp hvalid hfree
    rw [h.result_addPeer hoff hp, Reference.add_of_free hvalid ((hmissing _).mpr hfree),
      Reference.put_map]
  case update_missing =>
    intro hoff input p now hp hkey
    rw [h.result_updatePeer hoff hp, refuses_map, Reference.update_missing hkey, hmissing]
  case update_invalid =>
    intro hoff input p now hp hkey hr hshown
    have hcontains : R.peers.contains p.address = true := (hregistered p.address).mpr hr
    rw [h.result_updatePeer hoff hp, refusesInvalid_map,
      Reference.update_invalid hkey hcontains hshown]
  case update_valid =>
    intro hoff input p now hp hvalid hr
    rw [h.result_updatePeer hoff hp,
      Reference.update_of_contains hvalid ((hregistered p.address).mpr hr), Reference.put_map]
  case remove_missing =>
    intro hoff v now hkey
    rw [h.result_removePeer hoff, refuses_map, Reference.remove_missing hkey, hmissing]
  case error_missing =>
    intro hoff v message now hkey
    rw [h.result_setSessionError hoff, refuses_map, Reference.touch_missing hkey, hmissing]
  case increment_negative =>
    intro hoff v i j now hkey
    rw [h.result_incrementCounters hoff, refusesInvalid_map, Reference.increment_negative hkey]
  case increment_missing =>
    intro hoff v i j now hkey hi hj
    rw [h.result_incrementCounters hoff, refuses_map, Reference.increment_missing hkey hi hj,
      hmissing]
  case session_missing =>
    intro v now hkey
    rw [h.refuses_session hkey, hmissing]
  case peer_missing =>
    intro v now hkey
    rw [h.refuses_peer hkey, hmissing]

/-- A run in which a peer is added, served by its walk, removed and added again. -/
def servedRun : List Moment := [
  ⟨.call (.addPeer (.record samplePeer)), 0.0⟩,
  ⟨.turn 0 {} true, 0.0⟩,
  ⟨.call (.incrementCounters sampleAddress (.int 3) (.int 4)), 1.0⟩,
  ⟨.call (.removePeer sampleAddress), 2.0⟩,
  ⟨.turn 0 {} true, 2.0⟩,
  ⟨.call (.addPeer (.record samplePeer)), 3.0⟩]

end Engine

end Peering
