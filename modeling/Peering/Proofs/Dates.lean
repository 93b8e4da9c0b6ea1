import Peering.Proofs.ClockOrder
import Peering.Proofs.Likeness
import Peering.Proofs.Succession
import Peering.Proofs.TextKeys
import Mathlib.Data.List.Induction

/-!
# Dates of peers

A peer keeps the time at which it was registered. The time of its last update is refreshed by each
update: to the clock, or to the last one if that is later. A last update at time zero counts as
none, so after it the time may be set back, and only then. This holds whether peers are registered
through the engine or directly, and whatever the clock does.
-/

namespace Peering

namespace Registry

/-- What can be done to a peer of a registry. -/
inductive Operation where
  | insert (p : Peer) (generation : Value)
  | replace (p : Peer)
  | delete (address : Value)

/-- The address of the peer. -/
def Operation.address : Operation → Value
  | .insert p _ | .replace p => p.address
  | .delete address => address

/-- Performs an operation at a moment. -/
def perform (r : Registry) (now : Float) : Operation → Except Failure Registry
  | .insert p generation => r.insert p generation now
  | .replace p => r.replace p now
  | .delete address => r.delete address

section Operations

variable {r r' : Registry} {p : Peer} {v g : Value} {now : Float}

/-- A peer that is registered was not there before. -/
theorem peerOf_insert (h : r.insert p g now = .ok r') :
    r.peerOf.get? p.address = none ∧ r'.peerOf = r.peerOf.set p.address (created p now) := by
  unfold insert Table.lookUp at h
  split at h
  · cases h
  · cases h
  · rename_i hnone
    split at hnone
    · split at h
      · obtain rfl := Except.ok.inj h
        exact ⟨Except.ok.inj hnone, rfl⟩
      · cases h
    · cases hnone

/-- The peer that is got at an address is found there. -/
theorem get?_of_getPeer (h : r.getPeer v = .ok p) : r.peerOf.get? v = some p := by
  unfold getPeer Table.require Table.lookUp at h
  split at h
  · cases h
  · cases h
  · rename_i hfound
    obtain rfl := Except.ok.inj h
    split at hfound
    · exact Except.ok.inj hfound
    · cases hfound

/-- A peer that is replaced was there before. -/
theorem peerOf_replace (h : r.replace p now = .ok r') :
    ∃ q, r.peerOf.get? p.address = some q ∧
      r'.peerOf = r.peerOf.set p.address (updated q p now) := by
  unfold replace at h
  split at h
  · cases h
  · rename_i q hq
    split at h
    · obtain rfl := Except.ok.inj h
      exact ⟨q, get?_of_getPeer hq, rfl⟩
    · cases h

/-- A peer that is deleted is taken out. -/
theorem peerOf_delete (h : r.delete v = .ok r') : r'.peerOf = r.peerOf.erase v := by
  unfold delete at h
  split at h
  · cases h
  · split at h
    · obtain rfl := Except.ok.inj h
      rfl
    · cases h

end Operations

section UpdateTimes

variable {t now : Float}

/-- The time of an update after one at another time. -/
def refreshed (t now : Float) : Float := updateTime (.float t) now

private theorem refreshed_eq (t now : Float) :
    refreshed t now = if t == 0.0 then now else if now < t then t else now := rfl

/-- The time of an update is a number if the clock shows one. -/
theorem isNaN_refreshed (ht : t.isNaN = false) (hnow : now.isNaN = false) :
    (refreshed t now).isNaN = false := by
  rw [refreshed_eq]
  split
  · exact hnow
  · split
    · exact ht
    · exact hnow

/-- An update has at least the time that the clock shows. -/
theorem le_refreshed (hnow : now.isNaN = false) : now ≤ refreshed t now := by
  rw [refreshed_eq]
  split
  · exact Double.le_refl hnow
  · split
    · rename_i hlt
      exact Double.le_of_lt hlt
    · exact Double.le_refl hnow

/-- The time of the last update is set back if it is zero and the clock shows less, and only then.
-/
theorem refreshed_lt_iff (ht : t.isNaN = false) :
    refreshed t now < t ↔ (t == 0.0) = true ∧ now < t := by
  have hirrefl : ¬t < t := fun hlt => Double.not_le_of_lt hlt (Double.le_refl ht)
  rw [refreshed_eq]
  split
  · rename_i hzero
    exact ⟨fun hlt => ⟨hzero, hlt⟩, And.right⟩
  · rename_i hzero
    split
    · exact ⟨fun hlt => absurd hlt hirrefl, fun h => absurd h.1 hzero⟩
    · rename_i hnow
      exact ⟨fun hlt => absurd hlt hnow, fun h => absurd h.1 hzero⟩

end UpdateTimes

end Registry

/-- What can happen to an engine and its registry: what happens to the engine, and what is done
directly to the registry. -/
inductive Deed where
  | moment (m : Moment)
  | direct (op : Registry.Operation) (now : Float)

/-- What the clock shows meanwhile. -/
def Deed.now : Deed → Float
  | .moment m => m.now
  | .direct _ now => now

/-- What a call is to do to a peer of the registry. -/
def Call.operation? (e : Engine) : Call → Option Registry.Operation
  | .addPeer input => input.peer.toOption.map fun p => .insert p (.int e.nextGeneration)
  | .updatePeer input => input.peer.toOption.map .replace
  | .removePeer address => some (.delete address)
  | .setSessionError _ _ | .incrementCounters _ _ _ | .setFaults _ | .session _ | .sessions
  | .peer _ | .peers | .counts | .runningConfig | .statistics | .walk _ | .faults
  | .describe => none

namespace Engine

/-- The engine after a deed. A direct operation that fails changes nothing. -/
def afterDeed (e : Engine) : Deed → Engine
  | .moment m => e.after m
  | .direct op now =>
    match e.registry.perform now op with
    | .ok registry => { e with registry }
    | .error _ => e

/-- The engine after several deeds. -/
def afterDeeds (e : Engine) (ds : List Deed) : Engine := ds.foldl afterDeed e

/-- The peer at an address. -/
def peerAt? (e : Engine) (address : Value) : Option Peer := e.registry.peerOf.get? address

/-- What a deed does to a peer of the registry, if it does not fail. -/
def operation? (e : Engine) : Deed → Option Registry.Operation
  | .moment m =>
    match m.move with
    | .call c => if (e.meet m).result.isOk then c.operation? e else none
    | .turn _ _ _ | .close => none
  | .direct op now => if (e.registry.perform now op).isOk then some op else none

variable {e : Engine} {a : String} {d : Deed}

section Requests

/-- A peer is added by its registration, or nothing changes in the registry. -/
private theorem registry_addPeer (e : Engine) (input : PeerInput) (now : Float) :
    (∃ f, (e.addPeer input now).result = .error f) ∧
        (e.addPeer input now).engine.registry = e.registry ∨
      (e.addPeer input now).result = .ok () ∧ ∃ p, input.peer = .ok p ∧
        e.registry.insert p (.int e.nextGeneration) now =
          .ok (e.addPeer input now).engine.registry := by
  rcases e.faults.isOn.eq_false_or_eq_true with hon | hoff
  · obtain ⟨hengine, hresult⟩ := unlessFaulty_of_on hon "add peer" "add peer" input.address _
    exact .inl ⟨⟨_, hresult⟩, congrArg (·.registry) hengine⟩
  simp only [addPeer, unlessFaulty_of_off hoff]
  split
  · exact .inl ⟨⟨_, result_fail _ _ _⟩, by rw [engine_fail]⟩
  · rename_i p hp
    split
    · exact .inl ⟨⟨_, result_fail _ _ _⟩, by rw [engine_fail]⟩
    · unfold register
      simp only
      split
      · exact .inl ⟨⟨_, result_fail _ _ _⟩, by rw [engine_fail]⟩
      · rename_i registry hinsert
        exact .inr ⟨rfl, p, hp, hinsert⟩

/-- A peer is updated in the registry, or nothing changes there. -/
private theorem registry_updatePeer (e : Engine) (input : PeerInput) (now : Float) :
    (∃ f, (e.updatePeer input now).result = .error f) ∧
        (e.updatePeer input now).engine.registry = e.registry ∨
      (e.updatePeer input now).result = .ok () ∧ ∃ p, input.peer = .ok p ∧
        e.registry.replace p now = .ok (e.updatePeer input now).engine.registry := by
  rcases e.faults.isOn.eq_false_or_eq_true with hon | hoff
  · obtain ⟨hengine, hresult⟩ := unlessFaulty_of_on hon "update peer" "update peer" input.address _
    exact .inl ⟨⟨_, hresult⟩, congrArg (·.registry) hengine⟩
  simp only [updatePeer, unlessFaulty_of_off hoff]
  split
  · exact .inl ⟨⟨_, result_fail _ _ _⟩, by rw [engine_fail]⟩
  · rename_i p hp
    unfold replace
    split
    · exact .inl ⟨⟨_, result_fail _ _ _⟩, by rw [engine_fail]⟩
    · split
      · exact .inl ⟨⟨_, result_fail _ _ _⟩, by rw [engine_fail]⟩
      · split
        · exact .inl ⟨⟨_, result_fail _ _ _⟩, by rw [engine_fail]⟩
        · rename_i registry hreplace
          exact .inr ⟨rfl, p, hp, hreplace⟩

/-- A peer is deleted from the registry, or nothing changes there. -/
private theorem registry_removePeer (e : Engine) (v : Value) :
    (∃ f, (e.removePeer v).result = .error f) ∧
        (e.removePeer v).engine.registry = e.registry ∨
      (e.removePeer v).result = .ok () ∧
        e.registry.delete v = .ok (e.removePeer v).engine.registry := by
  rcases e.faults.isOn.eq_false_or_eq_true with hon | hoff
  · obtain ⟨hengine, hresult⟩ := unlessFaulty_of_on hon "remove peer" "remove peer" v _
    exact .inl ⟨⟨_, hresult⟩, congrArg (·.registry) hengine⟩
  simp only [removePeer, unlessFaulty_of_off hoff]
  split
  · exact .inl ⟨⟨_, result_fail _ _ _⟩, by rw [engine_fail]⟩
  · rename_i registry hdelete
    refine .inr ⟨rfl, hdelete.trans ?_⟩
    exact congrArg Except.ok (Roster.cancelAll_eq ⟨registry, e.walks⟩ _).1.symm

/-- What is written into a session touches no peer. -/
private theorem peerOf_setSessionError (e : Engine) (v message : Value) :
    (e.setSessionError v message).engine.registry.peerOf = e.registry.peerOf := by
  rcases e.faults.isOn.eq_false_or_eq_true with hon | hoff
  · rw [setSessionError, (unlessFaulty_of_on hon _ _ _ _).1]
  simp only [setSessionError, unlessFaulty_of_off hoff]
  split
  · rw [engine_fail]
  · rfl

private theorem peerOf_incrementCounters (e : Engine) (v received sent : Value) :
    (e.incrementCounters v received sent).engine.registry.peerOf = e.registry.peerOf := by
  rcases e.faults.isOn.eq_false_or_eq_true with hon | hoff
  · rw [incrementCounters, (unlessFaulty_of_on hon _ _ _ _).1]
  simp only [incrementCounters, unlessFaulty_of_off hoff]
  split
  · rw [engine_fail]
  · rfl
  · split
    · rw [engine_fail]
    · rfl

/-- A call that is done performs its operation. One that fails, or has none, changes no peer. -/
private theorem registry_call (e : Engine) (c : Call) (now : Float) :
    ((c.perform e now).result.isOk = true ∧ ∃ op, c.operation? e = some op ∧
        e.registry.perform now op = .ok (c.perform e now).engine.registry) ∨
      ((c.perform e now).result.isOk = false ∨ c.operation? e = none) ∧
        (c.perform e now).engine.registry.peerOf = e.registry.peerOf := by
  have hfailed {out : Outcome Unit} (hfails : ∃ f, out.result = .error f) :
      (Call.changing out).result.isOk = false := by
    obtain ⟨f, hf⟩ := hfails
    rw [Call.changing, hf]
    rfl
  have hdone {out : Outcome Unit} (hok : out.result = .ok ()) :
      (Call.changing out).result.isOk = true := by
    rw [Call.changing, hok]
    rfl
  cases c with
  | addPeer input =>
    rcases registry_addPeer e input now with ⟨hfails, hregistry⟩ | ⟨hok, p, hp, hinsert⟩
    · exact .inr ⟨.inl (hfailed hfails), congrArg Registry.peerOf hregistry⟩
    · have hop : (Call.addPeer input).operation? e =
          some (.insert p (.int e.nextGeneration)) := by
        rw [Call.operation?, hp]
        rfl
      exact .inl ⟨hdone hok, _, hop, hinsert⟩
  | updatePeer input =>
    rcases registry_updatePeer e input now with ⟨hfails, hregistry⟩ | ⟨hok, p, hp, hreplace⟩
    · exact .inr ⟨.inl (hfailed hfails), congrArg Registry.peerOf hregistry⟩
    · have hop : (Call.updatePeer input).operation? e = some (.replace p) := by
        rw [Call.operation?, hp]
        rfl
      exact .inl ⟨hdone hok, _, hop, hreplace⟩
  | removePeer v =>
    rcases registry_removePeer e v with ⟨hfails, hregistry⟩ | ⟨hok, hdelete⟩
    · exact .inr ⟨.inl (hfailed hfails), congrArg Registry.peerOf hregistry⟩
    · exact .inl ⟨hdone hok, _, rfl, hdelete⟩
  | setSessionError v message => exact .inr ⟨.inr rfl, peerOf_setSessionError e v message⟩
  | incrementCounters v received sent =>
    exact .inr ⟨.inr rfl, peerOf_incrementCounters e v received sent⟩
  | setFaults enabled => cases enabled <;> exact .inr ⟨.inr rfl, rfl⟩
  | session | sessions | peer | peers | counts | runningConfig | statistics | walk | faults
  | describe => exact .inr ⟨.inr rfl, rfl⟩

end Requests

/-- A deed performs its operation on the registry. -/
private theorem perform_of_operation? {op : Registry.Operation} (hop : e.operation? d = some op) :
    e.registry.perform d.now op = .ok (e.afterDeed d).registry := by
  cases d with
  | direct op' now =>
    simp only [operation?] at hop
    split at hop
    · rename_i hok
      obtain rfl := Option.some.inj hop
      cases hperform : e.registry.perform now op' with
      | error f => rw [hperform] at hok; cases hok
      | ok registry => simp only [afterDeed, Deed.now, hperform]
    · cases hop
  | moment m =>
    change e.registry.perform m.now op = .ok (e.after m).registry
    simp only [operation?] at hop
    split at hop
    · rename_i c hmove
      rw [meet_call hmove] at hop
      split at hop
      · rename_i hok
        rw [after_call hmove]
        rcases registry_call e c m.now with ⟨_, op', hop', hperform⟩ | ⟨hfails | hnone, _⟩
        · obtain rfl := Option.some.inj (hop'.symm.trans hop)
          exact hperform
        · rw [hfails] at hok
          cases hok
        · rw [hnone] at hop
          cases hop
      · cases hop
    · cases hop
    · cases hop

/-- A deed without an operation leaves all peers as they are. -/
private theorem peerOf_of_operation?_none (hop : e.operation? d = none) :
    (e.afterDeed d).registry.peerOf = e.registry.peerOf := by
  cases d with
  | direct op now =>
    simp only [operation?] at hop
    split at hop
    · cases hop
    · rename_i hok
      simp only [afterDeed]
      cases hperform : e.registry.perform now op with
      | error f => rfl
      | ok registry => rw [hperform] at hok; exact absurd rfl hok
  | moment m =>
    change (e.after m).registry.peerOf = _
    cases hmove : m.move with
    | call c =>
      rw [after_call hmove]
      rcases registry_call e c m.now with ⟨hok, op, hop', _⟩ | ⟨_, hpeers⟩
      · simp only [operation?, hmove, meet_call hmove, hok, if_true, hop'] at hop
        cases hop
      · exact hpeers
    | turn i o heeding =>
      rw [after_turn hmove]
      cases hw : e.walk? i with
      | none => rw [turnOf_of_none hw]
      | some w =>
        rw [turnOf_of_some hw, w.turnWith_registry]
        cases w.writes? heeding e.registry m.now <;> rfl
    | close =>
      rw [after_close hmove]
      exact congrArg Registry.peerOf (Roster.cancelAll_eq _ _).1

/-- An operation for another address does nothing to a peer. -/
private theorem peerAt?_of_ne (hop : ∀ op, e.operation? d = some op → op.address ≠ .text a) :
    (e.afterDeed d).peerAt? (.text a) = e.peerAt? (.text a) := by
  unfold peerAt?
  cases hd : e.operation? d with
  | none => rw [peerOf_of_operation?_none hd]
  | some op =>
    have hne := hop op hd
    have hperform := perform_of_operation? hd
    cases op with
    | insert p g =>
      rw [(Registry.peerOf_insert hperform).2, Table.get?_text_set_of_ne (k := p.address) hne]
    | replace p =>
      obtain ⟨q, _, hpeers⟩ := Registry.peerOf_replace hperform
      rw [hpeers, Table.get?_text_set_of_ne (k := p.address) hne]
    | delete v => rw [Registry.peerOf_delete hperform, Table.get?_text_erase_of_ne (k := v) hne]

/-- A peer that is registered gets the time of the clock. -/
private theorem peerAt?_of_insert {p : Peer} {g : Value}
    (hop : e.operation? d = some (.insert p g)) (haddress : p.address = .text a) :
    (e.afterDeed d).peerAt? (.text a) = some (Registry.created p d.now) := by
  rw [peerAt?, (Registry.peerOf_insert (perform_of_operation? hop)).2, haddress,
    Table.get?_set_self]

/-- A peer that is replaced was there, and its times are refreshed. -/
private theorem peerAt?_of_replace {p : Peer} (hop : e.operation? d = some (.replace p))
    (haddress : p.address = .text a) : ∃ q, e.peerAt? (.text a) = some q ∧
      (e.afterDeed d).peerAt? (.text a) = some (Registry.updated q p d.now) := by
  obtain ⟨q, hq, hpeers⟩ := Registry.peerOf_replace (perform_of_operation? hop)
  rw [haddress] at hq hpeers
  exact ⟨q, hq, by rw [peerAt?, hpeers, Table.get?_set_self]⟩

/-- A peer that is deleted is gone. -/
private theorem peerAt?_of_delete (hop : e.operation? d = some (.delete (.text a))) :
    (e.afterDeed d).peerAt? (.text a) = none := by
  rw [peerAt?, Registry.peerOf_delete (perform_of_operation? hop), Table.get?_erase_self]

/-- Along some deeds the peer at an address is neither registered nor deleted, and it is replaced
when the clock shows these times. -/
inductive Refreshes (a : String) : Engine → List Deed → List Float → Prop where
  | nil {e : Engine} : Refreshes a e [] []
  | replaced {e : Engine} {d : Deed} {ds : List Deed} {ts : List Float} {p : Peer}
    (hop : e.operation? d = some (.replace p)) (haddress : p.address = .text a)
    (hrest : Refreshes a (e.afterDeed d) ds ts) : Refreshes a e (d :: ds) (d.now :: ts)
  | passed {e : Engine} {d : Deed} {ds : List Deed} {ts : List Float}
    (hop : ∀ op, e.operation? d = some op → op.address ≠ .text a)
    (hrest : Refreshes a (e.afterDeed d) ds ts) : Refreshes a e (d :: ds) ts

/-- The peer at an address was registered when the clock showed a time, and since then it was
replaced when the clock showed these times. -/
def Dates (e : Engine) (ds : List Deed) (a : String) (t : Float) (ts : List Float) : Prop :=
  ∃ before d since p g, ds = before ++ d :: since ∧
    (e.afterDeeds before).operation? d = some (.insert p g) ∧ p.address = .text a ∧ d.now = t ∧
    Refreshes a ((e.afterDeeds before).afterDeed d) since ts

/-- No update comes when the clock shows less than zero and the last one was at zero. -/
def Steady (t : Float) : List Float → Prop
  | [] => True
  | now :: ts => ¬((t == 0.0) = true ∧ now < t) ∧ Steady (Registry.refreshed t now) ts

/-- The times of all peers along some deeds. -/
structure KeepsDates (e : Engine) (ds : List Deed) : Prop where
  /-- A peer has the time of its registration, and the time of its last update is that one as it has
  been refreshed since. It is not less, unless an update has set it back. -/
  dated : ∀ a p, (e.afterDeeds ds).peerAt? (.text a) = some p → ∃ t ts, e.Dates ds a t ts ∧
    p.createdAt = .float t ∧ p.updatedAt = .float (ts.foldl Registry.refreshed t) ∧
    (Steady t ts → t ≤ ts.foldl Registry.refreshed t)
  /-- An update keeps the time of registration. The time of the last update becomes at least that
  of the clock. It is set back if it was zero and the clock shows less, and only then. -/
  refreshed : ∀ before d since p a, ds = before ++ d :: since →
    (e.afterDeeds before).operation? d = some (.replace p) → p.address = .text a →
    ∃ q q' t t', (e.afterDeeds before).peerAt? (.text a) = some q ∧
      ((e.afterDeeds before).afterDeed d).peerAt? (.text a) = some q' ∧
      q'.createdAt = q.createdAt ∧ q.updatedAt = .float t ∧ q'.updatedAt = .float t' ∧
      d.now ≤ t' ∧ (t' < t ↔ (t == 0.0) = true ∧ d.now < t)
  /-- Nothing but what is done at its address changes a peer. -/
  kept : ∀ before d since a, ds = before ++ d :: since →
    (∀ op, (e.afterDeeds before).operation? d = some op → op.address ≠ .text a) →
    ((e.afterDeeds before).afterDeed d).peerAt? (.text a) =
      (e.afterDeeds before).peerAt? (.text a)

section Runs

variable {ds : List Deed} {t : Float} {ts : List Float}

/-- Deeds are done one after the other. -/
theorem afterDeeds_append (e : Engine) (ds ds' : List Deed) :
    e.afterDeeds (ds ++ ds') = (e.afterDeeds ds).afterDeeds ds' := List.foldl_append

private theorem Refreshes.concat_replaced (h : Refreshes a e ds ts) {p : Peer}
    (hop : (e.afterDeeds ds).operation? d = some (.replace p)) (haddress : p.address = .text a) :
    Refreshes a e (ds ++ [d]) (ts ++ [d.now]) := by
  induction h with
  | nil => exact .replaced hop haddress .nil
  | replaced hop' haddress' _ ih => exact .replaced hop' haddress' (ih hop)
  | passed hop' _ ih => exact .passed hop' (ih hop)

private theorem Refreshes.concat_passed (h : Refreshes a e ds ts)
    (hop : ∀ op, (e.afterDeeds ds).operation? d = some op → op.address ≠ .text a) :
    Refreshes a e (ds ++ [d]) ts := by
  induction h with
  | nil => exact .passed hop .nil
  | replaced hop' haddress' _ ih => exact .replaced hop' haddress' (ih hop)
  | passed hop' _ ih => exact .passed hop' (ih hop)

/-- The last deed belongs to those since the registration. -/
private theorem afterDeeds_split {before since : List Deed} {d' : Deed}
    (hds : ds = before ++ d' :: since) :
    e.afterDeeds ds = ((e.afterDeeds before).afterDeed d').afterDeeds since := by
  rw [hds, afterDeeds_append]
  rfl

/-- The times of a peer that was registered are those of its registration and its updates. -/
private theorem IsNew.exists_dates (he : e.IsNew) (ds : List Deed) {p : Peer}
    (hp : (e.afterDeeds ds).peerAt? (.text a) = some p) : ∃ t ts, e.Dates ds a t ts ∧
      p.createdAt = .float t ∧ p.updatedAt = .float (ts.foldl Registry.refreshed t) := by
  induction ds using List.reverseRecOn generalizing p with
  | nil =>
    have hempty : e.peerAt? (.text a) = none := by
      rw [peerAt?, he.registry_eq]
      rfl
    change e.peerAt? (.text a) = some p at hp
    rw [hempty] at hp
    cases hp
  | append_singleton ds d ih =>
    have hlast : e.afterDeeds (ds ++ [d]) = (e.afterDeeds ds).afterDeed d :=
      e.afterDeeds_append ds [d]
    rw [hlast] at hp
    -- The last deed passes the peer by, or its operation is what the present times come from.
    by_cases hop : ∀ op, (e.afterDeeds ds).operation? d = some op → op.address ≠ .text a
    · rw [peerAt?_of_ne hop] at hp
      obtain ⟨t, ts, ⟨before, d', since, q, g, hds, hinsert, haddress, ht, hrest⟩, hcreated,
        hupdated⟩ := ih hp
      refine ⟨t, ts, ⟨before, d', since ++ [d], q, g, ?_, hinsert, haddress, ht, ?_⟩, hcreated,
        hupdated⟩
      · rw [hds, List.append_assoc]
        rfl
      · exact hrest.concat_passed (afterDeeds_split hds ▸ hop)
    · push Not at hop
      obtain ⟨op, hop, haddress⟩ := hop
      cases op with
      | insert q g =>
        obtain rfl := Option.some.inj ((peerAt?_of_insert hop haddress).symm.trans hp)
        exact ⟨d.now, [], ⟨ds, d, [], q, g, rfl, hop, haddress, rfl, .nil⟩, rfl, rfl⟩
      | replace q =>
        obtain ⟨p₀, hp₀, hafter⟩ := peerAt?_of_replace hop haddress
        obtain rfl := Option.some.inj (hafter.symm.trans hp)
        obtain ⟨t, ts, ⟨before, d', since, q', g, hds, hinsert, haddress', ht, hrest⟩, hcreated,
          hupdated⟩ := ih hp₀
        refine ⟨t, ts ++ [d.now],
          ⟨before, d', since ++ [d], q', g, ?_, hinsert, haddress', ht, ?_⟩, hcreated, ?_⟩
        · rw [hds, List.append_assoc]
          rfl
        · exact hrest.concat_replaced (afterDeeds_split hds ▸ hop) haddress
        · rw [List.foldl_append, Registry.updated, hupdated]
          rfl
      | delete v =>
        obtain rfl : v = .text a := haddress
        rw [peerAt?_of_delete hop] at hp
        cases hp

/-- The times at which a peer is registered and refreshed are readings of the clock. -/
private theorem Refreshes.mem_readings (h : Refreshes a e ds ts) :
    ∀ t ∈ ts, ∃ d ∈ ds, d.now = t := by
  induction h with
  | nil => simp
  | @replaced e d ds ts p _ _ _ ih =>
    intro t ht
    rcases List.mem_cons.mp ht with rfl | ht
    · exact ⟨d, List.mem_cons_self, rfl⟩
    · obtain ⟨d', hd', rfl⟩ := ih t ht
      exact ⟨d', List.mem_cons_of_mem d hd', rfl⟩
  | @passed e d ds ts _ _ ih =>
    intro t ht
    obtain ⟨d', hd', rfl⟩ := ih t ht
    exact ⟨d', List.mem_cons_of_mem d hd', rfl⟩

/-- Times that are refreshed stay numbers. -/
private theorem isNaN_foldl (ht : t.isNaN = false) (hts : ∀ t ∈ ts, t.isNaN = false) :
    (ts.foldl Registry.refreshed t).isNaN = false := by
  induction ts generalizing t with
  | nil => exact ht
  | cons now ts ih =>
    obtain ⟨hnow, hts⟩ := List.forall_mem_cons.mp hts
    exact ih (Registry.isNaN_refreshed ht hnow) hts

/-- Where no update sets it back, the time of the last update does not decrease. -/
private theorem Steady.le_foldl (h : Steady t ts) (ht : t.isNaN = false)
    (hts : ∀ t ∈ ts, t.isNaN = false) : t ≤ ts.foldl Registry.refreshed t := by
  induction ts generalizing t with
  | nil => exact Double.le_refl ht
  | cons now ts ih =>
    obtain ⟨hnow, hts⟩ := List.forall_mem_cons.mp hts
    have hnumber := Registry.isNaN_refreshed ht hnow
    have hback : ¬Registry.refreshed t now < t :=
      fun hlt => h.1 ((Registry.refreshed_lt_iff ht).mp hlt)
    have hforth : t ≤ Registry.refreshed t now := by
      by_contra hle
      exact hback (Double.lt_of_not_le ht hnumber hle)
    exact Double.le_trans hforth (ih h.2 hnumber hts)

end Runs

/-- Along all deeds on a new engine peers keep their dates, whatever numbers the clock shows. -/
theorem IsNew.keeps_dates (he : e.IsNew) (ds : List Deed)
    (hclock : ∀ d ∈ ds, d.now.isNaN = false) : e.KeepsDates ds := by
  have hdates (ds : List Deed) (hclock : ∀ d ∈ ds, d.now.isNaN = false) (a : String) (p : Peer)
      (hp : (e.afterDeeds ds).peerAt? (.text a) = some p) :
      ∃ t ts, e.Dates ds a t ts ∧ p.createdAt = .float t ∧
        p.updatedAt = .float (ts.foldl Registry.refreshed t) ∧ t.isNaN = false ∧
        ∀ t ∈ ts, t.isNaN = false := by
    obtain ⟨t, ts, hfrom, hcreated, hupdated⟩ := he.exists_dates ds hp
    obtain ⟨before, d, since, q, g, hds, _, _, rfl, hrest⟩ := id hfrom
    have hsince : ∀ d' ∈ d :: since, d'.now.isNaN = false := by
      intro d' hd'
      exact hclock d' (hds ▸ List.mem_append_right before hd')
    refine ⟨_, ts, hfrom, hcreated, hupdated, hsince d List.mem_cons_self, fun t ht => ?_⟩
    obtain ⟨d', hd', rfl⟩ := hrest.mem_readings t ht
    exact hsince d' (List.mem_cons_of_mem d hd')
  constructor
  case dated =>
    intro a p hp
    obtain ⟨t, ts, hfrom, hcreated, hupdated, ht, hts⟩ := hdates ds hclock a p hp
    exact ⟨t, ts, hfrom, hcreated, hupdated, fun hsteady => hsteady.le_foldl ht hts⟩
  case refreshed =>
    rintro before d since p a rfl hop haddress
    obtain ⟨q, hq, hafter⟩ := peerAt?_of_replace hop haddress
    obtain ⟨hbefore, hrest⟩ := List.forall_mem_append.mp hclock
    obtain ⟨hnow, _⟩ := List.forall_mem_cons.mp hrest
    obtain ⟨t, ts, _, _, hupdated, ht, hts⟩ := hdates before hbefore a q hq
    have hnumber := isNaN_foldl ht hts
    generalize ts.foldl Registry.refreshed t = last at hupdated hnumber
    refine ⟨q, _, last, Registry.refreshed last d.now, hq, hafter, rfl, hupdated, ?_,
      Registry.le_refreshed hnow, Registry.refreshed_lt_iff hnumber⟩
    rw [Registry.updated, hupdated]
    rfl
  case kept =>
    rintro before d since a rfl hop
    exact peerAt?_of_ne hop

/-- A peer is added, replaced while the clock is back, and updated again. -/
def datedDeeds : List Deed := [
  .moment ⟨.call (.addPeer (.record samplePeer)), 5.0⟩,
  .direct (.replace { samplePeer with multihop := .int 2 }) 3.0,
  .moment ⟨.call (.updatePeer (.record samplePeer)), 7.0⟩]

/-- The time of the last update waits for the clock. -/
theorem keeps_dates_datedDeeds :
    IsNew {} ∧ (∀ d ∈ datedDeeds, d.now.isNaN = false) ∧ KeepsDates {} datedDeeds ∧
      (afterDeeds {} (datedDeeds.take 2)).peerAt? sampleAddress =
        some { samplePeer with
          multihop := .int 2, createdAt := .float 5.0, updatedAt := .float 5.0 } ∧
      (afterDeeds {} datedDeeds).peerAt? sampleAddress =
        some { samplePeer with createdAt := .float 5.0, updatedAt := .float 7.0 } := by
  have hnew : IsNew {} := ⟨rfl, rfl, rfl, rfl⟩
  have hclock : ∀ d ∈ datedDeeds, d.now.isNaN = false := by
    simp only [datedDeeds, List.forall_mem_cons]
    exact ⟨rfl, rfl, rfl, by simp⟩
  exact ⟨hnew, hclock, hnew.keeps_dates datedDeeds hclock, rfl, rfl⟩

/-- A peer is added when the clock shows zero, and updated when it shows less. -/
def zeroDeeds : List Deed := [
  .moment ⟨.call (.addPeer (.record samplePeer)), 0.0⟩,
  .moment ⟨.call (.updatePeer (.record samplePeer)), -1.0⟩]

/-- The time of the last update is set back to before the registration. -/
theorem set_back_zeroDeeds :
    IsNew {} ∧ (∀ d ∈ zeroDeeds, d.now.isNaN = false) ∧
      (afterDeeds {} (zeroDeeds.take 1)).peerAt? sampleAddress =
        some { samplePeer with createdAt := .float 0.0, updatedAt := .float 0.0 } ∧
      (afterDeeds {} zeroDeeds).peerAt? sampleAddress =
        some { samplePeer with createdAt := .float 0.0, updatedAt := .float (-1.0) } ∧
      (-1.0 : Float) < 0.0 := by
  refine ⟨⟨rfl, rfl, rfl, rfl⟩, ?_, rfl, rfl, by decide⟩
  simp only [zeroDeeds, List.forall_mem_cons]
  exact ⟨rfl, rfl, by simp⟩

end Engine

end Peering
