import Peering.Event
import Peering.Proofs.TextKeys

/-!
# What events tell

Two snapshots differ at an address if only one of them has a session there, or if the states differ.
The events between them are exactly these differences, at most one for each address. So who knows
the states of the first snapshot and applies the events comes to know those of the second.
-/

namespace Peering

/-- Two states mean the same only if they are the same. -/
theorem StateCode.state_same_state {s t : State} :
    (StateCode.state s).same (.state t) = true ↔ s = t := by
  cases s <;> cases t <;> decide

namespace Snapshot

/-- The snapshot is one of sessions at distinct addresses, each in one of the states. -/
structure IsProper (snapshot : Snapshot) : Prop where
  keys : AreDistinctTexts snapshot.keys
  states : ∀ s ∈ snapshot.values, ∃ state, s.state = .state state

variable {sessions : List Session}

/-- Sessions at distinct addresses that come in one after the other stand in this order. -/
private theorem foldl_set (before : Snapshot)
    (hkeys : AreDistinctTexts (before.keys ++ sessions.map Session.address)) :
    sessions.foldl (fun snapshot s => snapshot.set s.address s) before =
      before ++ sessions.map fun s => (s.address, s) := by
  induction sessions generalizing before with
  | nil => exact (List.append_nil before).symm
  | cons s rest ih =>
    have hbefore := hkeys.of_sublist (List.sublist_append_left _ _)
    have habsent : s.address ∉ before.keys := by
      intro hmem
      exact (List.nodup_append.mp hkeys.nodup).2.2 _ hmem _ List.mem_cons_self rfl
    have hkeys' : AreDistinctTexts
        (Table.keys (before ++ [(s.address, s)]) ++ rest.map Session.address) := by
      rw [Table.keys, List.map_append, List.append_assoc]
      exact hkeys
    rw [List.foldl_cons, Table.set_of_not_mem hbefore habsent, ih _ hkeys', List.append_assoc]
    rfl

/-- Sessions at distinct addresses are a snapshot as they stand. -/
theorem ofSessions_eq (hkeys : AreDistinctTexts (sessions.map Session.address)) :
    ofSessions sessions = sessions.map fun s => (s.address, s) :=
  foldl_set [] hkeys

/-- The keys of a snapshot are the addresses of its sessions. -/
theorem keys_ofSessions (hkeys : AreDistinctTexts (sessions.map Session.address)) :
    (ofSessions sessions).keys = sessions.map Session.address := by
  rw [ofSessions_eq hkeys, Table.keys, List.map_map]
  rfl

/-- In the snapshot of sessions at distinct addresses, each is found at its own. -/
theorem get?_ofSessions (hkeys : AreDistinctTexts (sessions.map Session.address)) {a : Value}
    {s : Session} : (ofSessions sessions).get? a = some s ↔ s ∈ sessions ∧ s.address = a := by
  have hkeys' : AreDistinctTexts (ofSessions sessions).keys := by
    rw [keys_ofSessions hkeys]
    exact hkeys
  rw [Table.get?_eq_some_iff hkeys', ofSessions_eq hkeys, List.mem_map]
  constructor
  · rintro ⟨t, ht, heq⟩
    obtain ⟨rfl, rfl⟩ := Prod.mk.inj heq
    exact ⟨ht, rfl⟩
  · rintro ⟨hs, rfl⟩
    exact ⟨s, hs, rfl⟩

/-- A session that is found in a proper snapshot is in one of the states. -/
theorem IsProper.exists_state {snapshot : Snapshot} (h : snapshot.IsProper) {a : Value}
    {s : Session} (hs : snapshot.get? a = some s) : ∃ state, s.state = .state state :=
  h.states s (List.mem_map_of_mem ((Table.get?_eq_some_iff h.keys).mp hs))

end Snapshot

namespace Event

/-- The event tells what has changed at its address from one snapshot to the next. -/
inductive Tells (previous current : Snapshot) : Event → Prop where
  /-- The session is new. -/
  | added {a : Value} {s : Session} (hprevious : previous.get? a = none)
    (hcurrent : current.get? a = some s) :
    Tells previous current ⟨.added, a, none, some s.state, some s⟩
  /-- The session is in another state. -/
  | changed {a : Value} {before s : Session} (hprevious : previous.get? a = some before)
    (hcurrent : current.get? a = some s) (hstate : before.state.same s.state = false) :
    Tells previous current ⟨.changed, a, some before.state, some s.state, some s⟩
  /-- The session is gone. -/
  | removed {a : Value} {before : Session} (hprevious : previous.get? a = some before)
    (hcurrent : current.get? a = none) :
    Tells previous current ⟨.removed, a, some before.state, none, none⟩

variable {previous : Snapshot} {current : List Session} {event : Event}

section Between

/-- An event about a session of the new snapshot has its address. -/
private theorem address_ofSession? {s : Session} (h : ofSession? previous s = some event) :
    event.address = s.address := by
  unfold ofSession? at h
  split at h
  · obtain rfl := Option.some.inj h
    rfl
  · split at h
    · cases h
    · obtain rfl := Option.some.inj h
      rfl

/-- The addresses of what is told about the new sessions are some of theirs, in order. -/
private theorem addresses_filterMap (previous : Snapshot) (current : List Session) :
    ((current.filterMap (ofSession? previous)).map Event.address).Sublist
      (current.map Session.address) := by
  induction current with
  | nil => exact List.Sublist.slnil
  | cons s rest ih =>
    cases hevent : ofSession? previous s with
    | none =>
      rw [List.filterMap_cons_none hevent, List.map_cons]
      exact ih.cons _
    | some event =>
      rw [List.filterMap_cons_some hevent, List.map_cons, List.map_cons,
        address_ofSession? hevent]
      exact ih.cons_cons _

/-- An address of which a removal is told has no session any more. -/
private theorem not_mem_of_removed {a : Value} {s : Session}
    (hprevious : AreDistinctTexts previous.keys)
    (hremoved : (a, s) ∈ previous.filter fun e => !current.any fun t => t.address.eqv e.1) :
    (a, s) ∈ previous ∧ a ∉ current.map Session.address := by
  obtain ⟨hmem, hgone⟩ := List.mem_filter.mp hremoved
  refine ⟨hmem, fun hthere => ?_⟩
  obtain ⟨t, ht, hta⟩ := List.mem_map.mp hthere
  have hany : (current.any fun t => t.address.eqv a) = true := by
    refine List.any_eq_true.mpr ⟨t, ht, ?_⟩
    rw [hta]
    exact (hprevious.eqv_iff (List.mem_map_of_mem hmem)).mpr rfl
  rw [hany] at hgone
  cases hgone

/-- Of each address at most one event is told. -/
theorem nodup_between (hprevious : AreDistinctTexts previous.keys)
    (hcurrent : AreDistinctTexts (current.map Session.address)) :
    ((between previous current).map Event.address).Nodup := by
  have hchanges := addresses_filterMap previous current
  have hremovals : (((previous.filter fun e => !current.any fun s => s.address.eqv e.1).map
      fun e => removal e.1 e.2).map Event.address).Sublist previous.keys := by
    rw [List.map_map]
    exact List.filter_sublist.map _
  rw [between, List.map_append, List.nodup_append]
  refine ⟨hcurrent.nodup.sublist hchanges, hprevious.nodup.sublist hremovals, ?_⟩
  rintro a ha b hb rfl
  rw [List.map_map] at hb
  obtain ⟨e, he, rfl⟩ := List.mem_map.mp hb
  exact (not_mem_of_removed hprevious he).2 (hchanges.subset ha)

/-- What is told about a session of the new snapshot. -/
private theorem mem_changes_iff (hcurrent : AreDistinctTexts (current.map Session.address)) :
    event ∈ current.filterMap (ofSession? previous) ↔
      event.Tells previous (Snapshot.ofSessions current) ∧ event.kind ≠ .removed := by
  rw [List.mem_filterMap]
  constructor
  · rintro ⟨s, hs, hevent⟩
    have hs' := (Snapshot.get?_ofSessions hcurrent).mpr ⟨hs, rfl⟩
    unfold ofSession? at hevent
    split at hevent
    · rename_i hbefore
      obtain rfl := Option.some.inj hevent
      exact ⟨.added hbefore hs', by simp⟩
    · rename_i before hbefore
      split at hevent
      · cases hevent
      · rename_i hstate
        obtain rfl := Option.some.inj hevent
        exact ⟨.changed hbefore hs' (Bool.eq_false_iff.mpr hstate), by simp⟩
  · rintro ⟨htells, hkind⟩
    cases htells with
    | added hbefore hfound =>
      obtain ⟨hmem, rfl⟩ := (Snapshot.get?_ofSessions hcurrent).mp hfound
      exact ⟨_, hmem, by rw [ofSession?, hbefore]⟩
    | changed hbefore hfound hstate =>
      obtain ⟨hmem, rfl⟩ := (Snapshot.get?_ofSessions hcurrent).mp hfound
      exact ⟨_, hmem, by simp [ofSession?, hbefore, hstate]⟩
    | removed => exact absurd rfl hkind

/-- What is told about a session that is gone. -/
private theorem mem_removals_iff (hprevious : AreDistinctTexts previous.keys)
    (hcurrent : AreDistinctTexts (current.map Session.address)) :
    event ∈ (previous.filter fun e => !current.any fun s => s.address.eqv e.1).map
        (fun e => removal e.1 e.2) ↔
      event.Tells previous (Snapshot.ofSessions current) ∧ event.kind = .removed := by
  have hkeys : AreDistinctTexts (Snapshot.ofSessions current).keys := by
    rw [Snapshot.keys_ofSessions hcurrent]
    exact hcurrent
  rw [List.mem_map]
  constructor
  · rintro ⟨⟨a, before⟩, hremoved, rfl⟩
    obtain ⟨hbefore, hgone⟩ := not_mem_of_removed hprevious hremoved
    refine ⟨.removed ((Table.get?_eq_some_iff hprevious).mpr hbefore) ?_, rfl⟩
    rw [Table.get?_eq_none_iff hkeys, Snapshot.keys_ofSessions hcurrent]
    exact hgone
  · rintro ⟨htells, hkind⟩
    cases htells with
    | added | changed => cases hkind
    | @removed a before hbefore hgone =>
      rw [Table.get?_eq_none_iff hkeys, Snapshot.keys_ofSessions hcurrent] at hgone
      have hmem := (Table.get?_eq_some_iff hprevious).mp hbefore
      refine ⟨(a, before), List.mem_filter.mpr ⟨hmem, ?_⟩, rfl⟩
      rw [Bool.not_eq_true', List.any_eq_false]
      intro s hs heqv
      obtain ⟨name, ha⟩ := hprevious.texts a (List.mem_map_of_mem hmem)
      rw [ha, Value.eqv_text_iff, ← ha] at heqv
      exact hgone (heqv ▸ List.mem_map_of_mem hs)

/-- The events between two snapshots are exactly those that tell what has changed. -/
theorem mem_between_iff (hprevious : AreDistinctTexts previous.keys)
    (hcurrent : AreDistinctTexts (current.map Session.address)) :
    event ∈ between previous current ↔ event.Tells previous (Snapshot.ofSessions current) := by
  rw [between, List.mem_append, mem_changes_iff hcurrent, mem_removals_iff hprevious hcurrent,
    ← and_or_left]
  exact and_iff_left (ne_or_eq _ _)

/-- What is told has the address of a session in one of the snapshots. -/
private theorem Tells.exists_text {current : Snapshot} (h : event.Tells previous current)
    (hprevious : AreDistinctTexts previous.keys) (hcurrent : AreDistinctTexts current.keys) :
    ∃ name, event.address = .text name := by
  have hkey {snapshot : Snapshot} (hkeys : AreDistinctTexts snapshot.keys) {a : Value}
      {s : Session} (hs : snapshot.get? a = some s) : ∃ name, a = .text name :=
    hkeys.texts a (List.mem_map_of_mem ((Table.get?_eq_some_iff hkeys).mp hs))
  cases h with
  | added _ hs => exact hkey hcurrent hs
  | changed hbefore => exact hkey hprevious hbefore
  | removed hbefore => exact hkey hprevious hbefore

/-- Of an address that has a session in both snapshots, only a change of state is told. -/
theorem tells_iff_of_found {current : Snapshot} {a : Value} {before s : Session}
    (hbefore : previous.get? a = some before) (hs : current.get? a = some s) :
    event.Tells previous current ∧ event.address = a ↔
      before.state.same s.state = false ∧
        event = ⟨.changed, a, some before.state, some s.state, some s⟩ := by
  constructor
  · rintro ⟨htells, rfl⟩
    cases htells with
    | added hnone =>
      rw [hbefore] at hnone
      cases hnone
    | changed hbefore' hs' hstate =>
      obtain rfl := Option.some.inj (hbefore.symm.trans hbefore')
      obtain rfl := Option.some.inj (hs.symm.trans hs')
      exact ⟨hstate, rfl⟩
    | removed _ hnone =>
      rw [hs] at hnone
      cases hnone
  · rintro ⟨hstate, rfl⟩
    exact ⟨.changed hbefore hs hstate, rfl⟩

end Between

section Describing

/-- What is told between proper snapshots can be put into words: every state has a name. -/
theorem Tells.exists_describe {current : Snapshot} (h : event.Tells previous current)
    (hprevious : previous.IsProper) (hcurrent : current.IsProper) :
    ∃ text, event.describe = .ok text := by
  have hname {s : Session} (hs : ∃ state, s.state = .state state) :
      ∃ name, stateName (some s.state) = .ok name := by
    obtain ⟨state, hstate⟩ := hs
    exact ⟨state.name, by rw [hstate]; rfl⟩
  cases h with
  | added _ hs =>
    obtain ⟨name, hname⟩ := hname (hcurrent.exists_state hs)
    exact ⟨_, by simp only [describe, hname]; rfl⟩
  | changed hbefore hs =>
    obtain ⟨old, hold⟩ := hname (hprevious.exists_state hbefore)
    obtain ⟨new, hnew⟩ := hname (hcurrent.exists_state hs)
    exact ⟨_, by simp only [describe, hold, hnew]; rfl⟩
  | removed hbefore =>
    obtain ⟨name, hname⟩ := hname (hprevious.exists_state hbefore)
    exact ⟨_, by simp only [describe, hname]; rfl⟩

end Describing

section Applying

/-- The states after an event, for who knows those before it. -/
def applyTo (states : Table StateCode) (event : Event) : Table StateCode :=
  match event.kind, event.new with
  | .removed, _ => states.erase event.address
  | .added, some code | .changed, some code | .other _, some code =>
    states.set event.address code
  | .added, none | .changed, none | .other _, none => states

/-- The states after several events, for who knows those before them. -/
def replay (states : Table StateCode) (events : List Event) : Table StateCode :=
  events.foldl applyTo states

/-- Events are replayed one after the other. -/
theorem replay_append (states : Table StateCode) (events more : List Event) :
    replay states (events ++ more) = replay (replay states events) more :=
  List.foldl_append

variable {states : Table StateCode} {events : List Event}

/-- An event has nothing to do with other addresses. -/
private theorem get?_applyTo_of_ne {name : String} (haddress : event.address = .text name)
    {v : Value} (hv : v ≠ event.address) : (applyTo states event).get? v = states.get? v := by
  rw [haddress] at hv
  unfold applyTo
  rw [haddress]
  split
  · exact Table.get?_erase_of_ne hv
  · exact Table.get?_set_of_ne hv
  · exact Table.get?_set_of_ne hv
  · exact Table.get?_set_of_ne hv
  all_goals rfl

/-- After an event the state at its address is the new one. -/
private theorem Tells.get?_applyTo {current : Snapshot} (h : event.Tells previous current)
    {name : String} (haddress : event.address = .text name) :
    (applyTo states event).get? event.address = event.new := by
  cases h with
  | added | changed =>
    obtain rfl := haddress
    exact Table.get?_set_self states name _
  | removed =>
    obtain rfl := haddress
    exact Table.get?_erase_self states name

/-- Where no event is about an address, its state stays. -/
private theorem get?_replay_of_not_mem
    (htexts : ∀ a ∈ events.map Event.address, ∃ name, a = .text name) {v : Value}
    (hv : v ∉ events.map Event.address) : (replay states events).get? v = states.get? v := by
  induction events generalizing states with
  | nil => rfl
  | cons event rest ih =>
    obtain ⟨name, haddress⟩ := htexts event.address List.mem_cons_self
    rw [List.map_cons, List.mem_cons, not_or] at hv
    have hrest : (replay (applyTo states event) rest).get? v = (applyTo states event).get? v :=
      ih (fun a ha => htexts a (List.mem_cons_of_mem _ ha)) hv.2
    exact hrest.trans (get?_applyTo_of_ne haddress hv.1)

/-- Where one event is about an address, its state is the new one of this event. -/
private theorem get?_replay_of_mem {current : Snapshot}
    (htells : ∀ event ∈ events, event.Tells previous current)
    (hkeys : AreDistinctTexts (events.map Event.address)) (hmem : event ∈ events) :
    (replay states events).get? event.address = event.new := by
  induction events generalizing states with
  | nil => cases hmem
  | cons first rest ih =>
    obtain ⟨name, haddress⟩ := hkeys.texts first.address List.mem_cons_self
    have hrest : AreDistinctTexts (rest.map Event.address) :=
      hkeys.of_sublist (List.sublist_cons_self _ _)
    rcases List.mem_cons.mp hmem with rfl | hmem
    · have habsent := (List.nodup_cons.mp hkeys.nodup).1
      have hstays : (replay (applyTo states event) rest).get? event.address =
          (applyTo states event).get? event.address := get?_replay_of_not_mem hrest.texts habsent
      exact hstays.trans ((htells event List.mem_cons_self).get?_applyTo haddress)
    · exact ih (fun event hevent => htells event (List.mem_cons_of_mem _ hevent)) hrest hmem

/-- The new state of an event is that of the session in the new snapshot, if there is one. -/
private theorem Tells.new_eq {current : Snapshot} (h : event.Tells previous current) :
    event.new = (current.get? event.address).map Session.state := by
  cases h with
  | added _ hs | changed _ hs | removed _ hs =>
    simp only [hs, Option.map_some, Option.map_none]

/-- Where nothing is told, the state is the same in both proper snapshots. -/
private theorem state_eq_of_quiet {current : Snapshot} (hprevious : previous.IsProper)
    (hcurrent : current.IsProper) {a : Value}
    (hquiet : ∀ event : Event, event.Tells previous current → event.address ≠ a) :
    (previous.get? a).map Session.state = (current.get? a).map Session.state := by
  cases hbefore : previous.get? a with
  | none =>
    cases hafter : current.get? a with
    | none => rfl
    | some s => exact absurd rfl (hquiet _ (.added hbefore hafter))
  | some before =>
    cases hafter : current.get? a with
    | none => exact absurd rfl (hquiet _ (.removed hbefore hafter))
    | some s =>
      obtain ⟨old, hold⟩ := hprevious.exists_state hbefore
      obtain ⟨new, hnew⟩ := hcurrent.exists_state hafter
      have hsame : before.state.same s.state = true := by
        rw [← Bool.not_eq_false]
        exact fun hstate => hquiet _ (.changed hbefore hafter hstate) rfl
      rw [hold, hnew, StateCode.state_same_state] at hsame
      rw [Option.map_some, Option.map_some, hold, hnew, hsame]

/-- Who applies what is told up to the next snapshot comes to know the new state wherever an event
is about an address, and keeps what was known of all others. -/
theorem get?_replay_of_tells {current : Snapshot} (hprevious : AreDistinctTexts previous.keys)
    (hcurrent : AreDistinctTexts current.keys)
    (htells : ∀ event ∈ events, event.Tells previous current)
    (hnodup : (events.map Event.address).Nodup) (a : Value) :
    (replay states events).get? a = (current.get? a).map Session.state ∨
      (∀ event ∈ events, event.address ≠ a) ∧ (replay states events).get? a = states.get? a := by
  have hkeys : AreDistinctTexts (events.map Event.address) := by
    refine ⟨fun b hb => ?_, hnodup⟩
    obtain ⟨event, hevent, rfl⟩ := List.mem_map.mp hb
    exact (htells event hevent).exists_text hprevious hcurrent
  by_cases hmem : a ∈ events.map Event.address
  · left
    obtain ⟨event, hevent, rfl⟩ := List.mem_map.mp hmem
    rw [get?_replay_of_mem htells hkeys hevent, (htells event hevent).new_eq]
  · right
    refine ⟨fun event hevent haddress => ?_, get?_replay_of_not_mem hkeys.texts hmem⟩
    exact hmem (haddress ▸ List.mem_map_of_mem hevent)

/-- Who knows the states of a proper snapshot and applies what is told up to the next one comes to
know the states of that. -/
theorem get?_replay {current : Snapshot} (hprevious : previous.IsProper)
    (hcurrent : current.IsProper) (htells : ∀ event, event ∈ events ↔ event.Tells previous current)
    (hnodup : (events.map Event.address).Nodup)
    (hstates : ∀ a, states.get? a = (previous.get? a).map Session.state) (a : Value) :
    (replay states events).get? a = (current.get? a).map Session.state := by
  rcases get?_replay_of_tells hprevious.keys hcurrent.keys (fun event => (htells event).mp) hnodup a
    with hnew | ⟨hquiet, hkept⟩
  · exact hnew
  · rw [hkept, hstates]
    exact state_eq_of_quiet hprevious hcurrent fun event htold =>
      hquiet event ((htells event).mpr htold)

end Applying

end Event

end Peering
