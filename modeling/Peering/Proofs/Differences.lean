import Peering.Proofs.Changes

/-!
# The differences of two snapshots

The events from one snapshot to the next are neither too many nor too few. Each address has at most
one, and it is the one that fits: the session is new, or it is gone, or its state is another one.
Whatever else differs between two sessions is not told. The events come in the order of the new
snapshot with the removals last, and they make the states of the old snapshot into those of the new
one.
-/

namespace Peering

/-- A state is the same as itself. -/
theorem StateCode.same_refl (c : StateCode) : c.same c = true := beq_self_eq_true c.number

namespace Snapshot

/-- The states of the sessions of a snapshot. -/
def states (snapshot : Snapshot) : Table StateCode :=
  snapshot.map fun entry => (entry.1, entry.2.state)

/-- The state of a snapshot at an address is that of the session there. -/
theorem get?_states (snapshot : Snapshot) (a : Value) :
    snapshot.states.get? a = (snapshot.get? a).map Session.state := by
  rw [states, Table.get?, Table.get?, List.find?_map, Option.map_map, Option.map_map]
  rfl

end Snapshot

namespace Event

/-- What two states of one address have in common: there is none in both cases, or both codes mean
the same. -/
def SameState : Option StateCode → Option StateCode → Prop :=
  Option.Rel fun c d => c.same d = true

/-- What is told of new sessions and of changes comes in the order of the new sessions, and each of
these events has its session. The removals come last, in the order of the old snapshot. -/
def InOrder (previous : Snapshot) (current : List Session) (events : List Event) : Prop :=
  ∃ (changes removals : List Event) (told : List Session), events = changes ++ removals ∧
    (∀ event ∈ changes, event.kind ≠ .removed) ∧ (∀ event ∈ removals, event.kind = .removed) ∧
    changes.map Event.session = told.map some ∧ told.Sublist current ∧
    (removals.map Event.address).Sublist previous.keys

/-- The events are the differences of a snapshot and the list of sessions that comes after it. -/
structure TellDifferences (previous : Snapshot) (current : List Session) (events : List Event) :
    Prop where
  /-- A session is told to be new exactly where there was none. -/
  added_iff : ∀ event, event ∈ events ∧ event.kind = .added ↔
    ∃ s ∈ current, previous.get? s.address = none ∧
      event = ⟨.added, s.address, none, some s.state, some s⟩
  /-- A change is told exactly where there was a session in another state. -/
  changed_iff : ∀ event, event ∈ events ∧ event.kind = .changed ↔
    ∃ s ∈ current, ∃ before, previous.get? s.address = some before ∧
      before.state.same s.state = false ∧
      event = ⟨.changed, s.address, some before.state, some s.state, some s⟩
  /-- A session is told to be gone exactly where there is none any more. -/
  removed_iff : ∀ event, event ∈ events ∧ event.kind = .removed ↔
    ∃ a before, (a, before) ∈ previous ∧ a ∉ current.map Session.address ∧
      event = ⟨.removed, a, some before.state, none, none⟩
  /-- There are no events of other kinds. -/
  kinds : ∀ event ∈ events, event.kind = .added ∨ event.kind = .changed ∨ event.kind = .removed
  /-- Of a session that is still in the same state nothing is told, whatever else has changed. -/
  quiet : ∀ s ∈ current, ∀ before, previous.get? s.address = some before →
    before.state.same s.state = true → ∀ event ∈ events, event.address ≠ s.address
  /-- Of each address at most one event is told. -/
  nodup : (events.map Event.address).Nodup
  /-- They come in the order of both snapshots. -/
  inOrder : InOrder previous current events
  /-- Who knows the states of the old snapshot and applies the events knows those of the new one. -/
  replay_states : ∀ a, SameState ((replay previous.states events).get? a)
    ((Snapshot.ofSessions current).states.get? a)

variable {previous : Snapshot} {current : List Session} {event : Event}

section Order

/-- The sessions about which something is told stand in the events, in order. -/
private theorem sessions_filterMap (previous : Snapshot) (current : List Session) :
    (current.filterMap (ofSession? previous)).map Event.session =
      (current.filter fun s => (ofSession? previous s).isSome).map some := by
  have hsession {s : Session} {event : Event} (hevent : ofSession? previous s = some event) :
      event.session = some s := by
    unfold ofSession? at hevent
    split at hevent
    · obtain rfl := Option.some.inj hevent
      rfl
    · split at hevent
      · cases hevent
      · obtain rfl := Option.some.inj hevent
        rfl
  induction current with
  | nil => rfl
  | cons s rest ih =>
    cases hevent : ofSession? previous s with
    | none => rw [List.filterMap_cons_none hevent, List.filter_cons_of_neg (by simp [hevent]), ih]
    | some event =>
      rw [List.filterMap_cons_some hevent, List.filter_cons_of_pos (by simp [hevent]),
        List.map_cons, List.map_cons, hsession hevent, ih]

private theorem inOrder_between (previous : Snapshot) (current : List Session) :
    InOrder previous current (between previous current) := by
  refine ⟨_, _, _, rfl, fun event hevent => ?_, fun event hevent => ?_,
    sessions_filterMap previous current, List.filter_sublist, ?_⟩
  · obtain ⟨s, _, hs⟩ := List.mem_filterMap.mp hevent
    unfold ofSession? at hs
    split at hs
    · obtain rfl := Option.some.inj hs
      exact EventKind.noConfusion
    · split at hs
      · cases hs
      · obtain rfl := Option.some.inj hs
        exact EventKind.noConfusion
  · obtain ⟨entry, _, rfl⟩ := List.mem_map.mp hevent
    rfl
  · rw [List.map_map]
    exact List.filter_sublist.map _

end Order

/-- Where nothing is told, the states of both snapshots mean the same. -/
private theorem sameState_of_quiet {current : Snapshot} {a : Value}
    (hquiet : ∀ event : Event, event.Tells previous current → event.address ≠ a) :
    SameState ((previous.get? a).map Session.state) ((current.get? a).map Session.state) := by
  cases hbefore : previous.get? a with
  | none =>
    cases hafter : current.get? a with
    | none => exact .none
    | some s => exact absurd rfl (hquiet _ (.added hbefore hafter))
  | some before =>
    cases hafter : current.get? a with
    | none => exact absurd rfl (hquiet _ (.removed hbefore hafter))
    | some s =>
      refine .some (Bool.not_eq_false _ ▸ fun hstate => ?_)
      exact hquiet _ (.changed hbefore hafter hstate) rfl

/-- The events between a snapshot and the sessions that come after it, both at distinct addresses,
are the differences of both. -/
theorem between_tellDifferences (hprevious : AreDistinctTexts previous.keys)
    (hcurrent : AreDistinctTexts (current.map Session.address)) :
    TellDifferences previous current (between previous current) := by
  have hkeys : AreDistinctTexts (Snapshot.ofSessions current).keys := by
    rw [Snapshot.keys_ofSessions hcurrent]
    exact hcurrent
  have htells (event : Event) : event ∈ between previous current ↔
      event.Tells previous (Snapshot.ofSessions current) := mem_between_iff hprevious hcurrent
  have hfound {s : Session} (hs : s ∈ current) :
      (Snapshot.ofSessions current).get? s.address = some s :=
    (Snapshot.get?_ofSessions hcurrent).mpr ⟨hs, rfl⟩
  constructor
  case added_iff =>
    intro event
    rw [htells]
    constructor
    · rintro ⟨htold, hkind⟩
      cases htold with
      | added hbefore hs =>
        obtain ⟨hmem, rfl⟩ := (Snapshot.get?_ofSessions hcurrent).mp hs
        exact ⟨_, hmem, hbefore, rfl⟩
      | changed | removed => cases hkind
    · rintro ⟨s, hs, hbefore, rfl⟩
      exact ⟨.added hbefore (hfound hs), rfl⟩
  case changed_iff =>
    intro event
    rw [htells]
    constructor
    · rintro ⟨htold, hkind⟩
      cases htold with
      | changed hbefore hs hstate =>
        obtain ⟨hmem, rfl⟩ := (Snapshot.get?_ofSessions hcurrent).mp hs
        exact ⟨_, hmem, _, hbefore, hstate, rfl⟩
      | added | removed => cases hkind
    · rintro ⟨s, hs, before, hbefore, hstate, rfl⟩
      exact ⟨.changed hbefore (hfound hs) hstate, rfl⟩
  case removed_iff =>
    intro event
    rw [htells]
    constructor
    · rintro ⟨htold, hkind⟩
      cases htold with
      | @removed a before hbefore hgone =>
        rw [Table.get?_eq_none_iff hkeys, Snapshot.keys_ofSessions hcurrent] at hgone
        exact ⟨a, before, (Table.get?_eq_some_iff hprevious).mp hbefore, hgone, rfl⟩
      | added | changed => cases hkind
    · rintro ⟨a, before, hmem, hgone, rfl⟩
      refine ⟨.removed ((Table.get?_eq_some_iff hprevious).mpr hmem) ?_, rfl⟩
      rw [Table.get?_eq_none_iff hkeys, Snapshot.keys_ofSessions hcurrent]
      exact hgone
  case kinds =>
    intro event hevent
    cases (htells event).mp hevent <;> simp
  case quiet =>
    intro s hs before hbefore hstate event hevent haddress
    have htold := (tells_iff_of_found hbefore (hfound hs)).mp ⟨(htells event).mp hevent, haddress⟩
    rw [hstate] at htold
    cases htold.1
  case nodup => exact nodup_between hprevious hcurrent
  case inOrder => exact inOrder_between previous current
  case replay_states =>
    intro a
    have hcases := @get?_replay_of_tells previous previous.states _ _ hprevious hkeys
      (fun event => (htells event).mp) (nodup_between hprevious hcurrent) a
    rw [Snapshot.get?_states]
    rcases hcases with hnew | ⟨hquiet, hkept⟩
    · rw [hnew]
      cases (Snapshot.ofSessions current).get? a with
      | none => exact .none
      | some s => exact .some (StateCode.same_refl s.state)
    · rw [hkept, Snapshot.get?_states]
      exact sameState_of_quiet fun event htold => hquiet event ((htells event).mpr htold)

/-- A snapshot with four sessions. -/
def earlierSnapshot : Snapshot := [
  (.text "a", { address := .text "a", state := .state .connect }),
  (.text "b", { address := .text "b", state := .state .idle }),
  (.text "c", { address := .text "c", state := .state .established }),
  (.text "d", { address := .text "d", state := .state .active })]

/-- Sessions that come after them, in another order. One is new, one is in another state, and one
has another error and the bare number of its state. -/
def laterSessions : List Session := [
  { address := .text "e" },
  { address := .text "d", state := .bare 2, lastError := .text "cease" },
  { address := .text "a", state := .state .openSent }]

/-- The new session and the change are told in the order of the new sessions, and then the two
removals in the order of the old ones. -/
theorem between_tellDifferences_laterSessions :
    AreDistinctTexts earlierSnapshot.keys ∧
      AreDistinctTexts (laterSessions.map Session.address) ∧
      (between earlierSnapshot laterSessions).map (fun event => (event.kind, event.address)) =
        [(.added, .text "e"), (.changed, .text "a"), (.removed, .text "b"),
          (.removed, .text "c")] ∧
      TellDifferences earlierSnapshot laterSessions (between earlierSnapshot laterSessions) := by
  have hprevious : AreDistinctTexts earlierSnapshot.keys :=
    ⟨by simp [earlierSnapshot, Table.keys], by simp [earlierSnapshot, Table.keys]⟩
  have hcurrent : AreDistinctTexts (laterSessions.map Session.address) :=
    ⟨by simp [laterSessions], by simp [laterSessions]⟩
  exact ⟨hprevious, hcurrent, rfl, between_tellDifferences hprevious hcurrent⟩

end Event

end Peering
