import Peering.Proofs.Answers
import Peering.Proofs.Attendance
import Peering.Proofs.Tables
import Mathlib.Algebra.Ring.Nat

/-!
# What readers see

The reads of an engine take their answers from different tables: peers, sessions, and the numbers
by which walks are found. In every engine that is reached these answers agree at any one reading of
the clock. The uptimes of established sessions can be told where the clock is a finite time away
from the moments at which they were established. Sessions short of established whose walks have been
called off by an observer are counted apart: they have no active walk.
-/

namespace Peering

open Registration

section Doubles

/-- The exponent bits of a finite double are not all set. -/
private theorem exponent_toBits {x : Float} (hx : x.isFinite = true) :
    x.toBits.toNat / Nat.pow 2 52 % Nat.pow 2 11 ≠ 2047 := by
  intro hexponent
  have hbits : @Float.Model.UnpackedFloat.unpackExponent .binary64
      x.toModel.toBits.toBitVec = -1#11 := by
    apply BitVec.eq_of_toNat_eq
    simp only [Float.Model.UnpackedFloat.unpackExponent, BitVec.toNat_cast,
      BitVec.extractLsb_toNat, Nat.shiftRight_eq_div_pow]
    exact hexponent
  have hfinite : (Float.Model.UnpackedFloat.unpack .binary64
      x.toModel.toBits.toBitVec).isFinite = true := hx
  unfold Float.Model.UnpackedFloat.unpack at hfinite
  simp only [hbits, if_true] at hfinite
  split at hfinite <;> cases hfinite

/-- A finite double has an integral part. -/
theorem exists_truncate {x : Float} (hx : x.isFinite = true) : ∃ n, truncate x = .ok n := by
  have hparts : ∃ negative m q, FloatParts.ofFloat x = .finite negative m q := by
    simp only [FloatParts.ofFloat, if_neg (exponent_toBits hx)]
    split
    · exact ⟨_, _, _, rfl⟩
    · exact ⟨_, _, _, rfl⟩
  obtain ⟨negative, m, q, hfinite⟩ := hparts
  simp only [truncate, hfinite]
  exact ⟨_, rfl⟩

end Doubles

section Counts

variable {α : Type} {p q s : α → Bool} {l : List α}

/-- Of three conditions at least one holds for each member of a list. -/
private theorem length_le_countP
    (h : ∀ x ∈ l, p x = true ∨ q x = true ∨ s x = true) :
    l.length ≤ l.countP p + l.countP q + l.countP s := by
  induction l with
  | nil => exact Nat.zero_le _
  | cons x l ih =>
    obtain ⟨hx, hl⟩ := List.forall_mem_cons.mp h
    have hrest := ih hl
    rw [List.length_cons, List.countP_cons, List.countP_cons, List.countP_cons]
    rcases hx with hx | hx | hx <;> rw [if_pos hx] <;> omega

/-- Of three conditions exactly one holds for each member of a list. -/
private theorem length_eq_countP
    (h : ∀ x ∈ l, p x = true ∨ q x = true ∨ s x = true)
    (hpq : ∀ x ∈ l, q x = true → p x = false)
    (hs : ∀ x ∈ l, s x = true → p x = false ∧ q x = false) :
    l.length = l.countP p + l.countP q + l.countP s := by
  induction l with
  | nil => rfl
  | cons x l ih =>
    obtain ⟨hx, hl⟩ := List.forall_mem_cons.mp h
    obtain ⟨hpqx, hpql⟩ := List.forall_mem_cons.mp hpq
    obtain ⟨hsx, hsl⟩ := List.forall_mem_cons.mp hs
    have hrest := ih hl hpql hsl
    rw [List.length_cons, List.countP_cons, List.countP_cons, List.countP_cons]
    cases hp : p x <;> cases hq : q x <;> cases hss : s x <;> simp_all <;> omega

end Counts

namespace Session

/-- The session can be read at a moment: if it is established, that is a finite time ago. -/
def IsReadable (s : Session) (now : Float) : Prop :=
  s.isEstablished = true → (now - s.changedAt).isFinite = true

instance (s : Session) (now : Float) : Decidable (s.IsReadable now) :=
  inferInstanceAs (Decidable (s.isEstablished = true → (now - s.changedAt).isFinite = true))

variable {s : Session} {now : Float}

/-- A session that can be read is read as told. -/
theorem IsReadable.snapshot_eq (h : s.IsReadable now) : s.snapshot now = .ok (s.readAt now) := by
  unfold snapshot readAt uptimeAt
  by_cases hestablished : s.isEstablished = true
  · obtain ⟨n, hn⟩ := exists_truncate (h hestablished)
    have hseconds : secondsBetween s.changedAt now = .ok n := by
      simp only [secondsBetween, hn]
    simp only [if_pos hestablished, hseconds, Except.toOption, Option.getD_some]
  · simp only [if_neg hestablished]

/-- The states of sessions that are in states can be listed, each as often as it is found. -/
theorem exists_states {sessions : List Session}
    (h : ∀ s ∈ sessions, ∃ state, s.state = .state state) :
    ∃ states, sessions.mapM (fun s => s.state.state?) = some states ∧
      states.length = sessions.length ∧
      ∀ state, states.count state = sessions.countP fun s => s.state = .state state := by
  induction sessions with
  | nil => exact ⟨[], rfl, rfl, fun _ => rfl⟩
  | cons s rest ih =>
    obtain ⟨first, hfirst⟩ := h s List.mem_cons_self
    obtain ⟨states, hstates, hlength, hcount⟩ := ih fun t ht => h t (List.mem_cons_of_mem s ht)
    refine ⟨first :: states, ?_, congrArg Nat.succ hlength, fun state => ?_⟩
    · rw [List.mapM_cons, hfirst, hstates]
      rfl
    · rw [List.count_cons, List.countP_cons, hcount, hfirst]
      simp

end Session

/-- Each entry of a list is in one of the six states. -/
theorem State.sum_count (states : List State) :
    (State.all.map fun state => states.count state).sum = states.length := by
  induction states with
  | nil => rfl
  | cons state rest ih =>
    simp only [State.all, List.map_cons, List.map_nil, List.sum_cons, List.sum_nil,
      List.count_cons, List.length_cons] at ih ⊢
    cases state <;> simp <;> omega

namespace Engine

/-- All sessions of the engine can be read at a moment. -/
def IsReadable (e : Engine) (now : Float) : Prop := ∀ s ∈ e.registry.sessions, s.IsReadable now

instance (e : Engine) (now : Float) : Decidable (e.IsReadable now) :=
  inferInstanceAs (Decidable (∀ s ∈ e.registry.sessions, s.IsReadable now))

/-- The session at an address is not established, and the walk that is found by the address has been
called off. -/
def isStranded (e : Engine) (a : Value) : Bool :=
  (e.sessionAt? a).any (fun s => !s.isEstablished) && (e.walkAt? a).any Walk.isCalledOff

/-- The number of sessions that are stranded. -/
def strandedSessions (e : Engine) : Nat := e.addresses.countP e.isStranded

/-- The answers of all reads at one moment tell the same: the lists of peers and of sessions, the
figures, and what the other reads give. -/
structure ReadingsAgree (e : Engine) (now : Float) (peers : List Peer) (sessions : List Session)
    (figures : Statistics) : Prop where
  /-- Both lists have the same addresses in the same order. -/
  addresses_eq : peers.map Peer.address = sessions.map Session.address
  /-- No address is listed twice. -/
  addresses_nodup : (peers.map Peer.address).Nodup
  /-- One peer is read exactly if it is listed, and as it is listed. -/
  getPeer_iff : ∀ a p, (e.getPeer a).2 = .ok p ↔ p ∈ peers ∧ p.address = a
  /-- One session is read exactly if it is listed, and as it is listed. -/
  getSession_iff : ∀ a s, (e.getSession a now).2 = .ok s ↔ s ∈ sessions ∧ s.address = a
  /-- The number of peers is that of the listed ones. -/
  peerCount_eq : e.peerCount = peers.length
  /-- There are as many sessions. -/
  sessions_length : sessions.length = peers.length
  /-- The figures have the same number. -/
  totalPeers_eq : figures.totalPeers = peers.length
  /-- The figures tell of each of the six states how many of the listed sessions are in it. -/
  sessionsByState_eq : figures.sessionsByState =
    State.all.map fun state => (state, sessions.countP fun s => s.state = .state state)
  /-- These numbers add up to that of the peers. -/
  sum_sessionsByState : (figures.sessionsByState.map Prod.snd).sum = peers.length
  /-- The number of established sessions is that of the listed ones that are established. -/
  establishedCount_eq : e.establishedCount = sessions.countP Session.isEstablished
  /-- The figures have the same number. -/
  establishedSessions_eq : figures.establishedSessions = sessions.countP Session.isEstablished
  /-- It is the number of the last state. -/
  lookup_established :
    figures.sessionsByState.lookup .established = some (sessions.countP Session.isEstablished)
  /-- The running configuration is that of the listed peers. -/
  runningConfig_eq : e.runningConfig.2 = RunningConfig.render peers e.routerAsn
  /-- There are not more active walks than peers. -/
  activeWalks_le : e.IsOpen → figures.activeWalks ≤ figures.totalPeers
  /-- Every session that is not established has an active walk, unless it is stranded. -/
  le_activeWalks : e.IsOpen →
    figures.totalPeers ≤ figures.activeWalks + figures.establishedSessions + e.strandedSessions
  /-- If no observer is suspended, no other session has one. -/
  activeWalks_eq : e.IsOpen → (∀ w ∈ e.walks, w.isObserving = false) →
    figures.activeWalks + figures.establishedSessions + e.strandedSessions = figures.totalPeers
  /-- No session is stranded where no observer has called off a walk. -/
  strandedSessions_eq : (∀ w ∈ e.walks, w.isCalledOff = false) → e.strandedSessions = 0

variable {e : Engine} {l : List Registration} {starts : List Start} {now : Float}

namespace Holds

/-- The peers are those of the registrations. -/
theorem peers_eq (h : e.Holds l starts) : e.registry.peers = l.map Registration.peer := by
  rw [h.registry_eq]
  exact values_column l Registration.peer

/-- There are as many peers as registrations. -/
theorem size_eq (h : e.Holds l starts) : e.registry.size = l.length := by
  rw [h.registry_eq]
  exact List.length_map _

/-- Every session is readable in an engine all of whose sessions are. -/
theorem isReadable_session (h : e.Holds l starts) (hread : e.IsReadable now) {r : Registration}
    (hr : r ∈ l) : r.session.IsReadable now :=
  hread _ (h.sessions_eq ▸ List.mem_map_of_mem hr)

/-- All sessions are read. -/
theorem getAllSessions_eq (h : e.Holds l starts) (hread : e.IsReadable now) :
    (e.getAllSessions now).2 = .ok (l.map fun r => r.session.readAt now) := by
  have hall : e.registry.snapshotSessions now = .ok (l.map fun r => r.session.readAt now) := by
    have hmap : (l.map fun r => r.session.readAt now) =
        e.registry.sessions.map (Session.readAt now) := by
      rw [h.sessions_eq, List.map_map]
      rfl
    rw [hmap]
    exact mapM_of_forall_ok fun s hs => (hread s hs).snapshot_eq
  simp only [getAllSessions, hall]

/-- The peer of a registration is read at its address, and at no other address is there one. -/
private theorem getPeer_iff (h : e.Holds l starts) (a : Value) (p : Peer) :
    (e.getPeer a).2 = .ok p ↔ p ∈ l.map Registration.peer ∧ p.address = a := by
  rw [getPeer, h.registry_eq]
  constructor
  · intro hp
    cases hr : at? l a with
    | none =>
      rw [Registry.getPeer_of_none hr] at hp
      cases hp
    | some r =>
      rw [Registry.getPeer_of_some hr] at hp
      obtain rfl := Except.ok.inj hp
      obtain ⟨hmem, rfl⟩ := mem_of_at? hr
      exact ⟨List.mem_map_of_mem hmem, h.peer_address r hmem⟩
  · rintro ⟨hp, rfl⟩
    obtain ⟨r, hr, rfl⟩ := List.mem_map.mp hp
    rw [h.peer_address r hr]
    exact Registry.getPeer_of_some (h.at?_of_mem hr)

/-- The session of a registration is read at its address, and at no other address is there one. -/
private theorem getSession_iff (h : e.Holds l starts) (hread : e.IsReadable now) (a : Value)
    (s : Session) : (e.getSession a now).2 = .ok s ↔
      (s ∈ l.map fun r => r.session.readAt now) ∧ s.address = a := by
  have hfound {r : Registration} (hr : at? l a = some r) :
      (e.getSession a now).2 = .ok (r.session.readAt now) := by
    have hsnapshot := (h.isReadable_session hread (mem_of_at? hr).1).snapshot_eq
    simp only [getSession, h.registry_eq, Registry.getSession_of_some hr, hsnapshot]
  constructor
  · intro hs
    cases hr : at? l a with
    | none =>
      simp only [getSession, h.registry_eq, Registry.getSession_of_none hr] at hs
      cases hs
    | some r =>
      obtain rfl := Except.ok.inj ((hfound hr).symm.trans hs)
      obtain ⟨hmem, rfl⟩ := mem_of_at? hr
      refine ⟨List.mem_map_of_mem (f := fun r => r.session.readAt now) hmem, ?_⟩
      exact h.session_address r hmem
  · rintro ⟨hs, rfl⟩
    obtain ⟨r, hr, rfl⟩ := List.mem_map.mp hs
    refine hfound ?_
    rw [(r.session.sameCourse_readAt now).address_eq, h.session_address r hr]
    exact h.at?_of_mem hr

/-- Every session is in one of the states. -/
theorem exists_state (h : e.Holds l starts) (he : e.Reachable) :
    ∀ s ∈ e.registry.sessions, ∃ state, s.state = .state state := by
  intro s hs
  rw [h.sessions_eq] at hs
  obtain ⟨r, hr, rfl⟩ := List.mem_map.mp hs
  obtain ⟨state, hstate, _⟩ := (he.tellsCourse l starts h r hr).states
  exact ⟨state, hstate⟩

/-- The sessions are counted by state. -/
private theorem countByState_eq (he : e.Reachable) (h : e.Holds l starts) (now : Float) :
    ∃ counts, e.registry.countByState = .ok counts ∧
      counts = (State.all.map fun state =>
        (state, (l.map fun r => r.session.readAt now).countP fun s => s.state = .state state)) ∧
      (counts.map Prod.snd).sum = l.length := by
  obtain ⟨states, hstates, hlength, hcount⟩ := Session.exists_states (h.exists_state he)
  rw [h.sessions_eq] at hlength hcount
  refine ⟨State.all.map fun state => (state, states.count state), ?_, ?_, ?_⟩
  · simp only [Registry.countByState, hstates]
  · refine List.map_congr_left fun state _ => Prod.ext rfl ?_
    rw [hcount, List.countP_map, List.countP_map]
    rfl
  · rw [List.map_map]
    exact (State.sum_count states).trans (hlength.trans (List.length_map _))

/-- The established sessions are counted. -/
private theorem countEstablished_eq (h : e.Holds l starts) (now : Float) :
    e.registry.countEstablished =
      (l.map fun r => r.session.readAt now).countP Session.isEstablished := by
  rw [Registry.countEstablished, ← List.countP_eq_length_filter, h.sessions_eq, List.countP_map,
    List.countP_map]
  rfl

/-- Established is who is in the last state. -/
private theorem countP_isEstablished (he : e.Reachable) (h : e.Holds l starts) (now : Float) :
    ((l.map fun r => r.session.readAt now).countP fun s => s.state = .state .established) =
      (l.map fun r => r.session.readAt now).countP Session.isEstablished := by
  refine List.countP_congr fun s hs => ?_
  obtain ⟨r, hr, rfl⟩ := List.mem_map.mp hs
  obtain ⟨state, hstate, _⟩ := (he.tellsCourse l starts h r hr).states
  have hread : (r.session.readAt now).state = .state state := hstate
  rw [Session.isEstablished_of_state hread, hread]
  simp

section Walks

/-- As long as the engine has not been closed, a walk is found by each address, in order. -/
private theorem walkOf_keys (he : e.IsOpen) (h : e.Holds l starts) :
    e.walkOf.keys = l.map fun r => .text r.address := by
  have hsuffix : e.walkOf.keys <:+ l.map fun r => .text r.address := by
    have hstarts := h.keys_suffix
    rw [List.map_map] at hstarts
    exact hstarts
  obtain ⟨before, hbefore⟩ := hsuffix
  -- an address in front of the keys would be a key itself
  have hnone : before = [] := by
    refine List.eq_nil_iff_forall_not_mem.mpr fun a ha => ?_
    have hnodup := h.nodup_keys
    rw [← hbefore, List.nodup_append] at hnodup
    obtain ⟨r, hr, rfl⟩ := List.mem_map.mp (hbefore ▸ List.mem_append_left _ ha)
    obtain ⟨i, w, state, hattends⟩ := he.exists_attends h hr
    have hkey : .text r.address ∈ e.walkOf.keys :=
      List.mem_map_of_mem (h.walkNumber?_eq_some_iff.mp hattends.found)
    exact hnodup.2.2 _ ha _ hkey rfl
  rw [← hbefore, hnone, List.nil_append]

/-- The active walks are those of the registrations. -/
private theorem activeWalks_eq (he : e.IsOpen) (h : e.Holds l starts) :
    e.activeWalks = l.countP fun r => (e.walkNumber? (.text r.address)).any e.isRunning := by
  have hfound : e.walkOf.countP (e.isRunning ∘ Prod.snd) =
      e.walkOf.countP ((fun a => (e.walkNumber? a).any e.isRunning) ∘ Prod.fst) := by
    refine List.countP_congr fun entry hentry => ?_
    have hnumber : e.walkNumber? entry.1 = some entry.2 := h.walkNumber?_eq_some_iff.mpr hentry
    rw [Function.comp_apply, Function.comp_apply, hnumber, Option.any_some]
  rw [activeWalks, ← List.countP_eq_length_filter, Table.values, List.countP_map, hfound,
    ← List.countP_map]
  change e.walkOf.keys.countP _ = _
  rw [walkOf_keys he h, List.countP_map]
  rfl

/-- The stranded sessions are those of registrations. -/
private theorem strandedSessions_eq (h : e.Holds l starts) :
    e.strandedSessions = l.countP fun r => e.isStranded (.text r.address) := by
  rw [strandedSessions, h.addresses_eq, List.countP_map]
  rfl

/-- A session is stranded if it is not established and the walk that attends to it has been called
off. -/
private theorem isStranded_iff (h : e.Holds l starts) {r : Registration} (hr : r ∈ l) {i : Nat}
    {w : Walk} {state : State} (hattends : e.Attends r i w state) :
    e.isStranded (.text r.address) = true ↔
      r.session.isEstablished = false ∧ w.isCalledOff = true := by
  have hsession : e.sessionAt? (.text r.address) = some r.session := by
    rw [h.sessionAt?_eq, h.at?_of_mem hr, Option.map_some]
  have hwalk : e.walkAt? (.text r.address) = some w := by
    rw [walkAt?, hattends.found, Option.bind_some, hattends.walk?_eq]
  simp [isStranded, hsession, hwalk]

/-- A registration whose session is not established has an active walk, or the session is
stranded. -/
private theorem any_isRunning_or_isStranded (he : e.IsOpen) (h : e.Holds l starts)
    {r : Registration} (hr : r ∈ l) (hleft : r.session.isEstablished = false) :
    (e.walkNumber? (.text r.address)).any e.isRunning = true ∨
      e.isStranded (.text r.address) = true := by
  obtain ⟨i, w, state, hattends⟩ := he.exists_attends h hr
  rw [isStranded_iff h hr hattends, hattends.found, Option.any_some, Roster.isRunning,
    hattends.walk?_eq, Option.any_some]
  cases hrunning : w.isRunning with
  | true => exact Or.inl rfl
  | false =>
    rcases hattends.established_or_calledOff hrunning with hlast | hcalledOff
    · rw [(Session.isEstablished_of_state hattends.state_eq).mpr hlast] at hleft
      cases hleft
    · exact Or.inr ⟨hleft, hcalledOff⟩

/-- A stranded session has no active walk. -/
private theorem not_any_isRunning_of_isStranded (he : e.IsOpen) (h : e.Holds l starts)
    {r : Registration} (hr : r ∈ l) (hstranded : e.isStranded (.text r.address) = true) :
    (e.walkNumber? (.text r.address)).any e.isRunning = false ∧
      r.session.isEstablished = false := by
  obtain ⟨i, w, state, hattends⟩ := he.exists_attends h hr
  obtain ⟨hleft, hcalledOff⟩ := (isStranded_iff h hr hattends).mp hstranded
  rw [hattends.found, Option.any_some, Roster.isRunning, hattends.walk?_eq, Option.any_some]
  exact ⟨Walk.isRunning_of_isCalledOff hcalledOff, hleft⟩

/-- If no observer is suspended, the walk of an established session is over. -/
private theorem not_any_isRunning (he : e.IsOpen) (h : e.Holds l starts)
    (hobserving : ∀ w ∈ e.walks, w.isObserving = false) {r : Registration} (hr : r ∈ l)
    (hestablished : r.session.isEstablished = true) :
    (e.walkNumber? (.text r.address)).any e.isRunning = false := by
  obtain ⟨i, w, state, hattends⟩ := he.exists_attends h hr
  obtain rfl := (Session.isEstablished_of_state hattends.state_eq).mp hestablished
  have hprompt := hobserving w (List.mem_of_getElem? hattends.walk?_eq)
  rw [hattends.found, Option.any_some, Roster.isRunning, hattends.walk?_eq, Option.any_some]
  exact hattends.over_or_observing.resolve_right (Bool.eq_false_iff.mp hprompt)

end Walks

end Holds

/-- The figures can always be read. -/
theorem Reachable.exists_statistics (he : e.Reachable) :
    ∃ figures, e.statistics = .ok figures ∧ figures.activeWalks = e.activeWalks := by
  obtain ⟨l, starts, h⟩ := he.exists_holds
  obtain ⟨states, hstates, _⟩ := Session.exists_states (h.exists_state he)
  simp only [statistics, Registry.countByState, hstates]
  exact ⟨_, rfl, rfl⟩

/-- In every engine that is reached all reads agree at one reading of the clock, if it is a finite
time away from those at which sessions were established. As long as the engine has not been closed,
only stranded sessions are neither established nor have an active walk. -/
theorem Reachable.readings_agree (he : e.Reachable) (hread : e.IsReadable now) :
    ∃ peers sessions figures, e.getAllPeers.2 = .ok peers ∧
      (e.getAllSessions now).2 = .ok sessions ∧ e.statistics = .ok figures ∧
      e.ReadingsAgree now peers sessions figures := by
  obtain ⟨l, starts, h⟩ := he.exists_holds
  obtain ⟨counts, hcounts, hstates, hsum⟩ := h.countByState_eq he now
  have hestablished := h.countEstablished_eq now
  have hlast := h.countP_isEstablished he now
  have hpeers := h.peers_eq
  refine ⟨l.map Registration.peer, l.map fun r => r.session.readAt now,
    { totalPeers := e.peerCount
      establishedSessions := e.establishedCount
      sessionsByState := counts
      activeWalks := e.activeWalks
      faultInjection := e.faults.enabled
      stateDelay := e.stateDelay }, congrArg Except.ok hpeers, h.getAllSessions_eq hread, ?_, ?_⟩
  · rw [statistics, hcounts]
    rfl
  have htotal : e.peerCount = l.length := h.size_eq
  have hnumber : e.establishedCount = l.countP fun r => r.session.isEstablished := by
    rw [establishedCount, hestablished, List.countP_map]
    rfl
  have hcases (hopen : e.IsOpen) : ∀ r ∈ l,
      (e.walkNumber? (.text r.address)).any e.isRunning = true ∨
        r.session.isEstablished = true ∨ e.isStranded (.text r.address) = true := by
    intro r hr
    cases hlast : r.session.isEstablished with
    | true => exact Or.inr (Or.inl rfl)
    | false => exact (h.any_isRunning_or_isStranded hopen hr hlast).imp_right Or.inr
  constructor
  case addresses_eq =>
    rw [List.map_map, List.map_map]
    refine List.map_congr_left fun r hr => ?_
    exact (h.peer_address r hr).trans (h.session_address r hr).symm
  case addresses_nodup =>
    have htexts : (l.map Registration.peer).map Peer.address = l.map fun r => .text r.address := by
      rw [List.map_map]
      exact List.map_congr_left h.peer_address
    rw [htexts]
    exact h.nodup_keys
  case getPeer_iff => exact h.getPeer_iff
  case getSession_iff => exact h.getSession_iff hread
  case peerCount_eq => rw [htotal, List.length_map]
  case sessions_length => rw [List.length_map, List.length_map]
  case totalPeers_eq => rw [htotal, List.length_map]
  case sessionsByState_eq => exact hstates
  case sum_sessionsByState => rw [hsum, List.length_map]
  case establishedCount_eq => exact hestablished
  case establishedSessions_eq => exact hestablished
  case lookup_established =>
    rw [hstates, ← hlast]
    rfl
  case runningConfig_eq => rw [runningConfig, hpeers]
  case activeWalks_le =>
    intro hopen
    rw [h.activeWalks_eq hopen, htotal]
    exact List.countP_le_length
  case le_activeWalks =>
    intro hopen
    rw [h.activeWalks_eq hopen, htotal, hnumber, h.strandedSessions_eq]
    exact length_le_countP (hcases hopen)
  case activeWalks_eq =>
    intro hopen hobserving
    rw [h.activeWalks_eq hopen, htotal, hnumber, h.strandedSessions_eq]
    refine (length_eq_countP (hcases hopen) ?_ ?_).symm
    · exact fun r hr hlast => h.not_any_isRunning hopen hobserving hr hlast
    · exact fun r hr hstranded => h.not_any_isRunning_of_isStranded hopen hr hstranded
  case strandedSessions_eq =>
    intro hnone
    refine List.countP_eq_zero.mpr fun a _ hstranded => ?_
    obtain ⟨_, hcalledOff⟩ := Bool.and_eq_true_iff.mp hstranded
    obtain ⟨w, hw, hoff⟩ := (Option.any_eq_true _ _).mp hcalledOff
    obtain ⟨i, _, hi⟩ := Option.bind_eq_some_iff.mp hw
    rw [hnone w (List.mem_of_getElem? hi)] at hoff
    cases hoff

/-- After an observer has raised the cancellation error, the figures of an engine that has not been
closed tell of a peer whose session is not established and for which no walk is active. -/
theorem missing_walk_calledOffRun :
    (({} : Engine).run calledOffRun).IsOpen ∧
      (∀ w ∈ (({} : Engine).run calledOffRun).walks, w.isObserving = false) ∧
      ∃ figures, (({} : Engine).run calledOffRun).statistics = .ok figures ∧
        figures.totalPeers = 1 ∧ figures.establishedSessions = 0 ∧ figures.activeWalks = 0 := by
  have hnew : IsNew {} := ⟨rfl, rfl, rfl, rfl⟩
  exact ⟨hnew.isOpen not_close_of_mem_calledOffRun, by decide, _, rfl, rfl, rfl, rfl⟩

/-- An engine with two peers. The session of the first has been established after ten seconds,
and the walk of the second sleeps. -/
def halfEstablished : Engine :=
  ({} : Engine).run [
    ⟨.call (.addPeer (.record samplePeer)), 0.0⟩,
    ⟨.call (.addPeer (.record otherPeer)), 0.0⟩,
    ⟨.turn 0 {} true, 0.0⟩,
    ⟨.turn 0 {} true, 2.0⟩,
    ⟨.turn 0 {} true, 4.0⟩,
    ⟨.turn 1 {} true, 5.0⟩,
    ⟨.turn 0 {} true, 6.0⟩,
    ⟨.turn 0 {} true, 8.0⟩,
    ⟨.turn 0 {} true, 10.0⟩]

/-- Of the two sessions one is counted as established and the other one's walk as active. -/
theorem readings_agree_halfEstablished :
    halfEstablished.Reachable ∧ halfEstablished.IsReadable 12.5 ∧
      ∃ peers sessions figures, halfEstablished.ReadingsAgree 12.5 peers sessions figures ∧
        figures.totalPeers = 2 ∧ figures.establishedSessions = 1 ∧ figures.activeWalks = 1 ∧
        sessions.map Session.isEstablished = [true, false] := by
  have hreachable : halfEstablished.Reachable := ⟨{}, _, ⟨rfl, rfl, rfl, rfl⟩, rfl⟩
  have hread : halfEstablished.IsReadable 12.5 := by decide +kernel
  obtain ⟨peers, sessions, figures, _, hsessions, hfigures, hagree⟩ :=
    hreachable.readings_agree hread
  have hlisted : (halfEstablished.getAllSessions 12.5).2.toOption.map
      (List.map Session.isEstablished) = some [true, false] := by decide +kernel
  have hnumbers : halfEstablished.statistics.toOption.map (fun figures =>
      (figures.totalPeers, figures.establishedSessions, figures.activeWalks)) =
      some (2, 1, 1) := by decide +kernel
  rw [hsessions] at hlisted
  rw [hfigures] at hnumbers
  simp only [Except.toOption, Option.map_some, Option.some.injEq, Prod.mk.injEq] at hlisted hnumbers
  obtain ⟨htotal, hestablished, hactive⟩ := hnumbers
  exact ⟨hreachable, hread, peers, sessions, figures, hagree, htotal, hestablished, hactive,
    hlisted⟩

end Engine

end Peering
