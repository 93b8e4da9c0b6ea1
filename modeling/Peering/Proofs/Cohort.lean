import Peering.Proofs.Monitoring
import Peering.Simulation

/-!
# Members of a simulation

In a simulation the clock by which states are entered stands still, nobody is told of changes, and
no peer is changed once it has been added. So all there is to say about a peer is how many turns its
walk has had. This file shows that a turn of a walk takes its own peer on and no other, and what is
read of an engine with such members.
-/

namespace Peering

open Registration

/-- What the clock shows during a simulation. -/
def Simulation.now : Float := Float.ofNat clockReading

namespace Walk

variable {w : Walk} {r : Registry} {s moved : Session} {state : State} {now : Float}

/-- A walk falls asleep as long as its session is not established. -/
theorem lookAhead_of_live (hlive : r.live? w.address w.generation = .ok (some s))
    (hleft : s.isEstablished = false) :
    w.lookAhead r =
      ⟨r, { w with phase := .asleep }, [.sleep w.address w.generation w.delay]⟩ := by
  simp only [lookAhead, hlive, hleft, Bool.false_eq_true, if_false]

/-- Where nobody is told, a walk that wakes up writes the next state and falls asleep again. -/
theorem step_nobody (hlive : r.live? w.address w.generation = .ok (some s))
    (hadvance : s.advance now = (moved, .ok state)) (hstate : state ≠ .established)
    (hnext : (r.setSession w.address moved).live? w.address w.generation = .ok (some moved))
    (hleft : moved.isEstablished = false) :
    ∃ text, w.step r now {} =
      ⟨r.setSession w.address moved, { w with written := state, phase := .asleep },
        [w.report .info text, .sleep w.address w.generation w.delay]⟩ := by
  have hlook := lookAhead_of_live (w := { w with written := state }) hnext hleft
  simp only [step, hlive, hadvance, notify, tell_nobody, proceed, hstate, if_false, hlook]
  exact ⟨_, rfl⟩

/-- After the last state it is over. -/
theorem step_last (hlive : r.live? w.address w.generation = .ok (some s))
    (hadvance : s.advance now = (moved, .ok .established)) :
    ∃ text, w.step r now {} =
      ⟨r.setSession w.address moved, { w with written := .established, phase := .ended },
        [w.report .info text]⟩ := by
  simp only [step, hlive, hadvance, notify, tell_nobody, proceed, if_true]
  exact ⟨_, rfl⟩

end Walk

/-- A peer that has been added in a simulation. -/
structure Member where
  /-- The address of the peer. -/
  address : String
  /-- The peer as it is registered. -/
  peer : Peer
  /-- The generation of its registration. -/
  generation : Int
  /-- How many turns its walk has had, of those before it is over. -/
  turns : Nat

namespace Member

/-- The session at an address once it has moved so many times. -/
def sessionAfter (a : String) : Nat → Session
  | 0 => Session.initial (.text a) Simulation.now
  | n + 1 => ((sessionAfter a n).advance Simulation.now).1

/-- The state of a session that has moved so many times. -/
def stateAfter (n : Nat) : State := (State.ofNumber? n).getD .established

/-- How often the session of a member has moved: its walk falls asleep at its first turn. -/
def moves (m : Member) : Nat := m.turns - 1

/-- The session of a member. -/
def session (m : Member) : Session := sessionAfter m.address m.moves

/-- The registration of a member. -/
def registration (m : Member) : Registration := ⟨m.address, m.peer, m.session, m.generation⟩

/-- The walk of a member, which sleeps before each of its moves. -/
def walk (delay : Float) (m : Member) : Walk where
  address := .text m.address
  generation := .int m.generation
  delay
  phase := if m.turns = 0 then .scheduled else if m.turns ≤ 5 then .asleep else .ended
  written := stateAfter m.moves

/-- The member after a turn of its walk. -/
def next (m : Member) : Member := { m with turns := m.turns + 1 }

/-- The member once its walk has had so many turns. -/
def after (k : Nat) (m : Member) : Member := { m with turns := k }

/-- The members after turns of some of their walks. -/
def afterTurns (ms : List Member) (todo : List Nat) : List Member :=
  todo.foldl (fun ms i => ms.modify i next) ms

/-- Every session is in the state of its place in the order. -/
theorem state_sessionAfter (a : String) {n : Nat} (hn : n ≤ 5) :
    (sessionAfter a n).state = .state (stateAfter n) := by
  interval_cases n <;> rfl

/-- A session moves without fail until it is established. -/
theorem advance_sessionAfter (a : String) {n : Nat} (hn : n < 5) :
    (sessionAfter a n).advance Simulation.now =
      (sessionAfter a (n + 1), .ok (stateAfter (n + 1))) := by
  interval_cases n <;> rfl

/-- The session of a member is in one of the states. -/
theorem state_session {m : Member} (hm : m.turns ≤ 6) :
    m.session.state = .state (stateAfter m.moves) :=
  state_sessionAfter m.address (by unfold moves; omega)

/-- It is established after six turns. -/
theorem isEstablished_session {m : Member} (hm : m.turns ≤ 6) :
    m.session.isEstablished = true ↔ m.turns = 6 := by
  rw [Session.isEstablished_of_state (state_session hm)]
  have hall : ∀ n ≤ 6, stateAfter (n - 1) = .established ↔ n = 6 := by decide
  exact hall m.turns hm

/-- It can be read. -/
theorem isReadable_session {m : Member} (hm : m.turns ≤ 6) :
    m.session.IsReadable Simulation.now := by
  intro hestablished
  have hturns := (isEstablished_session hm).mp hestablished
  have htime : m.session.changedAt = (sessionAfter "" 5).changedAt := by
    rw [session, moves, hturns]
    rfl
  rw [htime]
  decide +kernel

/-- The session of a member is that of its address. -/
theorem address_session {m : Member} (hm : m.turns ≤ 6) :
    m.session.address = .text m.address := by
  have hmoves : m.moves ≤ 5 := by
    unfold moves
    omega
  unfold session
  generalize m.moves = n at hmoves
  interval_cases n <;> rfl

section Turn

variable {m : Member} {r : Registry} {delay : Float}

/-- At its first turn the walk of a member falls asleep. -/
theorem turn_first (hm : m.turns = 0)
    (hlive : r.live? (.text m.address) (.int m.generation) = .ok (some m.session)) :
    (m.walk delay).turn r Simulation.now {} =
      ⟨r, m.next.walk delay, [.sleep (.text m.address) (.int m.generation) delay]⟩ := by
  obtain ⟨a, p, g, k⟩ := m
  obtain rfl : k = 0 := hm
  exact Walk.lookAhead_of_live (w := walk delay ⟨a, p, g, 0⟩) hlive rfl

/-- At a later turn it wakes up, moves the session, and falls asleep again before the last state. -/
theorem turn_later {n : Nat} (hm : m.turns = n + 1) (hn : n < 5)
    (hlive : r.live? (.text m.address) (.int m.generation) = .ok (some m.session))
    (hnext : (r.setSession (.text m.address) m.next.session).live? (.text m.address)
      (.int m.generation) = .ok (some m.next.session)) :
    ∃ effects, (m.walk delay).turn r Simulation.now {} =
        ⟨r.setSession (.text m.address) m.next.session, m.next.walk delay, effects⟩ ∧
      effects.findSome? Effect.delay? = if n < 4 then some delay else none := by
  obtain ⟨a, p, g, k⟩ := m
  obtain rfl : k = n + 1 := hm
  have hadvance := advance_sessionAfter a hn
  have hasleep : (walk delay ⟨a, p, g, n + 1⟩).turn r Simulation.now {} =
      (walk delay ⟨a, p, g, n + 1⟩).step r Simulation.now {} := by
    interval_cases n <;> rfl
  rw [hasleep]
  rcases Nat.lt_succ_iff_lt_or_eq.mp hn with hlt | rfl
  · have hleft : (sessionAfter a (n + 1)).isEstablished = false := by interval_cases n <;> rfl
    have hstate : stateAfter (n + 1) ≠ .established := by interval_cases n <;> decide
    have hwalk : { walk delay ⟨a, p, g, n + 1⟩ with
        written := stateAfter (n + 1), phase := .asleep } = walk delay ⟨a, p, g, n + 2⟩ := by
      interval_cases n <;> rfl
    obtain ⟨text, hstep⟩ := Walk.step_nobody (w := walk delay ⟨a, p, g, n + 1⟩) hlive hadvance
      hstate hnext hleft
    rw [hwalk] at hstep
    exact ⟨_, hstep, (if_pos hlt).symm⟩
  · obtain ⟨text, hstep⟩ := Walk.step_last (w := walk delay ⟨a, p, g, 5⟩) hlive hadvance
    exact ⟨_, hstep, rfl⟩

end Turn

section Members

variable {ms : List Member} {m : Member} {i : Nat}

/-- A part of each member after one of them has had a turn. -/
theorem map_modify {α : Type} (hm : ms[i]? = some m) (f : Member → α) :
    (ms.modify i next).map f = (ms.map f).set i (f m.next) := by
  obtain ⟨hi, heq⟩ := List.getElem?_eq_some_iff.mp hm
  refine List.ext_getElem? fun j => ?_
  rw [List.getElem?_map, List.getElem?_modify, List.getElem?_set, List.length_map]
  by_cases hij : i = j
  · subst hij
    simp [hi, heq]
  · simp [hij]

/-- What a turn does not change stays the same for all members. -/
theorem map_modify_of_eq {α : Type} (hm : ms[i]? = some m) {f : Member → α}
    (hf : f m.next = f m) : (ms.modify i next).map f = ms.map f := by
  rw [map_modify hm, hf]
  have hat : (ms.map f)[i]? = some (f m) := by rw [List.getElem?_map, hm, Option.map_some]
  obtain ⟨hi, heq⟩ := List.getElem?_eq_some_iff.mp hat
  rw [← heq, List.set_getElem_self]

/-- Each of the walks has had another turn, and no other. -/
theorem getElem?_afterTurns {todo : List Nat} (htodo : todo.Nodup) (ms : List Member) (j : Nat) :
    (afterTurns ms todo)[j]? = (ms[j]?).map fun m => if j ∈ todo then m.next else m := by
  induction todo generalizing ms with
  | nil => simp [afterTurns]
  | cons i rest ih =>
    obtain ⟨hi, hrest⟩ := List.nodup_cons.mp htodo
    have hafter : afterTurns ms (i :: rest) = afterTurns (ms.modify i next) rest := rfl
    rw [hafter, ih hrest, List.getElem?_modify]
    by_cases hij : j = i
    · subst hij
      cases ms[j]? <;> simp [hi]
    · have hji : ¬i = j := fun h => hij h.symm
      simp [hij, hji]

/-- After a turn of every walk all members have gone on. -/
theorem afterTurns_eq {todo : List Nat} {k : Nat} (htodo : todo.Perm (List.range ms.length)) :
    afterTurns (ms.map (after k)) todo = ms.map (after (k + 1)) := by
  refine List.ext_getElem? fun j => ?_
  rw [getElem?_afterTurns (htodo.nodup_iff.mpr List.nodup_range), List.getElem?_map,
    List.getElem?_map, Option.map_map]
  cases hj : ms[j]? with
  | none => rfl
  | some m =>
    have hmem : j ∈ todo := by
      rw [htodo.mem_iff, List.mem_range]
      exact (List.getElem?_eq_some_iff.mp hj).1
    simp [hmem, after, next]

/-- The registration of a member is found at its address. -/
theorem at?_of_getElem? (hnodup : (ms.map address).Nodup) (hm : ms[i]? = some m) :
    at? (ms.map registration) (.text m.address) = some m.registration := by
  refine at?_of_mem ?_ (List.mem_map_of_mem (List.mem_of_getElem? hm))
  rw [List.map_map]
  exact hnodup

/-- What is live for the walk of a member is its session. -/
theorem live?_eq (hnodup : (ms.map address).Nodup) (hm : ms[i]? = some m) :
    (Registry.ofList (ms.map registration)).live? (.text m.address) (.int m.generation) =
      .ok (some m.session) := by
  rw [Registry.live?_ofList, at?_of_getElem? hnodup hm]
  simp [registration, Option.filter_some]

/-- Where the session of a member is written, it is this one that has had a turn. -/
theorem setSession_eq (hnodup : (ms.map address).Nodup) (hm : ms[i]? = some m) :
    (Registry.ofList (ms.map registration)).setSession (.text m.address) m.next.session =
      .ofList ((ms.modify i next).map registration) := by
  rw [Registry.setSession_of_some (at?_of_getElem? hnodup hm), map_modify hm]
  congr 1
  refine List.ext_getElem? fun j => ?_
  rw [adjust, List.map_map, List.getElem?_map, List.getElem?_set, List.getElem?_map,
    List.length_map]
  obtain ⟨hi, heq⟩ := List.getElem?_eq_some_iff.mp hm
  by_cases hij : i = j
  · subst hij
    simp [hi, heq, registration, next]
  · rw [if_neg hij]
    cases hj : ms[j]? with
    | none => rfl
    | some m' =>
      have hne : m'.address ≠ m.address := by
        intro haddress
        have hi' : i < (ms.map address).length := by rwa [List.length_map]
        refine hij ((List.getElem?_inj hi' hnodup).mp ?_)
        rw [List.getElem?_map, List.getElem?_map, hm, hj, Option.map_some, Option.map_some,
          haddress]
      simp [registration, hne]

/-- A turn of the walk of a member takes this member on, and the walk asks for its delay unless it
is over. -/
theorem exists_turn (hnodup : (ms.map address).Nodup) (hm : ms[i]? = some m)
    (hturns : m.turns ≤ 5) (delay : Float) :
    ∃ effects, (m.walk delay).turn (.ofList (ms.map registration)) Simulation.now {} =
        ⟨.ofList ((ms.modify i next).map registration), m.next.walk delay, effects⟩ ∧
      effects.findSome? Effect.delay? = if m.turns < 5 then some delay else none := by
  have hlive := live?_eq hnodup hm
  rcases Nat.eq_zero_or_pos m.turns with hfirst | hpos
  · have hsame : m.next.registration = m.registration := by
      simp [registration, session, moves, next, hfirst]
    rw [if_pos (by omega), map_modify_of_eq hm hsame]
    exact ⟨_, turn_first hfirst hlive, rfl⟩
  · have hset := setSession_eq hnodup hm
    have hnext : (Registry.ofList ((ms.modify i next).map registration)).live?
        (.text m.address) (.int m.generation) = .ok (some m.next.session) := by
      refine live?_eq (m := m.next) (i := i) ?_ (by simp [hm])
      rwa [map_modify_of_eq hm rfl]
    rw [← hset] at hnext ⊢
    obtain ⟨effects, hturn, hdelay⟩ :=
      turn_later (n := m.turns - 1) (by omega) (by omega) hlive hnext
    have hiff : m.turns - 1 < 4 ↔ m.turns < 5 := by omega
    simp only [hiff] at hdelay
    exact ⟨effects, hturn, hdelay⟩

end Members

end Member

namespace Engine

/-- The engine has these members, and their walks are those by which they are found. -/
structure Marches (e : Engine) (ms : List Member) : Prop where
  registry_eq : e.registry = .ofList (ms.map Member.registration)
  walks_eq : e.walks = ms.map (Member.walk e.stateDelay)
  walkOf_eq : e.walkOf = (ms.map Member.address).zipIdx.map fun x => (.text x.1, x.2)
  nodup : (ms.map Member.address).Nodup
  turns_le : ∀ m ∈ ms, m.turns ≤ 6

namespace Marches

variable {e : Engine} {ms : List Member} {m : Member} {i : Nat}

/-- A turn of the walk of a member takes this member on, and no other. -/
theorem walkTurn (h : e.Marches ms) (hm : ms[i]? = some m) (hturns : m.turns ≤ 5) :
    (e.walkTurn i Simulation.now {}).1.Marches (ms.modify i Member.next) ∧
      (e.walkTurn i Simulation.now {}).1.stateDelay = e.stateDelay ∧
      (e.walkTurn i Simulation.now {}).1.routerAsn = e.routerAsn ∧
      (e.walkTurn i Simulation.now {}).2.findSome? Effect.delay? =
        if m.turns < 5 then some e.stateDelay else none := by
  obtain ⟨effects, hturn, hdelay⟩ := Member.exists_turn h.nodup hm hturns e.stateDelay
  have hwalk : e.walk? i = some (m.walk e.stateDelay) := by
    rw [Roster.walk?, h.walks_eq, List.getElem?_map, hm]
    rfl
  have hafter : e.walkTurn i Simulation.now {} =
      ({ e with
        registry := .ofList ((ms.modify i Member.next).map Member.registration)
        walks := e.walks.set i (m.next.walk e.stateDelay) }, effects) := by
    rw [Engine.walkTurn, Roster.turn, hwalk, h.registry_eq]
    simp only [hturn]
    rfl
  have haddresses := Member.map_modify_of_eq hm (f := Member.address) rfl
  rw [hafter]
  refine ⟨?_, rfl, rfl, hdelay⟩
  constructor
  case registry_eq => rfl
  case walks_eq =>
    change e.walks.set i _ = _
    rw [h.walks_eq, Member.map_modify hm]
  case walkOf_eq =>
    rw [haddresses]
    exact h.walkOf_eq
  case nodup =>
    rw [haddresses]
    exact h.nodup
  case turns_le =>
    intro m' hm'
    have hmem := List.mem_map_of_mem (f := Member.turns) hm'
    rw [Member.map_modify hm] at hmem
    rcases List.mem_or_eq_of_mem_set hmem with hmem | heq
    · obtain ⟨m'', hm'', heq⟩ := List.mem_map.mp hmem
      exact heq ▸ h.turns_le m'' hm''
    · exact heq ▸ Nat.succ_le_succ hturns

section Readings

/-- The sessions are those of the members. -/
theorem sessions_eq (h : e.Marches ms) : e.registry.sessions = ms.map Member.session := by
  rw [h.registry_eq, Registry.sessions, Registry.ofList, values_column, List.map_map]
  rfl

/-- The peers are those of the members. -/
theorem peers_eq (h : e.Marches ms) : e.registry.peers = ms.map Member.peer := by
  rw [h.registry_eq, Registry.peers, Registry.ofList, values_column, List.map_map]
  rfl

/-- There are as many peers as members. -/
theorem peerCount_eq (h : e.Marches ms) : e.peerCount = ms.length := by
  rw [Engine.peerCount, h.registry_eq, Registry.size, Registry.ofList, column, List.length_map,
    List.length_map]

/-- As many sessions are established as members have had all their six turns. -/
theorem establishedCount_eq (h : e.Marches ms) :
    e.establishedCount = ms.countP fun m => m.turns = 6 := by
  rw [Engine.establishedCount, Registry.countEstablished, h.sessions_eq,
    ← List.countP_eq_length_filter, List.countP_map]
  refine List.countP_congr fun m hm => ?_
  rw [decide_eq_true_iff]
  exact Member.isEstablished_session (h.turns_le m hm)

/-- All sessions are in states and can be read. -/
theorem getAllSessions_eq (h : e.Marches ms) :
    (e.getAllSessions Simulation.now).2 =
      .ok (ms.map fun m => m.session.readAt Simulation.now) := by
  have hall : e.registry.snapshotSessions Simulation.now =
      .ok (ms.map fun m => m.session.readAt Simulation.now) := by
    have hmap : (ms.map fun m => m.session.readAt Simulation.now) =
        (ms.map Member.session).map (Session.readAt Simulation.now) := by
      rw [List.map_map]
      rfl
    rw [Registry.snapshotSessions, h.sessions_eq, hmap]
    refine mapM_of_forall_ok fun s hs => ?_
    obtain ⟨m, hm, rfl⟩ := List.mem_map.mp hs
    exact (Member.isReadable_session (h.turns_le m hm)).snapshot_eq
  simp only [getAllSessions, hall]

/-- The figures can be read. -/
theorem exists_statistics (h : e.Marches ms) : ∃ figures, e.statistics = .ok figures := by
  have hall : ∀ s ∈ e.registry.sessions, ∃ state, s.state = .state state := by
    intro s hs
    rw [h.sessions_eq] at hs
    obtain ⟨m, hm, rfl⟩ := List.mem_map.mp hs
    exact ⟨_, Member.state_session (h.turns_le m hm)⟩
  obtain ⟨states, hstates, _⟩ := Session.exists_states hall
  simp only [statistics, Registry.countByState, hstates]
  exact ⟨_, rfl⟩

/-- The sessions that are read are those of distinct addresses. -/
theorem areDistinctTexts (h : e.Marches ms) :
    AreDistinctTexts ((ms.map fun m => m.session.readAt Simulation.now).map Session.address) := by
  have haddresses : (ms.map fun m => m.session.readAt Simulation.now).map Session.address =
      (ms.map Member.address).map Value.text := by
    rw [List.map_map, List.map_map]
    exact List.map_congr_left fun m hm => Member.address_session (h.turns_le m hm)
  rw [haddresses]
  constructor
  case texts =>
    intro v hv
    obtain ⟨a, _, rfl⟩ := List.mem_map.mp hv
    exact ⟨a, rfl⟩
  case nodup => exact h.nodup.map fun a b hab => Value.text.inj hab

/-- The snapshot of the members is proper. -/
theorem isProper_ofSessions (h : e.Marches ms) :
    (Snapshot.ofSessions (ms.map fun m => m.session.readAt Simulation.now)).IsProper := by
  constructor
  case keys =>
    rw [Snapshot.keys_ofSessions h.areDistinctTexts]
    exact h.areDistinctTexts
  case states =>
    rw [Snapshot.ofSessions_eq h.areDistinctTexts, Table.values, List.map_map]
    intro s hs
    obtain ⟨s', hs', rfl⟩ := List.mem_map.mp hs
    obtain ⟨m, hm, rfl⟩ := List.mem_map.mp hs'
    exact ⟨_, Member.state_session (h.turns_le m hm)⟩

/-- A poll with a callback that does not fail does not fail either. -/
theorem poll_ok (h : e.Marches ms) {M : Monitor} (hproper : M.sessions.IsProper)
    {callback : Option EventObserver} (hcallback : callback = some fun _ => .returned) :
    (∃ events, (M.poll e Simulation.now callback).result = .ok events) ∧
      (M.poll e Simulation.now callback).monitor.sessions.IsProper := by
  have hpolled : (M.poll e Simulation.now callback).monitor = _ ∧ _ :=
    Monitor.poll_of_ok h.getAllSessions_eq
  obtain ⟨hmonitor, hdelivers⟩ := hpolled
  obtain ⟨outcome, hhears, hresult⟩ := hdelivers fun event hevent =>
    ((Event.mem_between_iff hproper.keys h.areDistinctTexts).mp hevent).exists_describe hproper
      h.isProper_ofSessions
  have houtcome : outcome = .ok () := by
    rw [hcallback] at hhears
    generalize eventsIn _ = heard, Event.between _ _ = events at hhears
    cases hhears with
    | all => rfl
    | upTo _ hraised => cases hraised
  rw [houtcome] at hresult
  exact ⟨⟨_, hresult⟩, hmonitor ▸ h.isProper_ofSessions⟩

end Readings

section Adding

variable {p : Peer} {a : String}

/-- The addresses at which walks are found are those of the members. -/
theorem walkOf_keys (h : e.Marches ms) : e.walkOf.keys = (ms.map Member.address).map .text := by
  have hfirst := congrArg (List.map Value.text) (List.zipIdx_map_fst 0 (ms.map Member.address))
  rw [h.walkOf_eq, Table.keys, List.map_map, ← hfirst, List.map_map]
  rfl

/-- The walks that are found are numbered as the members are. -/
theorem walkOf_values (h : e.Marches ms) : e.walkOf.values = List.range ms.length := by
  have hsecond := List.zipIdx_map_snd 0 (ms.map Member.address)
  rw [List.length_map, ← List.range_eq_range'] at hsecond
  rw [h.walkOf_eq, Table.values, List.map_map, ← hsecond]
  rfl

/-- A peer that is added joins the members. -/
theorem enrolled (h : e.Marches ms) (hnew : a ∉ ms.map Member.address) (p : Peer) :
    (e.enrolled (ms.map Member.registration) a p Simulation.now).Marches
      (ms ++ [⟨a, Registry.created p Simulation.now, e.nextGeneration, 0⟩]) := by
  constructor
  case registry_eq =>
    rw [List.map_append]
    rfl
  case walks_eq =>
    change e.walks ++ [_] = _
    rw [h.walks_eq, List.map_append]
    rfl
  case walkOf_eq =>
    have hdistinct : AreDistinctTexts e.walkOf.keys := by
      rw [h.walkOf_keys]
      refine ⟨fun v hv => ?_, h.nodup.map fun b c hbc => Value.text.inj hbc⟩
      obtain ⟨b, _, rfl⟩ := List.mem_map.mp hv
      exact ⟨b, rfl⟩
    have habsent : Value.text a ∉ e.walkOf.keys := by
      rw [h.walkOf_keys]
      simpa using hnew
    change e.walkOf.set (.text a) e.walks.length = _
    rw [Table.set_of_not_mem hdistinct habsent, h.walkOf_eq, h.walks_eq, List.map_append,
      List.zipIdx_append, List.map_append]
    simp
  case nodup =>
    rw [List.map_append, List.map_singleton]
    exact List.nodup_append.mpr ⟨h.nodup, by simp, by simpa using hnew⟩
  case turns_le =>
    intro m hm
    rcases List.mem_append.mp hm with hm | hm
    · exact h.turns_le m hm
    · obtain rfl := List.mem_singleton.mp hm
      exact Nat.zero_le 6

/-- A new valid peer that can be copied is added: it joins the members, and its walk is started
between two reports. -/
theorem addPeer_new (h : e.Marches ms) (hoff : e.faults.isOn = false)
    (hvalid : p.validate = .ok a) (hnew : a ∉ ms.map Member.address)
    (hcopy : p.isCopyable = true) :
    ∃ r r', e.addPeer (.record p) Simulation.now =
      ⟨e.enrolled (ms.map Member.registration) a p Simulation.now,
        [.report r, .started ms.length, .report r'], .ok ()⟩ := by
  have hnone : at? (ms.map Member.registration) (.text a) = none := by
    rw [at?_eq_none]
    rintro r hr heq
    obtain ⟨m, hm, rfl⟩ := List.mem_map.mp hr
    exact hnew (List.mem_map.mpr ⟨m, hm, (Value.text.inj heq).symm⟩)
  have haddress := Peer.address_of_validate hvalid
  have hcheck := Peer.check_eq_ok_iff_validate.mpr hvalid
  have hinsert := Registry.insert_of_none haddress hnone e.nextGeneration Simulation.now
  have hpeer : (PeerInput.record p).peer = .ok p := rfl
  have hlength : ms.length = e.walks.length := by rw [h.walks_eq, List.length_map]
  simp only [hcopy, if_true] at hinsert
  simp only [addPeer, unlessFaulty_of_off hoff, hpeer, hcheck, register, h.registry_eq, hinsert,
    Roster.start, haddress, hlength]
  exact ⟨_, _, rfl⟩

end Adding

end Marches

end Engine
end Peering