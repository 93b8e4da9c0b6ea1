import Peering.CommandLine.Run
import Peering.Proofs.Halting
import Peering.Proofs.Seeding

/-!
# The end of every simulation

A simulation adds its peers, polls until all sessions are established or the time is up, shows the
running configuration and closes its engine. This file shows that it comes to its end, what it
shows there, and when it succeeds: its sessions are established after five delays, and this has to
be before the first poll at or after the deadline.
-/

namespace Peering

namespace Timed

variable {settings : Settings} {ms : List Member} {s : Timed} {k : Nat} {ts : List (Timer Party)}

/-- A poll changes nothing but what is known of the sessions, and does not fail. -/
theorem Rests.poll (h : s.Rests settings ms k ts) :
    ∃ t events, s.poll = (t, .ok events) ∧ t.Rests settings ms k ts ∧ t.time = s.time := by
  have hclock : s.clock = Simulation.now := by rw [clock, h.simulates.clockAt_eq]
  obtain ⟨⟨events, hresult⟩, hproper⟩ :=
    h.simulates.marches.poll_ok h.simulates.isProper h.simulates.onEvent_eq
  rw [← hclock] at hresult hproper
  refine ⟨{ s with toStation := (s.toStation.poll s.clock).1 }, events, ?_, ?_, rfl⟩
  · exact congrArg (Prod.mk _) hresult
  · exact h.of_station ⟨h.simulates.marches, h.simulates.stateDelay_eq, h.simulates.routerAsn_eq,
      h.simulates.observers_eq, h.simulates.onEvent_eq, h.simulates.clockAt_eq,
      h.simulates.loops_eq, hproper⟩

/-- All sessions are established if there are none, or if the walks have had their last turns. -/
theorem Rests.established_iff (h : s.Rests settings ms k ts) :
    s.engine.establishedCount = s.engine.peerCount ↔ ms = [] ∨ k = 6 := by
  rw [h.simulates.marches.establishedCount_eq, h.simulates.marches.peerCount_eq, List.length_map,
    List.countP_map]
  by_cases hk : k = 6
  · simp [hk, Member.after, Function.comp_def]
  · simp [hk, Member.after, Function.comp_def, eq_comm]

end Timed

namespace Simulation

open Timed

/-- Polls that come to their end: at the last one all sessions are established, or it is at or
after the deadline. Before each of the others the caller is woken up. -/
inductive Watches (interval deadline : Float) : Nat → Timed → Timed → Bool → Prop where
  | established {s t : Timed} {events : List Event} (hpoll : s.poll = (t, .ok events))
    (hall : t.engine.establishedCount = t.engine.peerCount) :
    Watches interval deadline 0 s
      (tell t .info ("All " ++ intText t.engine.peerCount ++ " sessions established")) true
  | expired {s t : Timed} {events : List Event} (hpoll : s.poll = (t, .ok events))
    (hleft : t.engine.establishedCount ≠ t.engine.peerCount) (hlate : deadline ≤ t.time) :
    Watches interval deadline 0 s
      (tell t .warning ("Timeout: " ++ intText t.engine.establishedCount ++ "/" ++
        intText t.engine.peerCount ++ " sessions established")) false
  | again {n : Nat} {s t u : Timed} {events : List Event} {success : Bool}
    (hpoll : s.poll = (t, .ok events))
    (hleft : t.engine.establishedCount ≠ t.engine.peerCount) (hearly : ¬deadline ≤ t.time)
    (hnext : ((t.delay .caller interval).drive callerIsNext).callerIsNext = true)
    (hrest : Watches interval deadline n (t.wait interval) u success) :
    Watches interval deadline (n + 1) s u success

/-- The timers of walks and polls are told apart, up to the last poll: waiting for a poll takes
time, and no walk wakes up when a poll is due. -/
structure TellsApart (delay interval deadline : Float) : Prop where
  /-- A period takes time. -/
  advances : ∀ j, ¬deadline ≤ instant interval j → instant interval j < instant interval (j + 1)
  /-- No walk wakes up when a poll is due. -/
  apart : ∀ j, ¬deadline ≤ instant interval j → ∀ k ≤ 5,
    Apart (instant delay k) (instant interval (j + 1)) ∨
      Apart (instant interval (j + 1)) (instant delay k)

/-- The first poll at or after the deadline has this number. -/
def IsLastPoll (interval deadline : Float) (last : Nat) : Prop :=
  deadline ≤ instant interval last ∧ ∀ j < last, ¬deadline ≤ instant interval j

variable {interval deadline delay : Float} {n m last : Nat} {s t : Timed} {success : Bool}
  {settings : Settings} {ms : List Member} {k : Nat}

/-- Polls that come to their end are those of the simulation. -/
theorem Watches.watch_eq (h : Watches interval deadline n s t success) {w : Watch}
    (hinterval : w.interval = some interval) (hn : n < m) :
    watch w deadline m s = .ok (t, success) := by
  obtain ⟨m, rfl⟩ : ∃ m', m = m' + 1 := ⟨m - 1, by omega⟩
  induction h generalizing m with
  | established hpoll hall => simp only [watch, hpoll, hall, if_true]
  | expired hpoll hleft hlate => simp only [watch, hpoll, hleft, hlate, if_true, if_false]
  | again hpoll hleft hearly _ _ ih =>
    obtain ⟨m, rfl⟩ : ∃ m', m = m' + 1 := ⟨m - 1, by omega⟩
    rw [watch]
    simp only [hpoll, hleft, hearly, hinterval, if_false]
    exact ih m (by omega)

/-- There is a last poll, and not too many before it: there are only so many readings of the
clock. -/
theorem TellsApart.exists_isLastPoll (h : TellsApart delay interval deadline) :
    ∃ last < 2 ^ 64, IsLastPoll interval deadline last := by
  obtain ⟨j, hj, hstill⟩ := Double.exists_not_lt_succ (instant interval)
  have hlate : ∃ j, deadline ≤ instant interval j :=
    ⟨j, by_contra fun hearly => hstill (h.advances j hearly)⟩
  exact ⟨Nat.find hlate,
    lt_of_le_of_lt (Nat.find_min' hlate (by_contra fun hearly => hstill (h.advances j hearly))) hj,
    Nat.find_spec hlate, fun i hi => Nat.find_min hlate hi⟩

/-- A poll that finds all sessions established is the last one. -/
theorem watches_of_established (h : s.Rests settings ms k []) (hall : ms = [] ∨ k = 6) :
    ∃ t, Watches interval deadline 0 s t true ∧ t.Rests settings ms k [] := by
  obtain ⟨t, events, hpoll, hrests, _⟩ := h.poll
  exact ⟨_, .established hpoll (hrests.established_iff.mpr hall), hrests.record _⟩

/-- Before the last poll the caller waits for the next one. Then the walks have had their last turns
if five delays are over. -/
private theorem exists_next_poll (h : s.Rests settings ms k []) (hms : ms ≠ [])
    (hdelay : 0.0 ≤ settings.delay) (hinterval : 0.0 < interval)
    (hclock : TellsApart settings.delay interval deadline) {j : Nat}
    (hearly : ¬deadline ≤ instant interval j) (htime : s.time = instant interval j)
    (hleft : k ≠ 6) :
    ((s.delay .caller interval).drive callerIsNext).callerIsNext = true ∧
      ∃ k', (s.wait interval).Rests settings ms k' [] ∧
        (s.wait interval).time = instant interval (j + 1) ∧
        (k' = 6 ↔ instant settings.delay 5 < (s.wait interval).time) := by
  have hnext : s.time + interval = instant interval (j + 1) := by
    rw [htime]
    rfl
  obtain ⟨hcaller, k', hfinds⟩ := h.wait hdelay hms hinterval
    (by rw [hnext, htime]; exact hclock.advances j hearly) (fun h => absurd h hleft)
    (by rw [hnext]; exact hclock.apart j hearly)
    (by rw [htime]; exact zero_le_instant (Double.le_of_lt hinterval) j)
  rw [hnext] at hfinds
  refine ⟨hcaller, k', hfinds.rests, hfinds.time_eq, ?_⟩
  rw [hfinds.time_eq]
  refine ⟨hfinds.before, fun hlt => by_contra fun hne => ?_⟩
  have hfive : k' ≤ 5 := by
    have hsix := hfinds.rests.stands.le_six
    omega
  exact Double.not_le_of_lt (Double.lt_trans hlt (hfinds.after hfive)) (instant_le hdelay hfive)

/-- The polls of a simulation with members come to their end. They succeed if the last turns of the
walks are before the last poll. -/
theorem watches_of_rests (h : s.Rests settings ms k []) (hms : ms ≠ [])
    (hdelay : 0.0 ≤ settings.delay) (hinterval : 0.0 < interval)
    (hclock : TellsApart settings.delay interval deadline)
    (hlast : IsLastPoll interval deadline last) {j r : Nat} (hj : j + r = last)
    (htime : s.time = instant interval j) (hk : k = 6 ↔ instant settings.delay 5 < s.time) :
    ∃ n ≤ r, ∃ t success k', Watches interval deadline n s t success ∧
      t.Rests settings ms k' [] ∧
      (success = true ↔ instant settings.delay 5 < instant interval last) := by
  -- by induction on the polls before the last one, at each of which the walks may be over
  induction r generalizing s k j with
  | zero =>
    obtain rfl : j = last := hj
    by_cases hover : k = 6
    · obtain ⟨t, hwatches, hrests⟩ := watches_of_established h (.inr hover)
      exact ⟨0, le_rfl, t, true, k, hwatches, hrests, iff_of_true rfl (htime ▸ hk.mp hover)⟩
    · obtain ⟨t, events, hpoll, hrests, hsame⟩ := h.poll
      have hleft : ¬(ms = [] ∨ k = 6) := not_or_intro hms hover
      have hlate : deadline ≤ t.time := by
        rw [hsame, htime]
        exact hlast.1
      exact ⟨0, le_rfl, _, false, k, .expired hpoll (mt hrests.established_iff.mp hleft) hlate,
        hrests.record _, iff_of_false Bool.false_ne_true (htime ▸ mt hk.mpr hover)⟩
  | succ r ih =>
    by_cases hover : k = 6
    · obtain ⟨t, hwatches, hrests⟩ := watches_of_established h (.inr hover)
      have hle := instant_le (Double.le_of_lt hinterval) (i := j) (j := last) (by omega)
      exact ⟨0, Nat.zero_le _, t, true, k, hwatches, hrests,
        iff_of_true rfl (Double.lt_of_lt_of_le (htime ▸ hk.mp hover) hle)⟩
    · obtain ⟨t, events, hpoll, hrests, hsame⟩ := h.poll
      have hleft : ¬(ms = [] ∨ k = 6) := not_or_intro hms hover
      have hearly : ¬deadline ≤ instant interval j := hlast.2 j (by omega)
      have hnow : t.time = instant interval j := hsame.trans htime
      obtain ⟨hcaller, k', hrests', htime', hk'⟩ :=
        exists_next_poll hrests hms hdelay hinterval hclock hearly hnow hover
      obtain ⟨n, hn, u, success, k'', hwatches, hrests'', hsuccess⟩ :=
        ih hrests' (by omega : j + 1 + r = last) htime' hk'
      exact ⟨n + 1, Nat.succ_le_succ hn, u, success, k'', .again hpoll
        (mt hrests.established_iff.mp hleft) (hnow ▸ hearly) hcaller hwatches, hrests'', hsuccess⟩

section Closing

open RunningConfig

/-- The times at which peers were added are not shown. -/
theorem render_created (peers : List Peer) (now : Float) (routerAsn : Value) :
    render (peers.map (Registry.created · now)) routerAsn =
      render (peers.map Registry.kept) routerAsn := by
  have hlines : neighborLines ∘ (Registry.created · now) = neighborLines ∘ Registry.kept := rfl
  have hblocks : (peers.map (Registry.created · now)).mapM neighborLines =
      (peers.map Registry.kept).mapM neighborLines := by
    rw [List.mapM_map, List.mapM_map, hlines]
  rw [render, render, stanza, stanza, hblocks, List.isEmpty_map, List.isEmpty_map]

/-- The closing shows the members and closes the engine, if they can be shown. -/
theorem closing_eq (h : s.Rests settings ms k []) :
    ∃ t : Timed, t.Rests settings ms k [] ∧ closing s =
      (render (ms.map Member.peer) settings.routerAsn).map fun text => (t.close, text) := by
  obtain ⟨figures, hfigures⟩ := h.simulates.marches.exists_statistics
  have hpeers : s.engine.registry.peers = ms.map Member.peer := by
    rw [h.simulates.marches.peers_eq, List.map_map]
    rfl
  refine ⟨tell { s with toStation := s.toStation.record s.engine.getAllPeers.1 } .info
    ("Statistics: " ++ (Value.mapping figures.toMapping).exact), (h.record _).record _, ?_⟩
  have hfigures' : (s.toStation.record s.engine.getAllPeers.1).engine.statistics = .ok figures :=
    hfigures
  simp only [closing, Engine.runningConfig, hpeers, h.simulates.routerAsn_eq, hfigures']
  cases render (ms.map Member.peer) settings.routerAsn with
  | ok text => rfl
  | error f => rfl

end Closing

/-- What the engine keeps of the peers of settings, and nothing while faults are injected. -/
def keptPeers (settings : Settings) : List Peer :=
  if settings.errorInjection.isTruthy then [] else settings.peers.map Registry.kept

/-- A simulation comes to its end: its peers are added, there is a last poll, and if the running
configuration can be shown, the engine is closed. -/
inductive Ends (settings : Settings) (timeout interval : Float) : Prop where
  | intro {e : Engine} {s t : Timed} {added established : Bool} {n : Nat}
    (hengine : engineOf settings = .ok e)
    (hadds : addPeers (opening settings e) settings.peers = .ok (s, added))
    (hwatches : Watches interval (s.time + timeout) n s t established)
    (hcloses : ∀ u text, closing t = .ok (u, text) → ∃ v : Timed, v.Closes ∧ u = v.close)

/-- How a simulation ends, given when it succeeds. -/
structure Concludes (settings : Settings) (timeout interval : Float) (success : Prop) : Prop where
  /-- It comes to its end. -/
  ends : Ends settings timeout interval
  /-- It shows what the engine keeps of the peers, in their order, and tells whether it has
  succeeded. If these peers cannot be shown, it fails for the same reason. -/
  shows : ∃ succeeded log, (succeeded = true ↔ success) ∧
    run settings ⟨some timeout, some interval⟩ =
      (RunningConfig.render (keptPeers settings) settings.routerAsn).map fun config =>
        { succeeded, config, log }
  /-- What it shows is printed by the command, which returns 0 if it has succeeded and 1
  otherwise. -/
  prints : ∀ report, run settings ⟨some timeout, some interval⟩ = .ok report → ∀ file,
    RunningConfig.render (keptPeers settings) settings.routerAsn =
        .ok (CommandLine.outputOf settings file report).standard ∧
      ((CommandLine.outputOf settings file report).status = 0 ↔ success) ∧
      ((CommandLine.outputOf settings file report).status = 1 ↔ ¬success)
  /-- Peers without sets are kept as they are. -/
  keeps : settings.errorInjection.isTruthy = false →
    (∀ p ∈ settings.peers, p.isSetFree = true) → keptPeers settings = settings.peers

/-- The peers of a simulation have been added, or refused. -/
private structure Seeds (settings : Settings) (s : Timed) (added : Bool) (ms : List Member) :
    Prop where
  rests : s.Rests settings ms 0 []
  render_eq : RunningConfig.render (ms.map Member.peer) settings.routerAsn =
    RunningConfig.render (keptPeers settings) settings.routerAsn
  added_iff : added = true ↔ settings.peers = [] ∨ settings.errorInjection.isTruthy = false
  empty_iff : ms = [] ↔ settings.peers = [] ∨ settings.errorInjection.isTruthy = true

private theorem checkPeers_of_validate (hvalid : settings.validate = .ok ()) :
    ¬settings.delay < 0.0 ∧ Settings.checkPeers [] settings.peers = .ok () := by
  unfold Settings.validate at hvalid
  split_ifs at hvalid with hnegative hinjection hasn hlevel
  exact ⟨hnegative, hvalid⟩

private theorem exists_seeds (hvalid : settings.validate = .ok ())
    (hcopy : settings.errorInjection.isTruthy = false → ∀ p ∈ settings.peers, p.isCopyable = true) :
    ∃ e s added ms, engineOf settings = .ok e ∧
      addPeers (opening settings e) settings.peers = .ok (s, added) ∧
      Seeds settings s added ms := by
  obtain ⟨hdelay, hpeers⟩ := checkPeers_of_validate hvalid
  obtain ⟨e, hengine, hrests, hfaults⟩ := exists_opening hdelay
  refine ⟨e, ?_⟩
  cases hinjection : settings.errorInjection.isTruthy with
  | true =>
    obtain ⟨s, hadds, hrests'⟩ := hrests.addPeers_on (hfaults.trans hinjection) settings.peers
    refine ⟨s, _, [], hengine, hadds, hrests', ?_, ?_, ?_⟩
    · rw [keptPeers, hinjection]
      rfl
    · simp [hinjection]
    · simp [hinjection]
  | false =>
    obtain ⟨s, ms, hadds, hrests', hmembers⟩ := hrests.addPeers_off (hfaults.trans hinjection)
      (fun a => ⟨fun h => absurd h List.not_mem_nil, fun h => absurd h List.not_mem_nil⟩)
      hpeers (hcopy hinjection)
    refine ⟨s, true, ms, hengine, hadds, hrests', ?_, ?_, ?_⟩
    · rw [hmembers, keptPeers, hinjection, List.map_nil, List.nil_append,
        if_neg Bool.false_ne_true]
      exact render_created settings.peers now settings.routerAsn
    · simp [hinjection]
    · have hlength := congrArg List.length hmembers
      simp only [List.map_nil, List.nil_append, List.length_map] at hlength
      rw [← List.length_eq_zero_iff, hlength, List.length_eq_zero_iff]
      simp [hinjection]

/-- Once the peers have been added, there is a last poll, and all polls succeed if there are no
members or the last turns of the walks are before the last poll. -/
private theorem Seeds.exists_watches {added : Bool} (h : Seeds settings s added ms)
    (hdelay : 0.0 ≤ settings.delay) (hinterval : 0.0 < interval)
    (hclock : TellsApart settings.delay interval deadline)
    (hlast : IsLastPoll interval deadline last) :
    ∃ n ≤ last, ∃ t success k, Watches interval deadline n s t success ∧
      t.Rests settings ms k [] ∧
      (success = true ↔ ms = [] ∨ instant settings.delay 5 < instant interval last) := by
  by_cases hms : ms = []
  · obtain ⟨t, hwatches, hrests⟩ := watches_of_established h.rests (.inl hms)
    exact ⟨0, Nat.zero_le last, t, true, 0, hwatches, hrests, iff_of_true rfl (.inl hms)⟩
  · have htime : s.time = instant interval 0 := h.rests.time_eq
    have hfirst : 0 = 6 ↔ instant settings.delay 5 < s.time := by
      rw [h.rests.time_eq]
      exact iff_of_false (by decide)
        fun hlt => Double.not_le_of_lt hlt (zero_le_instant hdelay 5)
    obtain ⟨n, hn, t, success, k, hwatches, hrests, hsuccess⟩ :=
      watches_of_rests h.rests hms hdelay hinterval hclock hlast (Nat.zero_add last) htime hfirst
    exact ⟨n, hn, t, success, k, hwatches, hrests, hsuccess.trans (or_iff_right hms).symm⟩

/-- What a simulation shows at its end is found by the closing. -/
private theorem run_eq {e : Engine} {added established : Bool} {timeout : Float}
    (hengine : engineOf settings = .ok e)
    (hadds : addPeers (opening settings e) settings.peers = .ok (s, added))
    (hwatch : watch ⟨some timeout, some interval⟩ (s.time + timeout) horizon s =
      .ok (t, established)) :
    run settings ⟨some timeout, some interval⟩ = (closing t).map fun r =>
      { succeeded := added && established
        config := r.2
        log := r.1.done.filterMap record? } := by
  unfold run
  simp only [hengine, Option.elim_some, bind, Except.bind, hadds, hwatch, pure, Except.pure]
  cases closing t <;> rfl

/-- The delay of valid settings is not below zero, if it is a number. -/
private theorem zero_le_delay (hvalid : settings.validate = .ok ())
    (hdelay : settings.delay.isNaN = false) : 0.0 ≤ settings.delay := by
  by_contra hle
  exact (checkPeers_of_validate hvalid).1 (Double.lt_of_not_le (by decide +kernel) hdelay hle)

variable {timeout : Float}

/-- Simulations come to their end, and show what the engine keeps of their peers. -/
theorem exists_run_eq (hvalid : settings.validate = .ok ())
    (hdelay : settings.delay.isNaN = false) (hinterval : 0.0 < interval)
    (hclock : TellsApart settings.delay interval (0.0 + timeout))
    (hcopy : settings.errorInjection.isTruthy = false → ∀ p ∈ settings.peers, p.isCopyable = true)
    (hfew : last < 2 ^ 64) (hlast : IsLastPoll interval (0.0 + timeout) last) :
    Ends settings timeout interval ∧ ∃ succeeded log,
      (succeeded = true ↔ settings.peers = [] ∨ settings.errorInjection.isTruthy = false ∧
        instant settings.delay 5 < instant interval last) ∧
      run settings ⟨some timeout, some interval⟩ =
        (RunningConfig.render (keptPeers settings) settings.routerAsn).map fun config =>
          { succeeded, config, log } := by
  obtain ⟨e, s, added, ms, hengine, hadds, hseeds⟩ := exists_seeds hvalid hcopy
  obtain ⟨n, hn, t, established, k, hwatches, hrests, hestablished⟩ :=
    hseeds.exists_watches (zero_le_delay hvalid hdelay) hinterval hclock hlast
  obtain ⟨u, hrests', hclosing⟩ := closing_eq hrests
  rw [hseeds.render_eq] at hclosing
  rw [← hseeds.rests.time_eq] at hwatches
  have hmoves : n < horizon := lt_of_le_of_lt hn (lt_of_lt_of_le hfew (by decide))
  have hrun := run_eq hengine hadds (hwatches.watch_eq rfl hmoves)
  rw [hclosing] at hrun
  constructor
  · refine .intro hengine hadds hwatches fun v text hv => ⟨u, hrests'.closes, ?_⟩
    rw [hclosing] at hv
    cases hrender : RunningConfig.render (keptPeers settings) settings.routerAsn with
    | ok _ =>
      rw [hrender] at hv
      exact (congrArg Prod.fst (Except.ok.inj hv)).symm
    | error _ =>
      rw [hrender] at hv
      cases hv
  · refine ⟨added && established, u.close.done.filterMap record?, ?_, hrun.trans ?_⟩
    · rw [Bool.and_eq_true, hseeds.added_iff, hestablished, hseeds.empty_iff]
      cases settings.errorInjection.isTruthy <;> simp
    · cases RunningConfig.render (keptPeers settings) settings.routerAsn <;> rfl

/-- Every simulation with valid settings comes to its end, if its peers can be copied and its clock
tells its timers apart. It shows its peers whatever the times are. It succeeds if there are none, or
if faults are not injected and five delays are over before the last poll. -/
theorem concludes (hvalid : settings.validate = .ok ())
    (hdelay : settings.delay.isNaN = false) (hinterval : 0.0 < interval)
    (hclock : TellsApart settings.delay interval (0.0 + timeout))
    (hcopy : settings.errorInjection.isTruthy = false →
      ∀ p ∈ settings.peers, p.isCopyable = true) :
    ∃ last, IsLastPoll interval (0.0 + timeout) last ∧
      Concludes settings timeout interval (settings.peers = [] ∨
        settings.errorInjection.isTruthy = false ∧
          instant settings.delay 5 < instant interval last) := by
  obtain ⟨last, hfew, hlast⟩ := hclock.exists_isLastPoll
  obtain ⟨hends, succeeded, log, hsuccess, hrun⟩ :=
    exists_run_eq hvalid hdelay hinterval hclock hcopy hfew hlast
  refine ⟨last, hlast, ?_⟩
  constructor
  case ends => exact hends
  case shows => exact ⟨succeeded, log, hsuccess, hrun⟩
  case prints =>
    intro report hreport file
    rw [hreport] at hrun
    rw [← hsuccess]
    cases hrender : RunningConfig.render (keptPeers settings) settings.routerAsn with
    | error f =>
      rw [hrender] at hrun
      cases hrun
    | ok text =>
      rw [hrender] at hrun
      obtain rfl := Except.ok.inj hrun
      cases succeeded <;> simp [CommandLine.outputOf]
  case keeps =>
    intro hoff hfree
    rw [keptPeers, hoff, if_neg Bool.false_ne_true]
    exact (List.map_congr_left fun p hp => Registry.kept_eq (hfree p hp)).trans (List.map_id _)

/-- A simulation fails if one of its peers cannot be copied, unless faults are injected. -/
theorem run_of_deep (hvalid : settings.validate = .ok ())
    (hoff : settings.errorInjection.isTruthy = false)
    (hdeep : ∃ p ∈ settings.peers, p.isCopyable = false) (w : Watch) :
    run settings w = .error .tooDeep := by
  obtain ⟨hdelay, hpeers⟩ := checkPeers_of_validate hvalid
  obtain ⟨e, hengine, hrests, hfaults⟩ := exists_opening hdelay
  have hadds := hrests.addPeers_deep (hfaults.trans hoff)
    (fun a => ⟨fun h => absurd h List.not_mem_nil, fun h => absurd h List.not_mem_nil⟩) hpeers hdeep
  unfold run
  simp only [hengine, bind, Except.bind, hadds]

/-- Settings with these peers, for walks with a delay of one second. -/
def pacedSettings (peers : List Peer) : Settings where
  delay := 1.0
  peers

/-- Polls every 0.7 seconds, for five seconds, are told apart from walks with a delay of one
second. -/
theorem tellsApart_paced : TellsApart 1.0 0.7 (0.0 + 5.0) := by
  have hfew {j : Nat} (hearly : ¬(0.0 + 5.0 : Float) ≤ instant 0.7 j) : j < 8 := by
    by_contra hle
    have hlate : (0.0 + 5.0 : Float) ≤ instant 0.7 8 := by decide +kernel
    exact hearly (Double.le_trans hlate (instant_le (by decide +kernel) (Nat.le_of_not_lt hle)))
  constructor
  case advances =>
    have hall : ∀ j < 8, instant 0.7 j < instant 0.7 (j + 1) := by decide +kernel
    exact fun j hearly => hall j (hfew hearly)
  case apart =>
    have hall : ∀ j < 8, ∀ k ≤ 5, Apart (instant 1.0 k) (instant 0.7 (j + 1)) ∨
        Apart (instant 0.7 (j + 1)) (instant 1.0 k) := by decide +kernel
    exact fun j hearly => hall j (hfew hearly)

private theorem exists_of_isSome {ε α : Type} {x : Except ε α} (h : x.toOption.isSome = true) :
    ∃ a, x = .ok a := by
  obtain ⟨a, ha⟩ := Option.isSome_iff_exists.mp h
  exact ⟨a, eq_ok_of_toOption ha⟩

/-- Two peers, one of them with a password. -/
def twoPeers : List Peer := [
  { address := .text "192.0.2.2", localAsn := .int 65001, remoteAsn := .int 65002 },
  { address := .text "192.0.2.3", localAsn := .int 65001, remoteAsn := .int 65003,
    password := .text "secret" }]

/-- The text that shows the two peers. -/
def twoPeersText : String := "!
! neighborsim running configuration
!
frr version 8.0
frr defaults traditional
!
router bgp 65000
 neighbor 192.0.2.2 remote-as 65002
 neighbor 192.0.2.3 remote-as 65003
 neighbor 192.0.2.3 password secret
!
line vty
!
end
"

/-- A simulation of two peers succeeds although five delays are over only at the deadline: the last
poll is later. -/
theorem concludes_twoPeers :
    (pacedSettings twoPeers).validate = .ok () ∧ TellsApart 1.0 0.7 (0.0 + 5.0) ∧
      (∀ p ∈ twoPeers, p.isCopyable = true) ∧ instant 1.0 5 = 0.0 + 5.0 ∧
      ∃ report, run (pacedSettings twoPeers) ⟨some 5.0, some 0.7⟩ = .ok report ∧
        report.succeeded = true ∧ report.config = twoPeersText := by
  have hvalid : (pacedSettings twoPeers).validate = .ok () := eq_ok_of_toOption (by decide +kernel)
  have hcopy : ∀ p ∈ twoPeers, p.isCopyable = true := List.all_eq_true.mp (by decide +kernel)
  have hfree : ∀ p ∈ twoPeers, p.isSetFree = true := List.all_eq_true.mp (by decide +kernel)
  refine ⟨hvalid, tellsApart_paced, hcopy, by decide +kernel, ?_⟩
  obtain ⟨last, hlast, hconcludes⟩ :=
    concludes hvalid (by decide +kernel) (by decide +kernel) tellsApart_paced fun _ => hcopy
  obtain ⟨succeeded, log, hsucceeds, hrun⟩ := hconcludes.shows
  have hrender : RunningConfig.render twoPeers (pacedSettings twoPeers).routerAsn =
    .ok twoPeersText := eq_ok_of_toOption (by decide +kernel)
  rw [hconcludes.keeps rfl hfree] at hrun
  refine ⟨_, hrun.trans (congrArg _ hrender), hsucceeds.mpr (.inr ⟨rfl, ?_⟩), rfl⟩
  have hearly : ∀ j < 8, ¬(0.0 + 5.0 : Float) ≤ instant 0.7 j := by decide +kernel
  have hle : 8 ≤ last := by
    by_contra hlt
    exact hearly last (by omega) hlast.1
  have hfive : instant 1.0 5 < instant 0.7 8 := by decide +kernel
  exact Double.lt_of_lt_of_le hfive (instant_le (by decide +kernel) hle)

/-- A peer with a set for a password. -/
def setPeer : Peer where
  address := .text "192.0.2.2"
  localAsn := .int 65001
  remoteAsn := .int 65002
  password := .set (setOrder [.int 1, .int 2, .int 3, .int 4, .int 16])

/-- Not every simulation shows the peers of its settings: it fails if one of them cannot be copied,
and the members of sets are shown in the order of their copies. -/
theorem not_shown_as_configured :
    TellsApart 1.0 0.7 (0.0 + 5.0) ∧
      (∃ text, (pacedSettings [Engine.deepPeer]).validate = .ok () ∧
        RunningConfig.render [Engine.deepPeer] RunningConfig.usualRouterAsn = .ok text ∧
        run (pacedSettings [Engine.deepPeer]) ⟨some 5.0, some 0.7⟩ = .error .tooDeep) ∧
      ∃ text report, (pacedSettings [setPeer]).validate = .ok () ∧
        RunningConfig.render [setPeer] RunningConfig.usualRouterAsn = .ok text ∧
        run (pacedSettings [setPeer]) ⟨some 5.0, some 0.7⟩ = .ok report ∧ report.config ≠ text := by
  refine ⟨tellsApart_paced, ?_, ?_⟩
  · have hvalid : (pacedSettings [Engine.deepPeer]).validate = .ok () :=
      eq_ok_of_toOption (by decide +kernel)
    obtain ⟨text, htext⟩ := exists_of_isSome
      (x := RunningConfig.render [Engine.deepPeer] RunningConfig.usualRouterAsn) (by decide +kernel)
    exact ⟨text, hvalid, htext,
      run_of_deep hvalid rfl ⟨_, List.mem_singleton_self _, by decide +kernel⟩ _⟩
  · have hvalid : (pacedSettings [setPeer]).validate = .ok () :=
      eq_ok_of_toOption (by decide +kernel)
    have hcopy : ∀ p ∈ [setPeer], p.isCopyable = true := List.all_eq_true.mp (by decide +kernel)
    obtain ⟨last, hfew, hlast⟩ := tellsApart_paced.exists_isLastPoll
    obtain ⟨_, succeeded, log, _, hrun⟩ := exists_run_eq hvalid (by decide +kernel)
      (by decide +kernel) tellsApart_paced (fun _ => hcopy) hfew hlast
    obtain ⟨text, htext⟩ := exists_of_isSome
      (x := RunningConfig.render [setPeer] RunningConfig.usualRouterAsn) (by decide +kernel)
    obtain ⟨config, hconfig⟩ := exists_of_isSome
      (x := RunningConfig.render [Registry.kept setPeer] RunningConfig.usualRouterAsn)
      (by decide +kernel)
    refine ⟨text, _, hvalid, htext, hrun.trans (congrArg _ hconfig), ?_⟩
    have hdiffer : RunningConfig.render [Registry.kept setPeer] RunningConfig.usualRouterAsn ≠
        RunningConfig.render [setPeer] RunningConfig.usualRouterAsn := by
      refine fun heq => absurd (congrArg Except.toOption heq) ?_
      decide +kernel
    rintro rfl
    exact hdiffer (hconfig.trans htext.symm)

end Simulation

end Peering
