import Peering.Proofs.ClockSums
import Peering.Proofs.Cohort
import Peering.Proofs.Rounds
import Mathlib.Data.Set.List

/-!
# Walks in step

In a simulation all walks are started at the same time and have the same delay, so they go in step:
they sleep for the same time, and then all of them have their turns before any of them has another
one. This file follows them while the caller waits for a time of its own, and tells how many turns
they have had when it is woken up.
-/

namespace Peering

open Timers

namespace Timed

/-- The time after so many periods, counted one by one. -/
def instant (period : Float) : Nat → Float
  | 0 => 0.0
  | n + 1 => instant period n + period

section Instants

variable {period : Float} {i j : Nat}

/-- The time after some periods is not before zero. -/
theorem zero_le_instant (hperiod : 0.0 ≤ period) (n : Nat) : 0.0 ≤ instant period n := by
  induction n with
  | zero => exact Double.le_refl (by decide +kernel)
  | succ n ih => exact Double.le_trans ih (Double.le_add ih hperiod)

/-- Later instants are not before earlier ones. -/
theorem instant_le (hperiod : 0.0 ≤ period) (hij : i ≤ j) :
    instant period i ≤ instant period j := by
  induction hij with
  | refl =>
    exact Double.le_refl (Double.le_iff_rank_le.mp (zero_le_instant hperiod i)).1.2
  | step _ ih => exact Double.le_trans ih (Double.le_add (zero_le_instant hperiod _) hperiod)

/-- The time after some periods is a number. -/
theorem instant_isNumber (hperiod : 0.0 ≤ period) (n : Nat) : (instant period n).isNaN = false :=
  (Double.le_iff_rank_le.mp (zero_le_instant hperiod n)).1.2

/-- With a period of zero the time does not go on. -/
theorem instant_eq_zero (hperiod : 0.0 ≤ period) (hzero : period ≤ 0.0) (n : Nat) :
    instant period n = 0.0 := by
  induction n with
  | zero => rfl
  | succ n ih => rw [instant, ih, Double.zero_add_of_zero hperiod hzero]

end Instants

/-- A simulation is under way with these members. -/
structure Simulates (settings : Settings) (ms : List Member) (s : Timed) : Prop where
  marches : s.engine.Marches ms
  stateDelay_eq : s.engine.stateDelay = settings.delay
  routerAsn_eq : s.engine.routerAsn = settings.routerAsn
  observers_eq : s.observers = {}
  onEvent_eq : s.onEvent = some fun _ => .returned
  clockAt_eq : s.clockAt = fun _ => Simulation.now
  loops_eq : s.loops = []
  isProper : s.monitor.sessions.IsProper

/-- The walks of so many members, as parties of the schedule. -/
def walkers (numbers : List Nat) : List Party := numbers.map Party.walk

variable {settings : Settings} {ms : List Member} {m : Member} {s t : Timed} {i k : Nat}
  {todo : List Nat} {joined : List Entry} {ts : List (Timer Party)} {q : Float}

/-- The schedule is no part of what is simulated. -/
theorem Simulates.of_eq (h : s.Simulates settings ms) (hstation : t.toStation = s.toStation)
    (hclock : t.clockAt = s.clockAt) (hloops : t.loops = s.loops) : t.Simulates settings ms := by
  constructor
  case marches => exact hstation ▸ h.marches
  case stateDelay_eq => exact hstation ▸ h.stateDelay_eq
  case routerAsn_eq => exact hstation ▸ h.routerAsn_eq
  case observers_eq => exact hstation ▸ h.observers_eq
  case onEvent_eq => exact hstation ▸ h.onEvent_eq
  case clockAt_eq => exact hclock.trans h.clockAt_eq
  case loops_eq => exact hloops.trans h.loops_eq
  case isProper => exact hstation ▸ h.isProper

/-- What walks that have had so many turns put into the queue at the next one: they fall asleep for
the delay unless they are over, and one that is not above zero costs them their place only. -/
def rejoining (delay : Float) (k : Nat) (todo : List Nat) : List Entry :=
  if k < 5 ∧ delay ≤ 0.0 then (walkers todo).map .turn else []

/-- The timers of walks that fall asleep for a delay above zero. -/
def sleeping (delay : Float) (k : Nat) (time : Float) (todo : List Nat) : List (Timer Party) :=
  if k < 5 ∧ ¬delay ≤ 0.0 then timersAt (time + delay) (walkers todo) else []

/-- The walks rejoin one after the other. -/
theorem rejoining_cons (delay : Float) (k i : Nat) (rest : List Nat) :
    rejoining delay k (i :: rest) = rejoining delay k [i] ++ rejoining delay k rest := by
  unfold rejoining
  split_ifs <;> rfl

/-- The walks fall asleep one after the other. -/
theorem sleeping_cons (delay : Float) (k : Nat) (time : Float) (i : Nat) (rest : List Nat) :
    sleeping delay k time (i :: rest) =
      sleeping delay k time [i] ++ sleeping delay k time rest := by
  unfold sleeping
  split_ifs <;> rfl

/-- The members are those after the turns of some walks, and nothing else of what is simulated has
changed. -/
theorem Simulates.walkTurn (h : s.Simulates settings ms) (hm : ms[i]? = some m)
    (hturns : m.turns ≤ 5) :
    ({ s with toStation := (s.toStation.walkTurn i s.clock).1 } : Timed).Simulates settings
        (ms.modify i .next) ∧
      (s.toStation.walkTurn i s.clock).2.findSome? Effect.delay? =
        if m.turns < 5 then some settings.delay else none := by
  obtain ⟨hmarches, hdelay, hasn, hasks⟩ := h.marches.walkTurn hm hturns
  have hclock : s.clock = Simulation.now := by rw [clock, h.clockAt_eq]
  rw [← h.observers_eq, ← hclock] at hmarches hdelay hasn hasks
  rw [h.stateDelay_eq] at hasks
  exact ⟨⟨hmarches, hdelay.trans h.stateDelay_eq, hasn.trans h.routerAsn_eq, h.observers_eq,
    h.onEvent_eq, h.clockAt_eq, h.loops_eq, h.isProper⟩, hasks⟩

/-- A turn of a walk takes its member on, and then the walk waits for the delay, unless it is
over. -/
theorem Simulates.run_walk (h : s.Simulates settings ms) (hm : ms[i]? = some m)
    (hturns : m.turns ≤ 5) (hkeeps : Keeps s.timers ts)
    (hnumber : (s.time + settings.delay).isNaN = false) :
    (s.run (.turn (.walk i))).Simulates settings (ms.modify i .next) ∧
      (s.run (.turn (.walk i))).time = s.time ∧ (s.run (.turn (.walk i))).left = s.left ∧
      (s.run (.turn (.walk i))).queue = s.queue ++ rejoining settings.delay m.turns [i] ∧
      Keeps (s.run (.turn (.walk i))).timers
        (sleeping settings.delay m.turns s.time [i] ++ ts) := by
  obtain ⟨hsimulates, hasks⟩ := h.walkTurn hm hturns
  have hrun : s.run (.turn (.walk i)) = if m.turns < 5 then
      ({ s with toStation := (s.toStation.walkTurn i s.clock).1 } : Timed).delay (.walk i)
        settings.delay
      else { s with toStation := (s.toStation.walkTurn i s.clock).1 } := by
    simp only [run, runWalk, hasks]
    by_cases hlt : m.turns < 5 <;> simp only [hlt, if_true, if_false]
  rw [hrun]
  unfold rejoining sleeping
  by_cases hlt : m.turns < 5
  · rw [if_pos hlt, delay]
    by_cases hzero : settings.delay ≤ 0.0
    · rw [if_pos hzero, if_pos ⟨hlt, hzero⟩, if_neg (not_and_not_right.mpr fun _ => hzero)]
      exact ⟨hsimulates.of_eq rfl rfl rfl, rfl, rfl, rfl, hkeeps⟩
    · rw [if_neg hzero, if_neg (not_and_of_not_right _ hzero), if_pos ⟨hlt, hzero⟩,
        List.append_nil]
      exact ⟨hsimulates.of_eq rfl rfl rfl, rfl, rfl, rfl, hkeeps.insert hnumber⟩
  · rw [if_neg hlt, if_neg (not_and_of_not_left _ hlt), if_neg (not_and_of_not_left _ hlt),
      List.append_nil]
    exact ⟨hsimulates, rfl, rfl, rfl, hkeeps⟩

/-- A round in which walks have their turns that have had the same number of them. -/
theorem Simulates.comes_round (h : s.Simulates settings ms) (htodo : todo.Nodup)
    (hms : ∀ i ∈ todo, ∃ m, ms[i]? = some m ∧ m.turns = k) (hk : k ≤ 5)
    (hqueue : s.queue = (walkers todo).map .turn ++ joined) (hleft : s.left = todo.length)
    (hkeeps : Keeps s.timers ts) (hnumber : (s.time + settings.delay).isNaN = false) :
    ∃ t, Comes callerIsNext todo.length s t ∧
      t.Simulates settings (Member.afterTurns ms todo) ∧ t.time = s.time ∧ t.left = 0 ∧
      t.queue = joined ++ rejoining settings.delay k todo ∧
      Keeps t.timers (sleeping settings.delay k s.time todo ++ ts) := by
  -- by induction on who is still to have a turn, while others have joined the queue behind them
  induction todo generalizing s ms joined ts with
  | nil =>
    refine ⟨s, .here s, h, rfl, hleft, ?_, ?_⟩
    · simpa [rejoining, walkers] using hqueue
    · simpa [sleeping, walkers, timersAt] using hkeeps
  | cons i rest ih =>
    obtain ⟨m, hm, rfl⟩ := hms i List.mem_cons_self
    obtain ⟨hi, hrest⟩ := List.nodup_cons.mp htodo
    have hfirst : s.queue = .turn (.walk i) :: ((walkers rest).map .turn ++ joined) := hqueue
    have hmove := move?_of_left hleft hfirst
    have hstop := callerIsNext_of_head hfirst (by simp)
    have h' : ({ s with queue := (walkers rest).map .turn ++ joined, left := rest.length } :
        Timed).Simulates settings ms := h.of_eq rfl rfl rfl
    obtain ⟨hsimulates, htime, hleft', hqueue', hkeeps'⟩ := h'.run_walk hm hk hkeeps hnumber
    change Timed.time _ = s.time at htime
    generalize Timed.run _ _ = s' at hmove hsimulates htime hleft' hqueue' hkeeps'
    have hms' : ∀ j ∈ rest, ∃ m', (ms.modify i Member.next)[j]? = some m' ∧ m'.turns = m.turns := by
      intro j hj
      obtain ⟨m', hm', hturns⟩ := hms j (List.mem_cons_of_mem i hj)
      have hij : i ≠ j := fun heq => hi (heq ▸ hj)
      exact ⟨m', by simp [hij, hm'], hturns⟩
    rw [List.append_assoc] at hqueue'
    obtain ⟨t, hcomes, hsimulates', htime', hleft'', hqueue'', hkeeps''⟩ :=
      ih hsimulates hrest hms' hqueue' hleft' hkeeps' (by rwa [htime])
    refine ⟨t, .move hstop hmove hcomes, hsimulates', htime'.trans htime, hleft'', ?_, ?_⟩
    · rw [hqueue'', rejoining_cons _ _ i rest, List.append_assoc]
    · rw [htime] at hkeeps''
      rw [sleeping_cons _ _ _ i rest]
      exact hkeeps''.congr (by simpa using List.perm_append_comm_assoc _ _ _)

/-- Where walks stand that have had so many turns, while nobody has a turn. There are other timers
besides theirs. -/
inductive Stands (delay : Float) (n k : Nat) (ts : List (Timer Party)) (s : Timed) : Prop where
  /-- They stand in the queue. -/
  | ready {order : List Nat} (hk : k ≤ 5) (htime : s.time = instant delay k)
    (horder : order.Perm (List.range n)) (hqueue : s.queue = (walkers order).map .turn)
    (hkeeps : Keeps s.timers ts)
  /-- They sleep until the same time. -/
  | asleep (hpos : 0 < k) (hk : k ≤ 5) (htime : s.time ≤ instant delay k) (hqueue : s.queue = [])
    (hkeeps : Keeps s.timers (timersAt (instant delay k) (walkers (List.range n)) ++ ts))
  /-- They are over. -/
  | ended (hk : k = 6) (hqueue : s.queue = []) (hkeeps : Keeps s.timers ts)

/-- The simulation rests between two rounds, and all walks have had so many turns. -/
structure Rests (settings : Settings) (ms : List Member) (k : Nat) (ts : List (Timer Party))
    (s : Timed) : Prop where
  simulates : s.Simulates settings (ms.map (.after k))
  left_eq : s.left = 0
  stands : s.Stands settings.delay ms.length k ts

/-- Walks in another order are the same walks. -/
theorem walkers_perm {order : List Nat} {n : Nat} (horder : order.Perm (List.range n)) :
    (walkers order).Perm (walkers (List.range n)) := horder.map _

/-- Walks that have turns in some order have them in an order of their numbers. -/
private theorem exists_numbers {order : List Party} {numbers : List Nat}
    (horder : order.Perm (walkers numbers)) :
    ∃ numbers', numbers'.Perm numbers ∧ order = walkers numbers' := by
  obtain ⟨numbers', rfl⟩ : order ∈ Set.range (List.map Party.walk) := by
    rw [Set.range_list_map]
    intro who hwho
    obtain ⟨i, _, rfl⟩ := List.mem_map.mp (horder.mem_iff.mp hwho)
    exact ⟨i, rfl⟩
  exact ⟨numbers', (List.map_perm_map_iff fun i j hij => Party.walk.inj hij).mp horder, rfl⟩

/-- After a round in which all walks have had a turn they stand where they belong. -/
private theorem rests_of_round {order : List Nat} (hdelay : 0.0 ≤ settings.delay)
    (horder : order.Perm (List.range ms.length)) (hk : k ≤ 5)
    (hsimulates : t.Simulates settings (Member.afterTurns (ms.map (.after k)) order))
    (htime : t.time = instant settings.delay k) (hleft : t.left = 0)
    (hqueue : t.queue = rejoining settings.delay k order)
    (hkeeps : Keeps t.timers
      (sleeping settings.delay k (instant settings.delay k) order ++ ts)) :
    t.Rests settings ms (k + 1) ts := by
  rw [Member.afterTurns_eq horder] at hsimulates
  refine ⟨hsimulates, hleft, ?_⟩
  unfold rejoining at hqueue
  unfold sleeping at hkeeps
  by_cases hlt : k < 5
  · by_cases hzero : settings.delay ≤ 0.0
    · rw [if_pos ⟨hlt, hzero⟩] at hqueue
      rw [if_neg fun h => h.2 hzero] at hkeeps
      refine .ready hlt ?_ horder hqueue hkeeps
      rw [htime, instant_eq_zero hdelay hzero, instant_eq_zero hdelay hzero]
    · rw [if_neg fun h => hzero h.2] at hqueue
      rw [if_pos ⟨hlt, hzero⟩] at hkeeps
      refine .asleep (Nat.succ_pos k) hlt ?_ hqueue (hkeeps.congr ?_)
      · rw [htime]
        exact instant_le hdelay (Nat.le_succ k)
      · exact ((walkers_perm horder).map _).append_right ts
  · rw [if_neg fun h => hlt h.1] at hqueue
    rw [if_neg fun h => hlt h.1] at hkeeps
    exact .ended (by omega) hqueue hkeeps

/-- The turns of all walks follow when they are the next ones. -/
private theorem comes_of_turns {order : List Nat} (hdelay : 0.0 ≤ settings.delay)
    (h : s.Simulates settings (ms.map (.after k))) (hk : k ≤ 5)
    (horder : order.Perm (List.range ms.length)) (htime : s.time = instant settings.delay k)
    (hqueue : s.queue = (walkers order).map .turn) (hleft : s.left = order.length)
    (hkeeps : Keeps s.timers ts) :
    ∃ t, Comes callerIsNext ms.length s t ∧ t.Rests settings ms (k + 1) ts ∧
      t.time = instant settings.delay k := by
  have hturns : ∀ i ∈ order, ∃ m, (ms.map (Member.after k))[i]? = some m ∧ m.turns = k := by
    intro i hi
    rw [horder.mem_iff, List.mem_range] at hi
    exact ⟨ms[i].after k, by simp [hi], rfl⟩
  have hnumber : (s.time + settings.delay).isNaN = false := by
    rw [htime]
    exact instant_isNumber hdelay (k + 1)
  rw [← List.append_nil ((walkers order).map _)] at hqueue
  obtain ⟨t, hcomes, hsimulates, htime', hleft', hqueue', hkeeps'⟩ :=
    h.comes_round (horder.nodup_iff.mpr List.nodup_range) hturns hk hqueue hleft hkeeps hnumber
  rw [htime] at htime' hkeeps'
  rw [horder.length_eq, List.length_range] at hcomes
  exact ⟨t, hcomes, rests_of_round hdelay horder hk hsimulates htime' hleft' hqueue' hkeeps',
    htime'⟩

/-- Unless they are over, all walks have another turn before those get theirs who wait for a later
time. -/
theorem Rests.comes_next (h : s.Rests settings ms k ts) (hdelay : 0.0 ≤ settings.delay)
    (hms : ms ≠ []) (hk : k ≤ 5) (howned : ∀ t ∈ ts, t.owner.isSome = true)
    (hts : ∀ t ∈ ts, Apart (instant settings.delay k) t.due) :
    ∃ n ≤ 2 * ms.length + 2, ∃ t, Comes callerIsNext n s t ∧ t.Rests settings ms (k + 1) ts ∧
      t.time = instant settings.delay k := by
  have hstop := callerIsNext_of_done h.left_eq
  have hlength {order : List Nat} (horder : order.Perm (List.range ms.length)) :
      order.length = ms.length := horder.length_eq.trans List.length_range
  have hpos : 0 < ms.length := List.length_pos_iff.mpr hms
  cases h.stands with
  | ready _ htime horder hqueue hkeeps =>
    have hne : s.queue ≠ [] := by
      rw [← List.length_pos_iff, hqueue, List.length_map, walkers, List.length_map,
        hlength horder]
      exact hpos
    obtain ⟨timers, hkeeps', hbegin⟩ :=
      begin_of_queue h.left_eq hne hkeeps howned (htime ▸ hts)
    obtain ⟨t, hcomes, hrests, htime'⟩ :=
      comes_of_turns (s := { s with timers, left := s.queue.length }) hdelay
        (h.simulates.of_eq rfl rfl rfl) hk horder htime hqueue (by simp [hqueue, walkers]) hkeeps'
    exact ⟨ms.length + 1, by omega, t, .move hstop hbegin hcomes, hrests, htime'⟩
  | asleep _ _ htime hqueue hkeeps =>
    have hne : walkers (List.range ms.length) ≠ [] := by simpa [walkers] using hms
    obtain ⟨timers, order, hkeeps', horder, hcomes⟩ :=
      comes_turns h.left_eq hqueue hkeeps hne htime howned hts
    obtain ⟨numbers, hnumbers, rfl⟩ := exists_numbers horder
    obtain ⟨t, hcomes', hrests, htime'⟩ :=
      comes_of_turns (s := { s with
        time := instant settings.delay k, timers, queue := (walkers numbers).map .turn
        left := (walkers numbers).length }) hdelay
        (h.simulates.of_eq rfl rfl rfl) hk hnumbers rfl rfl (List.length_map _) hkeeps'
    refine ⟨_, ?_, t, hcomes.trans hcomes', hrests, htime'⟩
    simp only [walkers, List.length_map, List.length_range]
    omega
  | ended hended => omega

/-- The caller is woken up at its time if all others wait for a later one. -/
private theorem comes_to_caller (hleft : s.left = 0) (hqueue : s.queue = [])
    (hkeeps : Keeps s.timers (ts ++ [⟨q, some .caller⟩])) (htime : s.time ≤ q)
    (howned : ∀ t ∈ ts, t.owner.isSome = true) (hts : ∀ t ∈ ts, Apart q t.due) :
    ∃ timers, Keeps timers ts ∧ Comes callerIsNext 3 s
      { s with time := q, timers, queue := [.turn .caller], left := 1 } := by
  have hfirst : Keeps s.timers (timersAt q [.caller] ++ ts) := hkeeps.congr List.perm_append_comm
  obtain ⟨timers, order, hkeeps', horder, hcomes⟩ :=
    comes_turns hleft hqueue hfirst (by simp) htime howned hts
  obtain rfl := List.perm_singleton.mp horder
  exact ⟨timers, hkeeps', hcomes⟩

/-- If no walk has a turn before, the caller gets its turn at its time, and the walks stay where
they are. -/
theorem Rests.comes_caller (h : s.Rests settings ms k [⟨q, some .caller⟩]) (hk : 0 < k)
    (htime : s.time ≤ q) (hapart : k ≤ 5 → Apart q (instant settings.delay k)) :
    ∃ t, Comes callerIsNext 3 s t ∧ t.callerIsNext = true ∧ t.time = q ∧
      ({ t with queue := t.queue.tail, left := t.left - 1 } : Timed).Rests settings ms k [] := by
  cases h.stands with
  | ready hle htime' =>
    exact absurd htime (Double.not_le_of_lt (htime' ▸ (hapart hle).1))
  | asleep _ hle htime' hqueue hkeeps =>
    have hlater : ∀ t ∈ timersAt (instant settings.delay k) (walkers (List.range ms.length)),
        t.owner.isSome = true ∧ Apart q t.due := by
      intro t ht
      obtain ⟨_, _, rfl⟩ := List.mem_map.mp ht
      exact ⟨rfl, hapart hle⟩
    obtain ⟨timers, hkeeps', hcomes⟩ := comes_to_caller h.left_eq hqueue hkeeps htime
      (fun t ht => (hlater t ht).1) fun t ht => (hlater t ht).2
    refine ⟨_, hcomes, rfl, rfl, h.simulates.of_eq rfl rfl rfl, rfl, ?_⟩
    exact .asleep hk hle (Double.le_of_lt (hapart hle).1) rfl (by simpa using hkeeps')
  | ended hended hqueue hkeeps =>
    obtain ⟨timers, hkeeps', hcomes⟩ := comes_to_caller h.left_eq hqueue
      (List.nil_append [_] ▸ hkeeps) htime (by simp) (by simp)
    exact ⟨_, hcomes, rfl, rfl, h.simulates.of_eq rfl rfl rfl, rfl, .ended hended rfl hkeeps'⟩

/-- What the caller finds at its time: the walks have had a turn at each of their instants before,
and no other one. -/
structure Finds (settings : Settings) (ms : List Member) (q : Float) (k : Nat) (t : Timed) :
    Prop where
  rests : t.Rests settings ms k []
  time_eq : t.time = q
  pos : 0 < k
  before : k = 6 → instant settings.delay 5 < q
  after : k ≤ 5 → q < instant settings.delay k

/-- While the caller waits for a time, the walks have their turns at the instants before it. -/
theorem Rests.comes_back {r : Nat} (hr : k + r = 6)
    (h : s.Rests settings ms k [⟨q, some .caller⟩]) (hdelay : 0.0 ≤ settings.delay)
    (hms : ms ≠ []) (htime : s.time ≤ q) (hbefore : k = 6 → instant settings.delay 5 < q)
    (hapart : ∀ j ≤ 5, Apart (instant settings.delay j) q ∨ Apart q (instant settings.delay j))
    (hfirst : 0.0 < q) :
    ∃ n ≤ r * (2 * ms.length + 2) + 3, ∃ t k', Comes callerIsNext n s t ∧
      t.callerIsNext = true ∧
      ({ t with queue := t.queue.tail, left := t.left - 1 } : Timed).Finds settings ms q k' := by
  -- by induction on the turns that are left: the caller is next, or another turn of all walks is
  induction r generalizing s k with
  | zero =>
    obtain rfl : k = 6 := hr
    obtain ⟨t, hcomes, hnext, htime', hrests⟩ :=
      h.comes_caller (by decide) htime fun hk => absurd hk (by decide)
    exact ⟨3, by omega, t, 6, hcomes, hnext, hrests, htime', by decide, hbefore,
      fun hk => absurd hk (by decide)⟩
  | succ r ih =>
    have hk : k ≤ 5 := by omega
    rcases hapart k hk with hwalks | hcaller
    · obtain ⟨n, hn, t, hcomes, hrests, htime'⟩ :=
        h.comes_next hdelay hms hk (by simp) (by simpa using hwalks)
      have hlast : k + 1 = 6 → instant settings.delay 5 < q := fun hlast => by
        obtain rfl : k = 5 := by omega
        exact hwalks.1
      obtain ⟨n', hn', u, k', hcomes', hfinds⟩ :=
        ih (by omega) hrests (htime' ▸ Double.le_of_lt hwalks.1) hlast
      refine ⟨n + n', ?_, u, k', hcomes.trans hcomes', hfinds⟩
      rw [Nat.succ_mul]
      omega
    · have hpos : 0 < k := by
        refine Nat.pos_of_ne_zero fun hzero => ?_
        rw [hzero] at hcaller
        exact Double.not_le_of_lt hcaller.1 (Double.le_of_lt hfirst)
      obtain ⟨t, hcomes, hnext, htime', hrests⟩ := h.comes_caller hpos htime fun _ => hcaller
      exact ⟨3, by omega, t, k, hcomes, hnext, hrests, htime', hpos, by omega,
        fun _ => hcaller.1⟩

/-- A walk has six turns at most. -/
theorem Stands.le_six {delay : Float} {n : Nat} (h : s.Stands delay n k ts) : k ≤ 6 := by
  cases h with
  | ready hk | asleep _ hk => exact Nat.le_succ_of_le hk
  | ended hk => exact hk.le

/-- Another timer does not concern the walks. -/
theorem Stands.insert {delay : Float} {n : Nat} (h : s.Stands delay n k []) {t : Timer Party}
    (ht : t.due.isNaN = false) :
    ({ s with timers := s.timers.insert t } : Timed).Stands delay n k [t] := by
  cases h with
  | ready hk htime horder hqueue hkeeps =>
    exact .ready hk htime horder hqueue (hkeeps.insert ht)
  | asleep hpos hk htime hqueue hkeeps =>
    rw [List.append_nil] at hkeeps
    exact .asleep hpos hk htime hqueue
      ((hkeeps.insert ht).congr (List.perm_append_singleton t _).symm)
  | ended hk hqueue hkeeps => exact .ended hk hqueue (hkeeps.insert ht)

/-- The parties are the walks of the members and the caller. -/
theorem Simulates.parties_eq (h : s.Simulates settings ms) : s.parties = ms.length + 1 := by
  rw [parties, h.marches.walks_eq, h.loops_eq, List.length_map]
  rfl

/-- The caller waits for a while and gets its turn again. -/
theorem Rests.wait {period : Float} (h : s.Rests settings ms k []) (hdelay : 0.0 ≤ settings.delay)
    (hms : ms ≠ []) (hperiod : 0.0 < period) (hlater : s.time < s.time + period)
    (hbefore : k = 6 → instant settings.delay 5 < s.time)
    (hapart : ∀ j ≤ 5, Apart (instant settings.delay j) (s.time + period) ∨
      Apart (s.time + period) (instant settings.delay j)) (hstart : 0.0 ≤ s.time) :
    ((s.delay .caller period).drive callerIsNext).callerIsNext = true ∧
      ∃ k', (s.wait period).Finds settings ms (s.time + period) k' := by
  have hdelayed : s.delay .caller period =
      { s with timers := s.timers.insert ⟨s.time + period, some .caller⟩ } :=
    if_neg (Double.not_le_of_lt hperiod)
  have hrests : (s.delay .caller period).Rests settings ms k
      [⟨s.time + period, some .caller⟩] := by
    rw [hdelayed]
    exact ⟨h.simulates.of_eq rfl rfl rfl, h.left_eq,
      h.stands.insert (Double.isNumber_of_lt hlater).2⟩
  have htime : (s.delay .caller period).time ≤ s.time + period := by
    rw [hdelayed]
    exact Double.le_of_lt hlater
  have hle := h.stands.le_six
  obtain ⟨n, hn, t, k', hcomes, hnext, hfinds⟩ :=
    hrests.comes_back (r := 6 - k) (by omega) hdelay hms htime
      (fun hk => Double.lt_trans (hbefore hk) hlater) hapart (Double.lt_of_le_of_lt hstart hlater)
  have hmoves : n ≤ horizon * (s.delay .caller period).parties := by
    rw [hrests.simulates.parties_eq, List.length_map]
    have hfew : (6 - k) * (2 * ms.length + 2) ≤ 6 * (2 * ms.length + 2) :=
      Nat.mul_le_mul_right _ (Nat.sub_le 6 k)
    have hmany : 16 * (ms.length + 1) ≤ horizon * (ms.length + 1) :=
      Nat.mul_le_mul_right _ (by decide)
    omega
  have hdrive := hcomes.drive_eq hnext hmoves
  refine ⟨hdrive ▸ hnext, k', ?_⟩
  rw [Timed.wait, resume, hdrive]
  exact hfinds

end Timed

end Peering
