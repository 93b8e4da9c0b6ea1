import Peering.Proofs.Attendance
import Peering.Proofs.ClockOrder
import Peering.Proofs.Traces
import Mathlib.Data.List.Infix

/-!
# The times in histories

A history tells when each state was entered. The first time is what the clock showed when the peer
was registered, and each later one is what it showed when the walk woke up, unless the clock had
not moved on since the entry before: then the entry gets a time just after that one. So the times of
a session increase strictly, whatever the clock does.
-/

namespace Peering

open Registration

/-- The time of an entry if the last one was made at a time and the clock shows another. -/
def stamp (last now : Float) : Float := if last < now then now else last + Session.timeStep

namespace Session

/-- The times at which the session has entered its states, oldest first. -/
def times (s : Session) : List Float := s.history.map Prod.snd

/-- Between numbers the time of the next entry is the stamp after the last one. -/
theorem entryTime_eq_stamp {s : Session} {now : Float} (hlast : s.changedAt.isNaN = false)
    (hnow : now.isNaN = false) : s.entryTime now = stamp s.changedAt now := by
  unfold entryTime stamp
  by_cases hle : now ≤ s.changedAt
  · rw [if_pos hle, if_neg fun hlt => Double.not_le_of_lt hlt hle]
  · rw [if_neg hle, if_pos (Double.lt_of_not_le hnow hlast hle)]

/-- The state of a session was entered at the last of its times. -/
theorem OnCourse.getLast?_times {s : Session} {createdAt : Value} (h : s.OnCourse createdAt) :
    s.times.getLast? = some s.changedAt := by
  rw [times, List.getLast?_map, h.last]
  rfl

/-- A session on the same course has the same times. -/
theorem SameCourse.times_eq {s s' : Session} (h : s'.SameCourse s) : s'.times = s.times :=
  congrArg (List.map Prod.snd) h.history_eq

end Session

section Stamps

variable {t : Float}

/-- What is stamped after a time is later. -/
theorem lt_stamp (ht : t < t + Session.timeStep) (now : Float) : t < stamp t now := by
  unfold stamp
  split
  · assumption
  · exact ht

/-- The next reading adds the stamp after the last of those so far. -/
theorem scanl_stamp_concat {last : Float} {readings : List Float}
    (hlast : (List.scanl stamp t readings).getLast? = some last) (now : Float) :
    List.scanl stamp t (readings ++ [now]) = List.scanl stamp t readings ++ [stamp last now] := by
  rw [List.getLast?_scanl] at hlast
  obtain rfl := Option.some.inj hlast
  rw [List.scanl_append]
  rfl

/-- Stamps increase, if what is added to each of them makes it later. -/
theorem pairwise_scanl_stamp {readings : List Float}
    (hsteps : ∀ s ∈ List.scanl stamp t readings, s < s + Session.timeStep) :
    (List.scanl stamp t readings).Pairwise (· < ·) := by
  induction readings generalizing t with
  | nil => simp
  | cons now readings ih =>
    rw [List.scanl_cons] at hsteps ⊢
    have hrest := ih fun s hs => hsteps s (List.mem_cons_of_mem _ hs)
    have hfirst := lt_stamp (hsteps t List.mem_cons_self) now
    rw [← List.isChain_iff_pairwise] at hrest ⊢
    refine List.isChain_cons.mpr ⟨fun s hs => ?_, hrest⟩
    rw [List.head?_scanl] at hs
    obtain rfl := Option.some.inj hs
    exact hfirst

end Stamps

namespace Engine

/-- The times at which the sessions of the engine have entered their states. -/
def entryTimes (e : Engine) : List Float := e.registry.sessionOf.values.flatMap Session.times

/-- In a run the clock shows numbers, and every time that a session enters a state at is made later
by what is added to come just after it. -/
structure TellsTime (new : Engine) (ms : List Moment) : Prop where
  isNumber : ∀ m ∈ ms, m.now.isNaN = false
  lt_next : ∀ before, before <+: ms → ∀ t ∈ (new.run before).entryTimes, t < t + Session.timeStep

/-- What the clock shows when the walk of a registration wakes up, if it does. -/
def wakingsAt (address generation : Value) (e : Engine) (m : Moment) : List Float :=
  ((e.visitsAt address generation m).filter Visit.wakes).map fun _ => m.now

/-- What the clock shows whenever the walk of a registration wakes up in a run, in order. -/
def wakings (address generation : Value) : Engine → List Moment → List Float :=
  gather (wakingsAt address generation)

/-- The times in the histories of an engine follow the clock. -/
structure KeepsTime (new : Engine) (ms : List Moment) : Prop where
  /-- The times of each session increase strictly. -/
  increasing : ∀ a s, (new.run ms).sessionAt? a = some s → s.times.Pairwise (· < ·)
  /-- The last of them is the time at which the present state was entered. -/
  last : ∀ a s, (new.run ms).sessionAt? a = some s → s.times.getLast? = some s.changedAt
  /-- The first is what the clock showed when the peer was added, and the others are the stamps of
  what it showed since then when the walk woke up. -/
  follows : ∀ a g s, (new.run ms).IsLive a g → (new.run ms).sessionAt? a = some s →
    ∃ before m since, ms = before ++ m :: since ∧ (new.run before).Adds m a ∧
      g = .int (new.run before).nextGeneration ∧
      s.times = List.scanl stamp m.now (((new.run before).after m).wakings a g since)
  /-- At the next moment nothing is entered, or the walk enters a state: at the time that the clock
  shows if it is later than the last entry, and just after this entry otherwise. -/
  enters : ∀ m a g s s', m.now.isNaN = false → (new.run ms).IsLive a g →
    ((new.run ms).after m).IsLive a g → (new.run ms).sessionAt? a = some s →
    ((new.run ms).after m).sessionAt? a = some s' →
    s'.history = s.history ∧ s'.changedAt = s.changedAt ∨
      (new.run ms).HasTurn m a g ∧ ∃ next,
        s'.history = s.history ++ [(next, stamp s.changedAt m.now)] ∧
        s'.changedAt = stamp s.changedAt m.now

variable {e new : Engine} {l l' : List Registration} {starts starts' : List Start} {m : Moment}
  {ms : List Moment} {r r' : Registration}

/-- The walk of a registration writes the next state of its session if it wakes up, and nothing
otherwise. -/
private theorem Holds.writes?_of_mem (h : e.Holds l starts) (hr : r ∈ l) {w : Walk}
    (hserves : w.serves = r.start.values) (o : Observers) (heeding : Bool) (now : Float) :
    w.writes? heeding e.registry now =
      if Visit.wakes { walk := w, observers := o, heeding } then some (r.session.advance now).1
      else none := by
  have hmoves : w.moves? e.registry now = some (r.session.advance now).1 := by
    rw [Walk.moves?, h.live?_of_mem hr hserves]
  unfold Walk.writes? Visit.wakes Walk.isAsleep
  cases hheeded : heeding && w.stopping with
  | true => simp
  | false => cases hphase : w.phase <;> simp [hmoves]

/-- A registration that goes on is left on its course while its walk does not wake up, and moved
when it does. -/
private theorem Holds.wakes_or_waits (he : e.Reachable) (h : e.Holds l starts) (hr : r ∈ l)
    (h' : (e.after m).Holds l' starts') (hr' : r' ∈ l') (hstart : r'.start = r.start) :
    e.wakingsAt (.text r.address) (.int r.generation) m = [] ∧
        r'.session.SameCourse r.session ∨
      e.wakingsAt (.text r.address) (.int r.generation) m = [m.now] ∧
        e.HasTurn m (.text r.address) (.int r.generation) ∧
        r'.session = (r.session.advance m.now).1 ∧
        ∃ state, r.session.state = .state state ∧ state ≠ .established := by
  by_cases hturn : e.HasTurn m (.text r.address) (.int r.generation)
  · obtain ⟨i, o, heeding, w, hmove, hw, haddress, hgeneration⟩ := id hturn
    have hown : w.serves = (.text r.address, .int r.generation) := Prod.ext haddress hgeneration
    have hserves : w.serves = r.start.values := hown
    have hmem : w ∈ e.walks := List.mem_of_getElem? hw
    have hl' : l' = rewritten l w.address (w.writes? heeding e.registry m.now) := by
      refine Registry.ofList_injective ?_
      rw [← h'.registry_eq, after_turn hmove, turnOf_of_some hw]
      exact h.registry_turn hmem heeding m.now o
    have hat' := h'.at?_of_start hr' hstart
    rw [hl', haddress, h.writes?_of_mem hr hserves o] at hat'
    rw [wakingsAt, h.turn_visitsAt hmove hw hown]
    cases hwakes : Visit.wakes { walk := w, observers := o, heeding } with
    | false =>
      rw [hwakes, if_neg Bool.false_ne_true] at hat'
      obtain rfl := Option.some.inj ((h.at?_of_mem hr).symm.trans hat')
      left
      simp [hwakes, Session.SameCourse.refl]
    | true =>
      rw [hwakes, if_pos rfl] at hat'
      obtain rfl := Option.some.inj ((h.at?_written hr _).symm.trans hat')
      obtain ⟨state, hstate, hstands⟩ := (he.attended l starts h).stands i w r hw hr hserves
      have hleft : state ≠ .established := by
        unfold Walk.StandsAt at hstands
        simp only [Visit.wakes, Walk.isAsleep] at hwakes
        cases hphase : w.phase with
        | asleep =>
          rw [hphase] at hstands
          exact hstands
        | _ => simp [hphase] at hwakes
      right
      simp [hwakes, hturn, hstate, hleft]
  · left
    rcases (h.carries_of_mem hr h' hr' hstart).course with hsame | ⟨hhas, _⟩
    · rw [wakingsAt, h.visitsAt_of_not_hasTurn hturn]
      exact ⟨rfl, hsame⟩
    · exact absurd hhas hturn

/-- The times of a registered session are among those of the engine. -/
theorem Holds.mem_entryTimes (h : e.Holds l starts) (hr : r ∈ l) {t : Float}
    (ht : t ∈ r.session.times) : t ∈ e.entryTimes := by
  rw [entryTimes, h.registry_eq]
  refine List.mem_flatMap.mpr ⟨r.session, ?_, ht⟩
  rw [Registry.ofList, values_column]
  exact List.mem_map_of_mem hr

/-- Where the clock tells the time, the last time of a session is a number. -/
private theorem TellsTime.changedAt_isNumber (htells : TellsTime new ms)
    (h : (new.run ms).Holds l starts) (hr : r ∈ l)
    (hlast : r.session.times.getLast? = some r.session.changedAt) :
    r.session.changedAt.isNaN = false := by
  have hmem := h.mem_entryTimes hr (List.mem_of_getLast? hlast)
  exact (Double.isNumber_of_lt (htells.lt_next ms List.prefix_rfl _ hmem)).1

/-- A session that is moved enters the next state at the stamp after its last time. -/
private theorem Session.advance_stamped {s : Session} {state : State}
    (hstate : s.state = .state state) (hleft : state ≠ .established)
    {now : Float} (hlast : s.changedAt.isNaN = false) (hnow : now.isNaN = false) :
    ∃ next, (s.advance now).1.history = s.history ++ [(next, stamp s.changedAt now)] := by
  obtain ⟨next, hnext⟩ := State.exists_next hleft
  obtain ⟨_, hhistory⟩ := Session.advance_of_next hstate hnext now
  exact ⟨_, Session.entryTime_eq_stamp hlast hnow ▸ hhistory⟩

/-- The clock has told the time before the last moment. -/
theorem TellsTime.of_concat (htells : TellsTime new (ms ++ [m])) : TellsTime new ms where
  isNumber n hn := htells.isNumber n (List.mem_append_left _ hn)
  lt_next before hbefore := htells.lt_next before (hbefore.trans (List.prefix_append ms [m]))

/-- A moment adds a stamp to the times of a registration that goes on if its walk wakes up. -/
private theorem Holds.times_after (h : e.Holds l starts) (he : e.Reachable) (hr : r ∈ l)
    (h' : (e.after m).Holds l' starts') (hr' : r' ∈ l') (hstart : r'.start = r.start)
    (hlast : r.session.changedAt.isNaN = false) (hnow : m.now.isNaN = false) {t : Float}
    {readings : List Float} (htimes : r.session.times = List.scanl stamp t readings) :
    r'.session.times = List.scanl stamp t
      (readings ++ e.wakingsAt (.text r.address) (.int r.generation) m) := by
  rcases h.wakes_or_waits he hr h' hr' hstart with
    ⟨hnone, hsame⟩ | ⟨hwakes, _, hmoved, state, hstate, hleft⟩
  · rw [hnone, List.append_nil, hsame.times_eq]
    exact htimes
  · obtain ⟨next, hhistory⟩ := Session.advance_stamped hstate hleft hlast hnow
    have hchanged := (he.tellsCourse l starts h r hr).getLast?_times
    rw [htimes] at hchanged
    rw [hwakes, scanl_stamp_concat hchanged, hmoved, Session.times, hhistory, List.map_append,
      ← Session.times, htimes]
    rfl

/-- The times of a session are the stamps of what the clock has shown since the peer was added. -/
private theorem IsNew.times_eq (hnew : new.IsNew) (htells : TellsTime new ms)
    (h : (new.run ms).Holds l starts) (hr : r ∈ l) :
    ∃ before m since, ms = before ++ m :: since ∧ (new.run before).Adds m (.text r.address) ∧
      r.generation = (new.run before).nextGeneration ∧
      r.session.times = List.scanl stamp m.now
        (((new.run before).after m).wakings (.text r.address) (.int r.generation) since) := by
  -- by induction on the run from its end: the registration goes on, or it has just been made
  induction ms using List.reverseRecOn generalizing l starts r with
  | nil =>
    obtain rfl := h.eq_of_registry hnew.holds.registry_eq
    cases hr
  | append_singleton ms n ih =>
    have hreachable := hnew.reachable.run ms
    obtain ⟨l₀, starts₀, h₀⟩ := hreachable.exists_holds
    rw [run_concat] at h
    rcases (h₀.step_to h).carries_or_initial (h.at?_of_mem hr) with
      ⟨r₀, hat₀, hcarries⟩ | ⟨hadds, b, p, rfl⟩
    · have hr₀ := (mem_of_at? hat₀).1
      have haddress : r.address = r₀.address := congrArg Start.address hcarries.start_eq
      obtain ⟨before, m, since, rfl, hadds, hgeneration, htimes⟩ := ih htells.of_concat h₀ hr₀
      have hlast := (hreachable.tellsCourse l₀ starts₀ h₀ r₀ hr₀).getLast?_times
      have hafter := h₀.times_after hreachable hr₀ h hr hcarries.start_eq
        (htells.of_concat.changedAt_isNumber h₀ hr₀ hlast) (htells.isNumber n (by simp)) htimes
      have hrun : new.run (before ++ m :: since) = ((new.run before).after m).run since := by
        rw [run_append]
        rfl
      refine ⟨before, m, since ++ [n], by simp, haddress ▸ hadds,
        hcarries.generation_eq.trans hgeneration, ?_⟩
      rw [haddress, hcarries.generation_eq, wakings, gather_concat, ← hrun]
      exact hafter
    · exact ⟨ms, n, [], rfl, hadds, rfl, rfl⟩

/-- Whatever the clock shows, the times in the histories follow it and increase. -/
theorem IsNew.keeps_time (hnew : new.IsNew) (htells : TellsTime new ms) : KeepsTime new ms := by
  have hreachable := hnew.reachable.run ms
  obtain ⟨l, starts, h⟩ := hreachable.exists_holds
  have hfound {a : Value} {s : Session} (hs : (new.run ms).sessionAt? a = some s) :
      ∃ r ∈ l, .text r.address = a ∧ r.session = s := by
    rw [h.sessionAt?_eq] at hs
    obtain ⟨r, hat, hsession⟩ := Option.map_eq_some_iff.mp hs
    exact ⟨r, (mem_of_at? hat).1, (mem_of_at? hat).2.symm, hsession⟩
  have hlast {r : Registration} (hr : r ∈ l) :=
    (hreachable.tellsCourse l starts h r hr).getLast?_times
  constructor
  case increasing =>
    intro a s hs
    obtain ⟨r, hr, _, rfl⟩ := hfound hs
    obtain ⟨_, m, since, _, _, _, htimes⟩ := hnew.times_eq htells h hr
    rw [htimes]
    refine pairwise_scanl_stamp fun t ht => ?_
    exact htells.lt_next ms List.prefix_rfl t (h.mem_entryTimes hr (htimes ▸ ht))
  case last =>
    intro a s hs
    obtain ⟨r, hr, _, rfl⟩ := hfound hs
    exact hlast hr
  case follows =>
    intro a g s hlive hs
    obtain ⟨r, hat, rfl, rfl⟩ := h.registration_of_isLive hlive hs
    obtain ⟨hr, rfl⟩ := mem_of_at? hat
    obtain ⟨before, m, since, hms, hadds, hgeneration, htimes⟩ := hnew.times_eq htells h hr
    exact ⟨before, m, since, hms, hadds, congrArg Value.int hgeneration, htimes⟩
  case enters =>
    intro m a g s s' hnow hlive hlive' hs hs'
    obtain ⟨l', starts', _, _, h'⟩ := h.exists_after m
    obtain ⟨r, hat, rfl, rfl⟩ := h.registration_of_isLive hlive hs
    obtain ⟨r', hat', hgeneration, rfl⟩ := h'.registration_of_isLive hlive' hs'
    obtain ⟨hr, rfl⟩ := mem_of_at? hat
    obtain ⟨hr', haddress⟩ := mem_of_at? hat'
    have hstart : r'.start = r.start := by
      rw [Registration.start, Registration.start, Value.int.inj hgeneration,
        Value.text.inj haddress]
    rcases h.wakes_or_waits hreachable hr h' hr' hstart with
      ⟨_, hsame⟩ | ⟨_, hturn, hmoved, state, hstate, hleft⟩
    · exact Or.inl ⟨hsame.history_eq, hsame.changedAt_eq⟩
    · right
      have hnumber := htells.changedAt_isNumber h hr (hlast hr)
      obtain ⟨next, hhistory⟩ := Session.advance_stamped hstate hleft hnumber hnow
      rw [← hmoved] at hhistory
      have hlast' := (hreachable.run [m]).tellsCourse l' starts' h' r' hr' |>.getLast?_times
      refine ⟨hturn, next, hhistory, ?_⟩
      rw [Session.times, hhistory, List.map_append, List.getLast?_append] at hlast'
      exact (Option.some.inj hlast').symm

/-- A run in which the clock stands still, is set back and jumps ahead. -/
def jumpingRun : List Moment := [
  ⟨.call (.addPeer (.record samplePeer)), 5.0⟩,
  ⟨.turn 0 {} true, 5.0⟩,
  ⟨.turn 0 {} true, 5.0⟩,
  ⟨.turn 0 {} true, 3.0⟩,
  ⟨.turn 0 {} true, 9.0⟩]

/-- The second and the third time are just after the one before, the fourth is the reading. -/
theorem keeps_time_jumpingRun :
    IsNew {} ∧ TellsTime {} jumpingRun ∧
      ∃ s, (({} : Engine).run jumpingRun).sessionAt? sampleAddress = some s ∧
        s.times = [5.0, 5.0 + Session.timeStep, 5.0 + Session.timeStep + Session.timeStep, 9.0] ∧
        s.times.Pairwise (· < ·) ∧ s.times.getLast? = some s.changedAt := by
  have hnew : IsNew {} := ⟨rfl, rfl, rfl, rfl⟩
  have htells : TellsTime {} jumpingRun := by
    constructor
    case isNumber => decide +kernel
    case lt_next =>
      have hall : ∀ before ∈ jumpingRun.inits,
          ∀ t ∈ (({} : Engine).run before).entryTimes, t < t + Session.timeStep := by
        decide +kernel
      exact fun before hbefore => hall before ((List.mem_inits before _).mpr hbefore)
  have hkeeps := hnew.keeps_time htells
  refine ⟨hnew, htells, _, rfl, ?_, hkeeps.increasing sampleAddress _ rfl,
    hkeeps.last sampleAddress _ rfl⟩
  decide +kernel

end Engine

end Peering
