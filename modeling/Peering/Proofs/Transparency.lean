import Peering.Proofs.Projection
import Peering.Proofs.Standing
import Peering.Monitor

/-!
# Observers are transparent

Observers that ask for no delay of their own and raise no cancellation error can be exchanged for
any others of this kind, or taken away. What they do, and whether they fail, is seen in their calls
and in the reports of their failures, and nowhere else. This file compares every turn with the turn
in which nobody observes, and concludes the same of runs, also where a schedule decides by what has
been done who goes next. The cancellation error of an observer is an exception: it ends the walk.
-/

namespace Peering

/-- An observer of walks is called, or an error is reported. -/
def Effect.isTelling : Effect → Bool
  | .changed _ _ _ _ | .established _ _ => true
  | .report r => r.level == .error
  | .event _ | .sleep _ _ _ | .pause _ _ _ | .started _ | .cancelled _ => false

/-- What has been done apart from the calls of observers and the reports of errors. -/
def untold (effects : List Effect) : List Effect := effects.filter fun f => !f.isTelling

/-- No effects are left of none. -/
@[simp] theorem untold_nil : untold [] = [] := rfl

/-- What is left of effects is left of each. -/
@[simp] theorem untold_append (l m : List Effect) : untold (l ++ m) = untold l ++ untold m :=
  List.filter_append _ _

/-- The call of an observer is left out. -/
@[simp] theorem untold_walk_call (w : Walk) (n : Notice) (stage : Stage) (l : List Effect) :
    untold (w.call n stage :: l) = untold l := by
  cases stage <;> rfl

/-- The report of an error is left out. -/
@[simp] theorem untold_callbackFailed (w : Walk) (message : String) (l : List Effect) :
    untold (w.callbackFailed message :: l) = untold l := rfl

/-- The turn without the calls of observers and the reports of errors. -/
def Turn.muted (t : Turn) : Turn := { t with effects := untold t.effects }

/-- Effects that tell nobody may be put in front. -/
theorem Turn.muted_after (t : Turn) {l : List Effect} (hl : untold l = l) :
    (t.after l).muted = t.muted.after l := by
  simp only [muted, after, untold_append, hl]

/-- Effects that tell somebody may be left out in front. -/
theorem Turn.muted_after_of_told (t : Turn) {l : List Effect} (hl : untold l = []) :
    (t.after l).muted = t.muted := by
  simp only [muted, after, untold_append, hl, List.nil_append]

namespace Walk

variable {o : Observers}

/-- Looking ahead tells nobody. -/
theorem lookAhead_muted (w : Walk) (r : Registry) : (w.lookAhead r).muted = w.lookAhead r := by
  unfold lookAhead
  split
  · rfl
  · rfl
  · split <;> rfl

/-- Being halted tells nobody. -/
theorem halt_muted (w : Walk) (r : Registry) : (w.halt r).muted = w.halt r := by
  unfold halt
  split <;> rfl

/-- Going on when all have been told tells nobody. -/
theorem proceed_muted (w : Walk) (r : Registry) (n : Notice) :
    (w.proceed r n .all).muted = w.proceed r n .all := by
  simp only [proceed]
  split
  · rfl
  · exact w.lookAhead_muted r

/-- Contained observers are all told at once. -/
theorem tell_of_isContained (ho : o.isContained = true) (w : Walk) (n : Notice) (l : List Stage) :
    (w.tell o n l).1 = .all := by
  obtain ⟨hprompt, hcancels⟩ := Observers.isContained_iff.mp ho
  cases htold : (w.tell o n l).1 with
  | all => rfl
  | upTo rest => exact absurd htold (tell_of_isPrompt hprompt w n l rest)
  | calledOff =>
    rw [cancels_of_tell htold] at hcancels
    cases hcancels

/-- Observers that ask for no delay do nothing but being called and failing. -/
theorem untold_tell (ho : o.isPrompt = true) (w : Walk) (n : Notice) (l : List Stage) :
    untold (w.tell o n l).2 = [] := by
  have hnone := tell_of_isPrompt ho w n
  induction l with
  | nil => rfl
  | cons stage rest ih =>
    have htold := hnone (stage :: rest)
    unfold tell at htold ⊢
    split at htold
    · exact ih
    · simpa using ih
    · simp
    · exact absurd rfl (htold _)
    · simp

/-- Telling contained observers, the walk goes on at once. -/
theorem notify_muted (ho : o.isContained = true) (w : Walk) (r : Registry) (n : Notice)
    (l : List Stage) : (w.notify r o n l).muted = w.proceed r n .all := by
  obtain ⟨hprompt, _⟩ := Observers.isContained_iff.mp ho
  have hnotify : w.notify r o n l = (w.proceed r n (w.tell o n l).1).after (w.tell o n l).2 := rfl
  rw [hnotify, tell_of_isContained ho, Turn.muted_after_of_told _ (w.untold_tell hprompt n l),
    proceed_muted]

/-- If nobody observes, the walk goes on at once. -/
theorem notify_unobserved (w : Walk) (r : Registry) (n : Notice) (l : List Stage) :
    w.notify r {} n l = w.proceed r n .all := by
  simp only [notify, tell_nobody]
  rfl

/-- A walk that wakes up does the same if nobody observes. -/
theorem step_muted (ho : o.isContained = true) (w : Walk) (r : Registry) (now : Float) :
    (w.step r now o).muted = w.step r now {} := by
  unfold step
  split
  · rfl
  · rfl
  · split
    · rfl
    · simp only [notify_unobserved]
      rw [Turn.muted_after _ rfl, notify_muted ho]

/-- A walk that has waited for an observer goes on in the same way if the observer returns and
nobody observes. -/
theorem goOn_muted (ho : o.isContained = true) (w : Walk) (r : Registry) (rest : List Stage)
    (n : Notice) : (w.goOn r o rest n).muted = w.goOn r {} rest n := by
  obtain ⟨hprompt, hcancels⟩ := Observers.isContained_iff.mp ho
  have hsilent : w.goOn r {} rest n = w.proceed r n .all := w.notify_unobserved r n rest
  rw [hsilent, goOn]
  split
  · exact notify_muted ho w r n rest
  · rw [Turn.muted_after_of_told _ rfl, proceed_muted]
  · rename_i seconds hresumed
    simp [Observers.isPrompt, hresumed, Reply.isSuspended] at hprompt
  · rename_i hresumed
    simp [Observers.cancels, hresumed, Reply.isCancelled] at hcancels

/-- Every turn with contained observers is the same if nobody observes, apart from the calls of
observers and the reports of errors. -/
theorem turnWith_muted (ho : o.isContained = true) (w : Walk) (heeding : Bool) (r : Registry)
    (now : Float) : (w.turnWith heeding r now o).muted = w.turnWith heeding r now {} := by
  cases hheeded : heeding && w.stopping with
  | true =>
    rw [turnWith_of_heeded hheeded, turnWith_of_heeded hheeded]
    exact w.halt_muted r
  | false =>
    rw [turnWith_of_unheeded hheeded, turnWith_of_unheeded hheeded]
    unfold resume
    split
    · exact w.lookAhead_muted r
    · exact w.step_muted ho r now
    · exact w.goOn_muted ho r _ _
    · rfl
    · rfl
    · rfl

end Walk

/-- The moment with observers set for a turn. -/
def Moment.observedBy (o : Observers) (m : Moment) : Moment :=
  match m.move with
  | .turn i _ heeding => { m with move := .turn i o heeding }
  | .call _ | .close => m

/-- The moment if nobody observes. -/
def Moment.unobserved (m : Moment) : Moment := m.observedBy {}

/-- No observer asks for a delay of its own at the moment, and none raises the cancellation
error. -/
def Moment.IsContained (m : Moment) : Prop :=
  ∀ i o heeding, m.move = .turn i o heeding → o.isContained = true

namespace Moment

variable {m : Moment} {i : Nat} {o : Observers} {heeding : Bool}

/-- Nobody observes but in turns. -/
theorem observedBy_of_not_turn (hm : ∀ i o heeding, m.move ≠ .turn i o heeding) (o : Observers) :
    m.observedBy o = m := by
  unfold observedBy
  split
  · rename_i i o' heeding hmove
    exact absurd hmove (hm i o' heeding)
  · rfl
  · rfl

/-- A turn is observed by the observers set. -/
theorem observedBy_turn (hmove : m.move = .turn i o heeding) (o' : Observers) :
    m.observedBy o' = ⟨.turn i o' heeding, m.now⟩ := by
  unfold observedBy
  rw [hmove]

/-- Who observes is of no account if nobody does. -/
theorem unobserved_observedBy (m : Moment) (o : Observers) :
    (m.observedBy o).unobserved = m.unobserved := by
  cases hmove : m.move with
  | turn i o' heeding =>
    rw [observedBy_turn hmove, unobserved, observedBy_turn rfl, unobserved, observedBy_turn hmove]
  | call | close => rw [observedBy_of_not_turn fun _ _ _ => by simp [hmove]]

/-- A moment observed by contained observers is contained. -/
theorem isContained_observedBy (ho : o.isContained = true) (m : Moment) :
    (m.observedBy o).IsContained := by
  intro i o' heeding hmove
  cases hbefore : m.move with
  | turn j o'' heeding' =>
    rw [observedBy_turn hbefore] at hmove
    obtain ⟨_, rfl, _⟩ := Move.turn.inj hmove
    exact ho
  | call | close =>
    rw [observedBy_of_not_turn fun _ _ _ => by simp [hbefore], hbefore] at hmove
    cases hmove

end Moment

/-- The outcome without the calls of observers and the reports of errors. -/
def Outcome.muted {α : Type} (o : Outcome α) : Outcome α := { o with effects := untold o.effects }

/-- A look of a monitor at an engine in a run, after some moments. -/
structure Look where
  /-- How many moments have passed. -/
  passed : Nat
  /-- What the clock shows. -/
  now : Float
  /-- The callback for events. -/
  callback : Option EventObserver

namespace Engine

/-- The polls of a monitor that looks at an engine several times in a run. -/
def polls (e : Engine) (ms : List Moment) : Monitor → List Look → List Monitor.Polled
  | _, [] => []
  | M, look :: rest =>
    let polled := M.poll (e.run (ms.take look.passed)) look.now look.callback
    polled :: e.polls ms polled.monitor rest

/-- What is done at a moment apart from the calls of observers and the reports of errors. -/
def untoldAt (e : Engine) (m : Moment) : List Effect := untold (e.meet m).effects

/-- What is seen of a moment if nobody listens to observers and to reports of errors. -/
def seenAt (e : Engine) (m : Moment) : List (Outcome Answer) := [(e.meet m).muted]

/-- A driver decides what happens next, if anything, by what it has seen of a run so far. -/
abbrev Driver := List (Outcome Answer) → Option Moment

/-- The first moments of the run that a driver decides on. Observers do at each moment what they are
said to do at it. -/
def driven (e : Engine) (d : Driver) (observers : Nat → Observers) : Nat → List Moment
  | 0 => []
  | n + 1 =>
    let ms := e.driven d observers n
    match d (e.gather seenAt ms) with
    | some m => ms ++ [m.observedBy (observers n)]
    | none => ms

/-- In two runs of an engine the same happens apart from the calls of observers and the reports of
errors. -/
structure GoesAlike (e : Engine) (ms ms' : List Moment) : Prop where
  /-- At all times both have the same peers, sessions and generations, and the same walks in the
  same phases. -/
  run_eq : ∀ n, e.run (ms'.take n) = e.run (ms.take n)
  /-- The same calls are answered alike. -/
  outcomes_eq : e.outcomes (fun _ => true) ms' = e.outcomes (fun _ => true) ms
  /-- The same is done otherwise. In particular walks are started and cancelled, and delays are
  asked for, at the same moments. -/
  untold_eq : ∀ n, e.gather untoldAt (ms'.take n) = e.gather untoldAt (ms.take n)
  /-- Monitors see the same. -/
  polls_eq : ∀ M looks, e.polls ms' M looks = e.polls ms M looks

variable {e : Engine} {m : Moment} {ms ms' : List Moment}

/-- What a moment leaves behind is the same if nobody observes. -/
theorem meet_muted (hm : m.IsContained) : (e.meet m.unobserved).muted = (e.meet m).muted := by
  cases hmove : m.move with
  | turn i o heeding =>
    rw [Moment.unobserved, Moment.observedBy_turn hmove, meet_turn hmove, meet_turn rfl]
    cases hw : e.walk? i with
    | none => rw [turnOf_of_none hw, turnOf_of_none hw]
    | some w =>
      have hsilent := w.turnWith_muted (hm i o heeding hmove) heeding e.registry m.now
      have hmuted := congrArg Turn.muted hsilent
      rw [turnOf_of_some hw, turnOf_of_some hw, ← hsilent]
      simp only [Outcome.muted, Turn.muted, untold, List.filter_filter, Bool.and_self]
  | call | close =>
    rw [Moment.unobserved, Moment.observedBy_of_not_turn fun _ _ _ => by simp [hmove]]

/-- The engine after a moment is the same if nobody observes. -/
theorem after_unobserved (hm : m.IsContained) : e.after m.unobserved = e.after m := by
  have hengine := congrArg Outcome.engine (meet_muted (e := e) hm)
  exact hengine

/-- The engine after a run is the same if nobody observes. -/
theorem run_unobserved (hms : ∀ m ∈ ms, m.IsContained) :
    e.run (ms.map Moment.unobserved) = e.run ms := by
  induction ms generalizing e with
  | nil => rfl
  | cons m ms ih =>
    obtain ⟨hm, hms⟩ := List.forall_mem_cons.mp hms
    have hrest := ih (e := e.after m) hms
    rw [← after_unobserved hm] at hrest
    exact hrest.trans (congrArg (Engine.run · ms) (after_unobserved hm))

/-- What is gathered along a run is the same if nobody observes, if it is the same at each
moment. -/
theorem gather_unobserved {α : Type} {f : Engine → Moment → List α}
    (hf : ∀ e m, m.IsContained → f e m.unobserved = f e m) (hms : ∀ m ∈ ms, m.IsContained) :
    e.gather f (ms.map Moment.unobserved) = e.gather f ms := by
  induction ms generalizing e with
  | nil => rfl
  | cons m ms ih =>
    obtain ⟨hm, hms⟩ := List.forall_mem_cons.mp hms
    rw [List.map_cons, gather_cons, gather_cons, hf e m hm, after_unobserved hm, ih hms]

/-- Outcomes do not depend on observers. -/
theorem outcomeAt_unobserved (shown : Call → Bool) (m : Moment) :
    e.outcomeAt shown m.unobserved = e.outcomeAt shown m := by
  cases hmove : m.move with
  | turn i o heeding =>
    rw [Moment.unobserved, Moment.observedBy_turn hmove, outcomeAt_of_not_call fun c => by simp,
      outcomeAt_of_not_call fun c => by simp [hmove]]
  | call | close =>
    rw [Moment.unobserved, Moment.observedBy_of_not_turn fun _ _ _ => by simp [hmove]]

/-- If the engines are the same at all times, a monitor sees the same. -/
theorem polls_eq_of_run_eq (hrun : ∀ n, e.run (ms'.take n) = e.run (ms.take n)) (M : Monitor)
    (looks : List Look) : e.polls ms' M looks = e.polls ms M looks := by
  induction looks generalizing M with
  | nil => rfl
  | cons look rest ih => rw [polls, polls, hrun, ih]

/-- Runs that are the same if nobody observes go alike, where all observers are contained. -/
private theorem goesAlike (hms : ∀ m ∈ ms, m.IsContained) (hms' : ∀ m ∈ ms', m.IsContained)
    (hsame : ms'.map Moment.unobserved = ms.map Moment.unobserved) : e.GoesAlike ms ms' := by
  have htake {ns : List Moment} (hns : ∀ m ∈ ns, m.IsContained) (n : Nat) :
      ∀ m ∈ ns.take n, m.IsContained := fun m hm => hns m (List.mem_of_mem_take hm)
  have hprefix (n : Nat) :
      (ms'.take n).map Moment.unobserved = (ms.take n).map Moment.unobserved := by
    rw [List.map_take, List.map_take, hsame]
  have hrun (n : Nat) : e.run (ms'.take n) = e.run (ms.take n) := by
    rw [← run_unobserved (htake hms' n), hprefix n, run_unobserved (htake hms n)]
  constructor
  case run_eq => exact hrun
  case outcomes_eq =>
    have houtcomeAt (e : Engine) (m : Moment) (_ : m.IsContained) :=
      outcomeAt_unobserved (e := e) (fun _ => true) m
    rw [outcomes, ← gather_unobserved houtcomeAt hms', hsame, gather_unobserved houtcomeAt hms]
  case untold_eq =>
    intro n
    have huntoldAt (e : Engine) (m : Moment) (hm : m.IsContained) :
        e.untoldAt m.unobserved = e.untoldAt m := by
      have heffects := congrArg Outcome.effects (meet_muted (e := e) hm)
      exact heffects
    rw [← gather_unobserved huntoldAt (htake hms' n), hprefix n,
      gather_unobserved huntoldAt (htake hms n)]
  case polls_eq => exact polls_eq_of_run_eq hrun

section Driven

variable {d : Driver} {observers observers' : Nat → Observers}

/-- In a run under a driver observers are contained if they always are. -/
theorem isContained_driven (hcontained : ∀ n, (observers n).isContained = true) (n : Nat) :
    ∀ m ∈ e.driven d observers n, m.IsContained := by
  induction n with
  | zero => simp [driven]
  | succ n ih =>
    simp only [driven]
    split
    · rename_i m _
      intro m' hm'
      rcases List.mem_append.mp hm' with hm' | hm'
      · exact ih m' hm'
      · obtain rfl := List.mem_singleton.mp hm'
        exact m.isContained_observedBy (hcontained n)
    · exact ih

/-- A driver decides on the same moments, whatever the observers do. -/
theorem driven_unobserved (hcontained : ∀ n, (observers n).isContained = true)
    (hcontained' : ∀ n, (observers' n).isContained = true) (n : Nat) :
    (e.driven d observers' n).map Moment.unobserved =
      (e.driven d observers n).map Moment.unobserved := by
  induction n with
  | zero => rfl
  | succ n ih =>
    have hseenAt (e : Engine) (m : Moment) (hm : m.IsContained) :
        e.seenAt m.unobserved = e.seenAt m := congrArg (fun o => [o]) (meet_muted hm)
    -- so far the driver has seen the same
    have hseen : e.gather seenAt (e.driven d observers' n) =
        e.gather seenAt (e.driven d observers n) := by
      rw [← gather_unobserved hseenAt (isContained_driven hcontained' n), ih,
        gather_unobserved hseenAt (isContained_driven hcontained n)]
    simp only [driven, hseen]
    split
    · simp only [List.map_append, List.map_cons, List.map_nil, ih, Moment.unobserved_observedBy]
    · exact ih

end Driven

/-- Observers that ask for no delay of their own and raise no cancellation error are transparent.
Exchanging them in a run changes nothing but their calls and the reports of errors: whether there
are any, whether they return or fail, and at which calls. So no schedule that goes by anything else
can notice it, and runs under such a schedule go alike. -/
theorem observers_are_transparent (e : Engine) :
    (∀ ms ms', (∀ m ∈ ms, m.IsContained) → (∀ m ∈ ms', m.IsContained) →
      ms'.map Moment.unobserved = ms.map Moment.unobserved → e.GoesAlike ms ms') ∧
    ∀ d observers observers', (∀ n, (observers n).isContained = true) →
      (∀ n, (observers' n).isContained = true) →
        ∀ n, e.GoesAlike (e.driven d observers n) (e.driven d observers' n) := by
  refine ⟨fun ms ms' hms hms' hsame => goesAlike hms hms' hsame, ?_⟩
  intro d observers observers' hcontained hcontained' n
  exact goesAlike (isContained_driven hcontained n) (isContained_driven hcontained' n)
    (driven_unobserved hcontained hcontained' n)

/-- An observer that raises the cancellation error is not transparent, although it asks for no
delay: without it the walk is not over, and the next turn moves the session. -/
theorem not_transparent_calledOffRun :
    (∀ m ∈ calledOffRun, ∀ i o heeding, m.move = .turn i o heeding → o.isPrompt = true) ∧
      ¬GoesAlike {} calledOffRun (calledOffRun.map Moment.unobserved) := by
  constructor
  · intro m hm i o heeding hmove
    simp only [calledOffRun, List.mem_cons, List.not_mem_nil, or_false] at hm
    rcases hm with rfl | rfl | rfl | rfl <;> cases hmove <;> rfl
  · intro halike
    have hsame := congrArg (fun e => (e.sessionAt? sampleAddress).map Session.state)
      (halike.run_eq calledOffRun.length)
    cases hsame

/-- A run in which the observer of state changes fails at its first call and returns at the second
one, and the session is read in between. -/
def loudRun : List Moment := [
  ⟨.call (.addPeer (.record samplePeer)), 0.0⟩,
  ⟨.turn 0 {} true, 0.0⟩,
  ⟨.turn 0 { stateChange := some (.raised "no") } true, 2.0⟩,
  ⟨.call (.session sampleAddress), 3.0⟩,
  ⟨.turn 0 { stateChange := some .returned } true, 4.0⟩]

/-- A driver that adds a peer, and then gives turns to its walk until the walk is over. -/
def singleDriver : Driver := fun seen =>
  match seen.getLast? with
  | none => some ⟨.call (.addPeer (.record samplePeer)), 0.0⟩
  | some last => if last.engine.isRunning 0 then some ⟨.turn 0 {} true, 0.0⟩ else none

/-- Observers that always fail. -/
def failing : Observers where
  stateChange := some (.raised "no")
  established := some (.raised "no")
  resumed := .raised "no"

/-- Without the observer the run goes on alike; only its two calls are missing. The driver does not
notice whether observers fail or there are none. -/
theorem observers_are_transparent_loudRun :
    (∀ m ∈ loudRun, m.IsContained) ∧ (∀ m ∈ loudRun.map Moment.unobserved, m.IsContained) ∧
      GoesAlike {} loudRun (loudRun.map Moment.unobserved) ∧
      ({} : Engine).gather (fun e m => changesIn (e.meet m).effects) loudRun =
        [(sampleAddress, .int 1, .state .idle, .connect),
          (sampleAddress, .int 1, .state .connect, .active)] ∧
      ({} : Engine).gather (fun e m => changesIn (e.meet m).effects)
        (loudRun.map Moment.unobserved) = [] ∧
      (({} : Engine).driven singleDriver (fun _ => failing) 3).length = 3 ∧
      ∀ n, GoesAlike {} (({} : Engine).driven singleDriver (fun _ => failing) n)
        (({} : Engine).driven singleDriver (fun _ => {}) n) := by
  have hloud : ∀ m ∈ loudRun, m.IsContained := by
    intro m hm i o heeding hmove
    simp only [loudRun, List.mem_cons, List.not_mem_nil, or_false] at hm
    rcases hm with rfl | rfl | rfl | rfl | rfl <;> cases hmove <;> rfl
  have hsilent : ∀ m ∈ loudRun.map Moment.unobserved, m.IsContained := by
    intro m hm
    obtain ⟨m, _, rfl⟩ := List.mem_map.mp hm
    exact m.isContained_observedBy rfl
  obtain ⟨hruns, hdriven⟩ := observers_are_transparent {}
  exact ⟨hloud, hsilent, hruns loudRun _ hloud hsilent rfl, rfl, rfl, rfl,
    hdriven singleDriver _ _ (fun _ => rfl) fun _ => rfl⟩

end Engine

end Peering
