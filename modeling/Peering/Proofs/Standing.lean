import Peering.Proofs.Course
import Peering.Proofs.Turns

/-!
# Where a walk stands

Between two turns a walk of a live registration stands where the state of its session puts it. A
turn asks for the delay between two states exactly if the walk is asleep after it, and the session
moves only when the walk wakes up. A walk is called off only in a turn in which an observer raises
the cancellation error. A walk whose registration is gone does nothing of this any more: its next
turn ends it, unless an observer holds it up.
-/

namespace Peering

/-- The delay between two states that is asked for, if the effect asks for one. -/
def Effect.sleep? : Effect → Option (Value × Value × Float)
  | .sleep address generation seconds => some (address, generation, seconds)
  | _ => none

/-- The delays between two states that are asked for, in order. -/
def sleepsIn (effects : List Effect) : List (Value × Value × Float) :=
  effects.filterMap Effect.sleep?

/-- The registration that the effect is about: the one whose walk calls an observer or asks for a
delay. -/
def Effect.about? : Effect → Option (Value × Value)
  | .changed address generation _ _ | .established address generation
  | .sleep address generation _ | .pause address generation _ => some (address, generation)
  | .report _ | .event _ | .started _ | .cancelled _ => none

/-- The effect is a report. -/
def Effect.isReport : Effect → Bool
  | .report _ => true
  | _ => false

/-- The reply asks for a delay. -/
def Reply.isSuspended : Reply → Bool
  | .suspended _ => true
  | .returned | .raised _ | .cancelled => false

/-- The reply is the cancellation error. -/
def Reply.isCancelled : Reply → Bool
  | .cancelled => true
  | .returned | .raised _ | .suspended _ => false

/-- No observer asks for a delay of its own. -/
def Observers.isPrompt (o : Observers) : Bool :=
  !(o.stateChange.any Reply.isSuspended || o.established.any Reply.isSuspended ||
    o.resumed.isSuspended)

/-- An observer raises the cancellation error, if it is called. -/
def Observers.cancels (o : Observers) : Bool :=
  o.stateChange.any Reply.isCancelled || o.established.any Reply.isCancelled ||
    o.resumed.isCancelled

/-- No observer holds up the walk that calls it or ends it: none asks for a delay of its own, and
none raises the cancellation error. -/
def Observers.isContained (o : Observers) : Bool := o.isPrompt && !o.cancels

/-- Observers are contained exactly if they are prompt and do not cancel. -/
theorem Observers.isContained_iff {o : Observers} :
    o.isContained = true ↔ o.isPrompt = true ∧ o.cancels = false := by
  rw [isContained, Bool.and_eq_true, Bool.not_eq_true']

/-- No effects ask for no delays. -/
@[simp] theorem sleepsIn_nil : sleepsIn [] = [] := rfl

/-- The delays of effects come one after the other. -/
@[simp] theorem sleepsIn_append (l m : List Effect) :
    sleepsIn (l ++ m) = sleepsIn l ++ sleepsIn m :=
  List.filterMap_append

/-- A report asks for no delay. -/
@[simp] theorem sleepsIn_walk_report (w : Walk) (level : Level) (text : String)
    (l : List Effect) : sleepsIn (w.report level text :: l) = sleepsIn l := rfl

/-- A pause of an observer is no delay between states. -/
@[simp] theorem sleepsIn_pause (a g : Value) (x : Float) (l : List Effect) :
    sleepsIn (.pause a g x :: l) = sleepsIn l := rfl

/-- The call of an observer is no delay between states. -/
@[simp] theorem sleepsIn_walk_call (w : Walk) (n : Notice) (stage : Stage) (l : List Effect) :
    sleepsIn (w.call n stage :: l) = sleepsIn l := by
  cases stage <;> rfl

namespace Walk

/-- The walk sleeps between two states. -/
def isAsleep (w : Walk) : Bool :=
  match w.phase with
  | .asleep => true
  | .scheduled | .observing _ _ | .ended | .calledOff | .failed _ => false

/-- An observer that the walk has told is suspended. -/
def isObserving (w : Walk) : Bool :=
  match w.phase with
  | .observing _ _ => true
  | .scheduled | .asleep | .ended | .calledOff | .failed _ => false

/-- The cancellation error of an observer has ended the walk. -/
def isCalledOff (w : Walk) : Bool :=
  match w.phase with
  | .calledOff => true
  | .scheduled | .asleep | .observing _ _ | .ended | .failed _ => false

/-- The delay that the walk sleeps for, if it is asleep. -/
def naps (w : Walk) : List (Value × Value × Float) :=
  if w.isAsleep then [(w.address, w.generation, w.delay)] else []

/-- The walk stands where it may while its session is in a state. A walk that has not had a turn
has written nothing, one that is asleep has something left to write, and one that waits for an
observer has just written the state. It is over only when it has been cancelled, when there is
nothing left to do, or when an observer has called it off. -/
def StandsAt (w : Walk) (state : State) : Prop :=
  match w.phase with
  | .scheduled => state = .idle
  | .asleep => state ≠ .established
  | .observing _ n => n.new = state
  | .ended => w.stopping = true ∨ state = .established
  | .calledOff => True
  | .failed _ => False

/-- A walk stands where it stood if its phase stays, and a request to stop it is not taken back. -/
theorem StandsAt.of_phase_eq {w w' : Walk} {state : State} (h : w.StandsAt state)
    (hphase : w'.phase = w.phase) (hstopping : w.stopping = true → w'.stopping = true) :
    w'.StandsAt state := by
  unfold StandsAt at h ⊢
  rw [hphase]
  cases hw : w.phase with
  | ended =>
    rw [hw] at h
    exact h.imp_left hstopping
  | scheduled | asleep | observing | calledOff | failed =>
    rw [hw] at h
    exact h

end Walk

/-- What every turn of a walk is like. -/
structure Turn.IsOf (t : Turn) (w : Walk) : Prop where
  /-- The turn asks for the delay between two states exactly if the walk is asleep after it. -/
  sleeps_eq : sleepsIn t.effects = t.walk.naps
  /-- It is about the registration of the walk. -/
  about : ∀ f ∈ t.effects, ∀ p, f.about? = some p → p = w.serves
  /-- It leaves a cancellation of the walk as it is. -/
  stopping_eq : t.walk.stopping = w.stopping
  /-- The walk does not wait for its first turn any more. -/
  hasBegun : t.walk.phase ≠ .scheduled

/-- What a turn of a walk makes of its session, which is in a state. The last index is the state
afterwards. -/
inductive Turn.Attends (t : Turn) (w : Walk) (heeding : Bool) (r : Registry) (now : Float)
    (s : Session) (state : State) : State → Prop where
  /-- The session is left alone. If the walk is asleep, a cancellation reaches it. -/
  | stays (hregistry : t.registry = r)
    (hheeded : w.isAsleep = true → (heeding && w.stopping) = true) :
    Attends t w heeding r now s state state
  /-- The walk wakes up, and moves the session to the next state. -/
  | moves {next : State} (hasleep : w.isAsleep = true) (hnext : state.next? = some next)
    (hadvance : (s.advance now).2 = .ok next)
    (hregistry : t.registry = r.setSession w.address (s.advance now).1) :
    Attends t w heeding r now s state next

namespace Walk

variable {w : Walk} {r : Registry} {now : Float} {o : Observers} {heeding : Bool}

section Every

/-- A turn that does nothing but end the walk, or let it be over. -/
private theorem isOf_of_over {w' : Walk} {effects : List Effect} (hover : w'.isRunning = false)
    (heffects : effects.all Effect.isReport = true) (hstopping : w'.stopping = w.stopping) :
    (⟨r, w', effects⟩ : Turn).IsOf w := by
  have hreport (f : Effect) (hf : f ∈ effects) : ∃ record, f = .report record := by
    have hf' := List.all_eq_true.mp heffects f hf
    cases f <;> first | exact ⟨_, rfl⟩ | cases hf'
  constructor
  case sleeps_eq =>
    have hnone : sleepsIn effects = [] := by
      rw [sleepsIn, List.filterMap_eq_nil_iff]
      intro f hf
      obtain ⟨record, rfl⟩ := hreport f hf
      rfl
    have hawake : w'.isAsleep = false := by
      unfold isRunning at hover
      unfold isAsleep
      cases hphase : w'.phase <;> simp_all
    simp [hnone, naps, hawake]
  case about =>
    intro f hf p hp
    obtain ⟨record, rfl⟩ := hreport f hf
    cases hp
  case stopping_eq => exact hstopping
  case hasBegun =>
    intro hphase
    have hphase' : w'.phase = .scheduled := hphase
    simp [isRunning, hphase'] at hover

/-- Looking ahead makes a turn of the walk. -/
theorem lookAhead_isOf (w : Walk) (r : Registry) : (w.lookAhead r).IsOf w := by
  unfold lookAhead
  split
  · exact isOf_of_over rfl rfl rfl
  · exact isOf_of_over rfl rfl rfl
  · split
    · exact isOf_of_over rfl rfl rfl
    · refine ⟨rfl, ?_, rfl, by simp⟩
      intro f hf p hp
      obtain rfl := List.mem_singleton.mp hf
      exact (Option.some.inj hp).symm

/-- Observers are told without a delay between two states. -/
theorem sleepsIn_tell (w : Walk) (o : Observers) (n : Notice) (l : List Stage) :
    sleepsIn (w.tell o n l).2 = [] := by
  induction l with
  | nil => rfl
  | cons stage rest ih =>
    unfold tell
    split
    · exact ih
    · simpa using ih
    · simp [callbackFailed]
    · simp
    · simp

/-- Observers are told of the registration of the walk. -/
theorem about_tell (w : Walk) (o : Observers) (n : Notice) (l : List Stage) :
    ∀ f ∈ (w.tell o n l).2, ∀ p, f.about? = some p → p = w.serves := by
  have hcall (stage : Stage) (p : Value × Value) (hp : (w.call n stage).about? = some p) :
      p = w.serves := by
    cases stage <;> exact (Option.some.inj hp).symm
  induction l with
  | nil => simp [tell]
  | cons stage rest ih =>
    unfold tell
    split
    · exact ih
    · intro f hf p hp
      rcases List.mem_cons.mp hf with rfl | hf
      · exact hcall stage p hp
      · exact ih f hf p hp
    · intro f hf p hp
      rcases List.mem_cons.mp hf with rfl | hf
      · exact hcall stage p hp
      · obtain rfl := List.mem_singleton.mp hf
        cases hp
    · intro f hf p hp
      rcases List.mem_cons.mp hf with rfl | hf
      · exact hcall stage p hp
      · obtain rfl := List.mem_singleton.mp hf
        exact (Option.some.inj hp).symm
    · intro f hf p hp
      obtain rfl := List.mem_singleton.mp hf
      exact hcall stage p hp

/-- Going on after a notice makes a turn of the walk. -/
theorem proceed_isOf (w : Walk) (r : Registry) (n : Notice) (told : Telling) :
    (w.proceed r n told).IsOf w := by
  unfold proceed
  split
  · exact ⟨rfl, by simp, rfl, by simp⟩
  · exact isOf_of_over rfl rfl rfl
  · split
    · exact isOf_of_over rfl rfl rfl
    · exact w.lookAhead_isOf r

/-- Effects that ask for no delay between two states may be put in front. -/
theorem isOf_after {t : Turn} (h : t.IsOf w) {l : List Effect} (hl : sleepsIn l = [])
    (habout : ∀ f ∈ l, ∀ p, f.about? = some p → p = w.serves) : (t.after l).IsOf w where
  sleeps_eq := by
    rw [effects_after, sleepsIn_append, hl, List.nil_append]
    exact h.sleeps_eq
  about f hf := (List.mem_append.mp hf).elim (habout f) (h.about f)
  stopping_eq := h.stopping_eq
  hasBegun := h.hasBegun

/-- A report may be put in front. -/
theorem isOf_after_report {t : Turn} (h : t.IsOf w) (level : Level) (text : String) :
    (t.after [w.report level text]).IsOf w := by
  refine isOf_after h rfl ?_
  intro f hf p hp
  obtain rfl := List.mem_singleton.mp hf
  cases hp

/-- Notifying observers makes a turn of the walk. -/
theorem notify_isOf (w : Walk) (r : Registry) (o : Observers) (n : Notice) (l : List Stage) :
    (w.notify r o n l).IsOf w :=
  isOf_after (w.proceed_isOf r n _) (w.sleepsIn_tell o n l) (w.about_tell o n l)

/-- A step makes a turn of the walk. -/
theorem step_isOf (w : Walk) (r : Registry) (now : Float) (o : Observers) :
    (w.step r now o).IsOf w := by
  unfold step
  split
  · exact isOf_of_over rfl rfl rfl
  · exact isOf_of_over rfl rfl rfl
  · split
    · exact isOf_of_over rfl rfl rfl
    · rename_i state _
      obtain ⟨hsleeps, habout, hstopping, hbegun⟩ := isOf_after_report
        (notify_isOf { w with written := state } _ o _ _) .info _
      exact ⟨hsleeps, habout, hstopping, hbegun⟩

/-- Going on when an observer returns makes a turn of the walk. -/
theorem goOn_isOf (w : Walk) (r : Registry) (o : Observers) (rest : List Stage) (n : Notice) :
    (w.goOn r o rest n).IsOf w := by
  unfold goOn
  split
  · exact w.notify_isOf r o n rest
  · exact isOf_after_report (w.proceed_isOf r n .all) _ _
  · refine ⟨rfl, ?_, rfl, by simp⟩
    intro f hf p hp
    obtain rfl := List.mem_singleton.mp hf
    exact (Option.some.inj hp).symm
  · exact w.proceed_isOf r n .calledOff

/-- Whatever the walk waits for, it has a turn of its own. -/
theorem resume_isOf (w : Walk) (r : Registry) (now : Float) (o : Observers) :
    (w.resume r now o).IsOf w := by
  unfold resume
  cases hphase : w.phase with
  | scheduled => exact w.lookAhead_isOf r
  | asleep => exact w.step_isOf r now o
  | observing rest n => exact w.goOn_isOf r o rest n
  | ended | calledOff | failed => exact isOf_of_over (by simp [isRunning, hphase]) rfl rfl

/-- Being halted makes a turn of the walk. -/
theorem halt_isOf (w : Walk) (r : Registry) : (w.halt r).IsOf w := by
  unfold halt
  cases hphase : w.phase with
  | scheduled => exact isOf_of_over rfl rfl rfl
  | asleep => exact isOf_of_over rfl rfl rfl
  | observing rest n => exact isOf_of_over rfl rfl rfl
  | ended | calledOff | failed => exact isOf_of_over (by simp [isRunning, hphase]) rfl rfl

/-- Every turn of a walk is like this. -/
theorem turnWith_isOf (w : Walk) (heeding : Bool) (r : Registry) (now : Float) (o : Observers) :
    (w.turnWith heeding r now o).IsOf w := by
  rcases w.turnWith_eq heeding r now o with h | h
  · exact h ▸ w.halt_isOf r
  · exact h ▸ w.resume_isOf r now o

/-- A walk that is over stays so. -/
theorem turnWith_of_over (hover : w.isRunning = false) (heeding : Bool) (r : Registry)
    (now : Float) (o : Observers) : w.turnWith heeding r now o = ⟨r, w, []⟩ := by
  unfold isRunning at hover
  rcases w.turnWith_eq heeding r now o with h | h
  · rw [h, halt]
    cases hphase : w.phase <;> simp_all
  · rw [h, resume]
    cases hphase : w.phase <;> simp_all

end Every

section Live

variable {s : Session} {state : State}

/-- A walk that has looked ahead stands at the state of its session. -/
theorem lookAhead_standsAt (hlive : r.live? w.address w.generation = .ok (some s))
    (hstate : s.state = .state state) : (w.lookAhead r).walk.StandsAt state := by
  unfold lookAhead
  rw [hlive]
  by_cases hestablished : s.isEstablished = true
  · have hlast : state = .established := (Session.isEstablished_of_state hstate).mp hestablished
    simp only [hestablished, if_true]
    exact Or.inr hlast
  · have hfirst : state ≠ .established := fun h =>
      hestablished ((Session.isEstablished_of_state hstate).mpr h)
    simp only [hestablished]
    exact hfirst

/-- A walk that has gone on after a notice stands at the state told. -/
theorem proceed_standsAt (hlive : r.live? w.address w.generation = .ok (some s))
    (hstate : s.state = .state state) {n : Notice} (hnew : n.new = state)
    (told : Telling) : (w.proceed r n told).walk.StandsAt state := by
  unfold proceed
  split
  · exact hnew
  · trivial
  · split
    · rename_i hlast
      exact Or.inr (hnew.symm.trans hlast)
    · exact lookAhead_standsAt hlive hstate

/-- A walk that has gone on when an observer returned stands at the state told. -/
theorem goOn_standsAt (hlive : r.live? w.address w.generation = .ok (some s))
    (hstate : s.state = .state state) {n : Notice} (hnew : n.new = state) (o : Observers)
    (rest : List Stage) : (w.goOn r o rest n).walk.StandsAt state := by
  unfold goOn
  split
  · exact proceed_standsAt hlive hstate hnew _
  · exact proceed_standsAt hlive hstate hnew .all
  · exact hnew
  · exact proceed_standsAt hlive hstate hnew .calledOff

/-- A walk that wakes up moves its session to the next state, and stands there. -/
theorem step_attends (hlive : r.live? w.address w.generation = .ok (some s))
    (hwritten : ∀ s', (r.setSession w.address s').live? w.address w.generation = .ok (some s'))
    (hstate : s.state = .state state) (hcounts : s.CountsNumbers) (hasleep : w.isAsleep = true)
    (hleft : state ≠ .established) (heeding : Bool) (now : Float) (o : Observers) :
    ∃ state', (w.step r now o).Attends w heeding r now s state state' ∧
      (w.step r now o).walk.StandsAt state' := by
  obtain ⟨next, hnext⟩ := State.exists_next hleft
  have hadvance : (s.advance now).2 = .ok next :=
    hcounts.advance_eq_ok ((Session.next?_of_state hstate).trans (congrArg _ hnext)) now
  obtain ⟨hmoved, _⟩ := Session.advance_of_next hstate hnext now
  refine ⟨next, .moves hasleep hnext hadvance ?_, ?_⟩
  all_goals
    unfold step
    rw [hlive]
    rcases hpair : s.advance now with ⟨moved, result⟩
    rw [hpair] at hadvance hmoved
    obtain rfl : result = .ok next := hadvance
  · simp only [hpair, registry_after, notify_registry]
  · simp only [hpair]
    exact proceed_standsAt (w := { w with written := next }) (hwritten moved) hmoved rfl _

/-- A turn of a walk whose registration is live attends to the session, and leaves the walk standing
at its state. -/
theorem turnWith_attends (hlive : r.live? w.address w.generation = .ok (some s))
    (hwritten : ∀ s', (r.setSession w.address s').live? w.address w.generation = .ok (some s'))
    (hstate : s.state = .state state) (hcounts : s.CountsNumbers) (hstands : w.StandsAt state)
    (heeding : Bool) (now : Float) (o : Observers) :
    ∃ state', (w.turnWith heeding r now o).Attends w heeding r now s state state' ∧
      (w.turnWith heeding r now o).walk.StandsAt state' := by
  cases hheeded : heeding && w.stopping with
  | true =>
    rw [turnWith_of_heeded hheeded]
    obtain ⟨_, hstopping⟩ := Bool.and_eq_true_iff.mp hheeded
    refine ⟨state, .stays (w.halt_quiet r).registry_eq fun _ => hheeded, ?_⟩
    unfold halt
    cases hphase : w.phase with
    | scheduled | asleep | observing => exact Or.inl hstopping
    | ended | calledOff | failed => exact hstands
  | false =>
    rw [turnWith_of_unheeded hheeded]
    unfold resume
    unfold StandsAt at hstands
    cases hphase : w.phase with
    | scheduled =>
      refine ⟨state, .stays (w.lookAhead_quiet r).registry_eq ?_, lookAhead_standsAt hlive hstate⟩
      simp [isAsleep, hphase]
    | asleep =>
      rw [hphase] at hstands
      exact step_attends hlive hwritten hstate hcounts (by simp [isAsleep, hphase]) hstands _ now o
    | observing rest n =>
      rw [hphase] at hstands
      refine ⟨state, .stays (w.goOn_registry r o rest n) ?_,
        goOn_standsAt hlive hstate hstands o rest⟩
      simp [isAsleep, hphase]
    | ended | calledOff =>
      refine ⟨state, .stays rfl (by simp [isAsleep, hphase]), ?_⟩
      rw [hphase] at hstands
      rw [StandsAt, hphase]
      exact hstands
    | failed f =>
      rw [hphase] at hstands
      exact hstands.elim

end Live

section Prompt

/-- Of observers that ask for no delay none is left for later. -/
theorem tell_of_isPrompt (ho : o.isPrompt = true) (w : Walk) (n : Notice) (l rest : List Stage) :
    (w.tell o n l).1 ≠ .upTo rest := by
  simp only [Observers.isPrompt, Bool.not_eq_true', Bool.or_eq_false_iff] at ho
  obtain ⟨⟨hchange, hestablished⟩, _⟩ := ho
  induction l with
  | nil => simp [tell]
  | cons stage later ih =>
    unfold tell
    split
    · exact ih
    · exact ih
    · simp
    · rename_i seconds hreply
      cases stage with
      | stateChange =>
        rw [show o.stateChange = some (.suspended seconds) from hreply] at hchange
        cases hchange
      | established =>
        rw [show o.established = some (.suspended seconds) from hreply] at hestablished
        cases hestablished
    · simp

/-- A walk that has looked ahead has no observer to wait for. -/
theorem isObserving_lookAhead (w : Walk) (r : Registry) :
    (w.lookAhead r).walk.isObserving = false := by
  unfold lookAhead
  split
  · rfl
  · rfl
  · split <;> rfl

/-- A walk whose observers have all returned has none to wait for. -/
theorem isObserving_proceed (w : Walk) (r : Registry) (n : Notice) {told : Telling}
    (htold : ∀ rest, told ≠ .upTo rest) : (w.proceed r n told).walk.isObserving = false := by
  unfold proceed
  split
  · exact absurd rfl (htold _)
  · rfl
  · split
    · rfl
    · exact w.isObserving_lookAhead r

/-- Observers that do not wait are not waited for. -/
theorem isObserving_notify (ho : o.isPrompt = true) (w : Walk) (r : Registry) (n : Notice)
    (l : List Stage) : (w.notify r o n l).walk.isObserving = false :=
  w.isObserving_proceed r n (tell_of_isPrompt ho w n l)

/-- After a turn in which no observer asks for a delay, the walk waits for none. -/
theorem isObserving_turnWith (ho : o.isPrompt = true) (w : Walk) (heeding : Bool) (r : Registry)
    (now : Float) : (w.turnWith heeding r now o).walk.isObserving = false := by
  rcases w.turnWith_eq heeding r now o with h | h
  · rw [h, halt]
    cases hphase : w.phase with
    | scheduled | asleep | observing => rfl
    | ended | calledOff | failed => simp [isObserving, hphase]
  rw [h, resume]
  cases hphase : w.phase with
  | scheduled => exact w.isObserving_lookAhead r
  | asleep =>
    simp only [step]
    split
    · rfl
    · rfl
    · split
      · rfl
      · exact isObserving_notify ho _ _ _ _
  | observing rest n =>
    simp only [goOn]
    split
    · exact isObserving_notify ho w r n rest
    · exact w.isObserving_proceed r n nofun
    · rename_i seconds hresumed
      simp [Observers.isPrompt, hresumed, Reply.isSuspended] at ho
    · exact w.isObserving_proceed r n nofun
  | ended | calledOff | failed => simp [isObserving, hphase]

end Prompt

section CalledOff

/-- A walk that has been called off is over. -/
theorem isRunning_of_isCalledOff (h : w.isCalledOff = true) : w.isRunning = false := by
  unfold isCalledOff at h
  unfold isRunning
  cases hphase : w.phase with
  | ended | calledOff | failed => rfl
  | scheduled | asleep | observing =>
    rw [hphase] at h
    cases h

/-- Observers call a walk off only with the cancellation error. -/
theorem cancels_of_tell {n : Notice} {l : List Stage} (h : (w.tell o n l).1 = .calledOff) :
    o.cancels = true := by
  induction l with
  | nil => cases h
  | cons stage rest ih =>
    unfold tell at h
    split at h
    · exact ih h
    · exact ih h
    · cases h
    · cases h
    · rename_i hreply
      cases stage with
      | stateChange =>
        have hchange : o.stateChange = some .cancelled := hreply
        simp [Observers.cancels, hchange, Reply.isCancelled]
      | established =>
        have hestablished : o.established = some .cancelled := hreply
        simp [Observers.cancels, hestablished, Reply.isCancelled]

/-- Looking ahead calls no walk off. -/
theorem isCalledOff_lookAhead (w : Walk) (r : Registry) :
    (w.lookAhead r).walk.isCalledOff = false := by
  unfold lookAhead
  split
  · rfl
  · rfl
  · split <;> rfl

/-- After the observers have been told, a walk is called off only if they have called it off. -/
theorem told_of_isCalledOff {n : Notice} {told : Telling}
    (h : (w.proceed r n told).walk.isCalledOff = true) : told = .calledOff := by
  unfold proceed at h
  split at h
  · cases h
  · rfl
  · split at h
    · cases h
    · rw [isCalledOff_lookAhead] at h
      cases h

/-- A walk is called off only in a turn in which an observer raises the cancellation error. -/
theorem cancels_of_turnWith (h : (w.turnWith heeding r now o).walk.isCalledOff = true)
    (hbefore : w.isCalledOff = false) : o.cancels = true := by
  rcases w.turnWith_eq heeding r now o with hturn | hturn
  · rw [hturn, halt] at h
    cases hphase : w.phase with
    | scheduled | asleep | observing =>
      rw [hphase] at h
      cases h
    | ended | calledOff | failed =>
      rw [hphase] at h
      exact absurd h (Bool.eq_false_iff.mp hbefore)
  rw [hturn, resume] at h
  cases hphase : w.phase with
  | scheduled =>
    rw [hphase] at h
    exact absurd h (Bool.eq_false_iff.mp (w.isCalledOff_lookAhead r))
  | asleep =>
    simp only [hphase, step] at h
    split at h
    · cases h
    · cases h
    · split at h
      · cases h
      · exact cancels_of_tell (told_of_isCalledOff h)
  | observing rest n =>
    simp only [hphase, goOn] at h
    split at h
    · exact cancels_of_tell (told_of_isCalledOff h)
    · cases told_of_isCalledOff h
    · cases h
    · rename_i hresumed
      simp [Observers.cancels, hresumed, Reply.isCancelled]
  | ended | calledOff | failed =>
    rw [hphase] at h
    exact absurd h (Bool.eq_false_iff.mp hbefore)

/-- A walk that has been called off stays so. -/
theorem isCalledOff_turnWith (h : w.isCalledOff = true) (heeding : Bool) (r : Registry)
    (now : Float) (o : Observers) : (w.turnWith heeding r now o).walk.isCalledOff = true := by
  rw [turnWith_of_over (isRunning_of_isCalledOff h)]
  exact h

end CalledOff

section Gone

variable (hgone : r.live? w.address w.generation = .ok none)

include hgone

/-- A walk of a registration that is gone is over once it looks ahead, with nothing but reports. -/
theorem lookAhead_of_gone : (w.lookAhead r).walk.isRunning = false ∧
    (w.lookAhead r).effects.all Effect.isReport = true := by
  unfold lookAhead
  rw [hgone]
  exact ⟨rfl, rfl⟩

/-- A walk of a registration that is gone does not fall asleep. -/
theorem isAsleep_proceed_of_gone (n : Notice) (told : Telling) :
    (w.proceed r n told).walk.isAsleep = false := by
  unfold proceed
  split
  · rfl
  · rfl
  · split
    · rfl
    · unfold lookAhead
      rw [hgone]
      rfl

/-- A walk whose registration is gone does not fall asleep. -/
theorem isAsleep_turnWith_of_gone (heeding : Bool) (now : Float) (o : Observers) :
    (w.turnWith heeding r now o).walk.isAsleep = false := by
  rcases w.turnWith_eq heeding r now o with h | h
  · rw [h, halt]
    cases hphase : w.phase with
    | scheduled | asleep | observing => rfl
    | ended | calledOff | failed => simp [isAsleep, hphase]
  rw [h, resume]
  cases hphase : w.phase with
  | scheduled =>
    simp only [lookAhead, hgone]
    rfl
  | asleep =>
    simp only [step, hgone]
    rfl
  | observing rest n =>
    simp only [goOn]
    split
    · exact isAsleep_proceed_of_gone hgone n _
    · exact isAsleep_proceed_of_gone hgone n .all
    · rfl
    · exact isAsleep_proceed_of_gone hgone n .calledOff
  | ended | calledOff | failed => simp [isAsleep, hphase]

/-- A walk whose registration is gone ends at its next turn and only reports this, unless it waits
for an observer and no cancellation reaches it. -/
theorem turnWith_of_gone (hfree : (heeding && w.stopping) = true ∨ w.isObserving = false)
    (now : Float) (o : Observers) :
    (w.turnWith heeding r now o).walk.isRunning = false ∧
      (w.turnWith heeding r now o).effects.all Effect.isReport = true := by
  cases hheeded : heeding && w.stopping with
  | true =>
    rw [turnWith_of_heeded hheeded, halt]
    cases hphase : w.phase with
    | scheduled | asleep | observing => exact ⟨rfl, rfl⟩
    | ended | calledOff | failed => exact ⟨by simp [isRunning, hphase], rfl⟩
  | false =>
    rw [turnWith_of_unheeded hheeded, resume]
    cases hphase : w.phase with
    | scheduled => exact lookAhead_of_gone hgone
    | asleep =>
      simp only [step, hgone]
      exact ⟨rfl, rfl⟩
    | observing rest n => simp [hheeded, isObserving, hphase] at hfree
    | ended | calledOff | failed => exact ⟨by simp [isRunning, hphase], rfl⟩

end Gone

end Walk

end Peering
