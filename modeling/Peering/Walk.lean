import Peering.Effect
import Peering.Registry

/-!
# Walks

A walk takes one registration through the states. Before each step it sleeps for
the delay, and right before it writes the next state it makes sure that its
registration is still the live one; then it tells the observers. An observer that
fails is reported, and the walk goes on; only the cancellation error ends it. A walk
runs in turns: a turn ends where the walk waits for a delay, or ends.
-/

namespace Peering

/-- The observers that a walk tells, in this order. -/
inductive Stage where
  | stateChange
  | established
  deriving DecidableEq

/-- A state change of which the observers are told. -/
structure Notice where
  /-- The state before. -/
  old : StateCode
  /-- The state after. -/
  new : State
  deriving DecidableEq

/-- How far the observers have been told of a change. -/
inductive Telling where
  /-- There is nothing more to tell them. -/
  | all
  /-- One is suspended, and these come after it. -/
  | upTo (rest : List Stage)
  /-- One has raised the cancellation error, and those after it are not told. -/
  | calledOff
  deriving DecidableEq

/-- Where a walk stands between two turns. -/
inductive Phase where
  /-- It has not had a turn yet. -/
  | scheduled
  /-- It sleeps between two states. -/
  | asleep
  /-- An observer is suspended, and the observers that follow have not been told yet. -/
  | observing (rest : List Stage) (notice : Notice)
  /-- It is over. -/
  | ended
  /-- It is over because an observer that it called has raised the cancellation error. -/
  | calledOff
  /-- Its registration could not be looked up or its session not be advanced, which ended it. -/
  | failed (f : Failure)

/-- A walk for one registration. -/
structure Walk where
  /-- The address of the registration. -/
  address : Value
  /-- The generation of the registration. -/
  generation : Value
  /-- The delay between two states, in seconds. -/
  delay : Float
  /-- Where the walk stands. -/
  phase : Phase := .scheduled
  /-- The last state that the walk has written. -/
  written : State := .idle
  /-- Its cancellation has been requested. -/
  stopping : Bool := false

/-- What a turn leaves behind. -/
structure Turn where
  /-- The registry after the turn. -/
  registry : Registry
  /-- The walk after the turn. -/
  walk : Walk
  /-- What was done, in order. -/
  effects : List Effect

/-- A turn with effects put in front. -/
def Turn.after (t : Turn) (effects : List Effect) : Turn :=
  { t with effects := effects ++ t.effects }

namespace Walk

/-- The walk is not over. -/
def isRunning (w : Walk) : Bool :=
  match w.phase with
  | .ended | .calledOff | .failed _ => false
  | .scheduled | .asleep | .observing _ _ => true

/-- The failure that ended the walk. -/
def failure? (w : Walk) : Option Failure :=
  match w.phase with
  | .failed f => some f
  | _ => none

/-- The walk in words. -/
def describe (w : Walk) : String :=
  "EstablishmentFSM(address=" ++ w.address.plain ++ ", generation=" ++ w.generation.plain ++
    ", state=" ++ w.written.name ++ ")"

/-- A report by the walk. -/
def report (w : Walk) (level : Level) (text : String) : Effect :=
  .report ⟨level, "EstablishmentFSM[" ++ w.address.plain ++ "]", text⟩

/-- The walk with nothing more to do. -/
def finish (w : Walk) : Walk := { w with phase := .ended }

/-- The walk ended by the cancellation error of an observer. -/
def callOff (w : Walk) : Walk := { w with phase := .calledOff }

/-- The walk ended by a failure. -/
def fail (w : Walk) (f : Failure) : Walk := { w with phase := .failed f }

/-- The walk from its start again, with what it has written kept in mind. -/
def restart (w : Walk) : Walk := { w with phase := .scheduled, stopping := false }

/-- Falls asleep before the next step, unless the registration is gone or its session is
established. -/
def lookAhead (w : Walk) (r : Registry) : Turn :=
  match r.live? w.address w.generation with
  | .error f => ⟨r, w.fail f, []⟩
  | .ok none => ⟨r, w.finish, [w.report .debug
      ("Peer gone before next step (generation " ++ w.generation.plain ++ "), exiting")]⟩
  | .ok (some session) =>
    if session.isEstablished then ⟨r, w.finish, []⟩
    else ⟨r, { w with phase := .asleep }, [.sleep w.address w.generation w.delay]⟩

/-- The observers that are told of a new state. -/
def stages (new : State) : List Stage :=
  if new = .established then [.stateChange, .established] else [.stateChange]

/-- The call of an observer. -/
def call (w : Walk) (n : Notice) : Stage → Effect
  | .stateChange => .changed w.address w.generation n.old n.new
  | .established => .established w.address w.generation

/-- What an observer does when it is called, if it is set. -/
def reply? (o : Observers) : Stage → Option Reply
  | .stateChange => o.stateChange
  | .established => o.established

/-- The report of an observer that failed. -/
def callbackFailed (w : Walk) (message : String) : Effect :=
  w.report .error ("State change callback error: " ++ message)

/-- The report of a walk that has been cancelled. -/
def cancelledReport (w : Walk) : Effect := w.report .debug ("Walk cancelled in " ++ w.written.name)

/-- Tells the observers one after the other. One that fails is reported, and those after it
are not told; one that suspends leaves those after it for later. The cancellation error is not
taken for a failure of the observer. -/
def tell (w : Walk) (o : Observers) (n : Notice) : List Stage → Telling × List Effect
  | [] => (.all, [])
  | stage :: rest =>
    match reply? o stage with
    | none => tell w o n rest
    | some .returned =>
      let (told, effects) := tell w o n rest
      (told, w.call n stage :: effects)
    | some (.raised message) => (.all, [w.call n stage, w.callbackFailed message])
    | some (.suspended seconds) =>
      (.upTo rest, [w.call n stage, .pause w.address w.generation seconds])
    | some .cancelled => (.calledOff, [w.call n stage])

/-- Goes on after the observers have been told, waits for one of them, or ends because one of them
has raised the cancellation error. -/
def proceed (w : Walk) (r : Registry) (n : Notice) : Telling → Turn
  | .upTo rest => ⟨r, { w with phase := .observing rest n }, []⟩
  | .calledOff => ⟨r, w.callOff, [w.cancelledReport]⟩
  | .all => if n.new = .established then ⟨r, w.finish, []⟩ else w.lookAhead r

/-- Tells observers of a change and proceeds. -/
def notify (w : Walk) (r : Registry) (o : Observers) (n : Notice) (stages : List Stage) : Turn :=
  let (told, effects) := w.tell o n stages
  (w.proceed r n told).after effects

/-- Wakes up and writes the next state, unless the registration is gone. -/
def step (w : Walk) (r : Registry) (now : Float) (o : Observers) : Turn :=
  match r.live? w.address w.generation with
  | .error f => ⟨r, w.fail f, []⟩
  | .ok none => ⟨r, w.finish, [w.report .debug
      ("Peer removed mid-walk (generation " ++ w.generation.plain ++ "), dropping " ++
        w.written.name ++ " -> next write")]⟩
  | .ok (some session) =>
    match session.advance now with
    | (moved, .error f) => ⟨r.setSession w.address moved, w.fail f, []⟩
    | (moved, .ok state) =>
      let w := { w with written := state }
      let n : Notice := ⟨session.state, state⟩
      (w.notify (r.setSession w.address moved) o n (stages state)).after
        [w.report .info ("State transition: " ++ n.old.name ++ " -> " ++ state.name)]

/-- Goes on with the observers after the delay of one of them. -/
def goOn (w : Walk) (r : Registry) (o : Observers) (rest : List Stage) (n : Notice) : Turn :=
  match o.resumed with
  | .returned => w.notify r o n rest
  | .raised message => (w.proceed r n .all).after [w.callbackFailed message]
  | .suspended seconds =>
    ⟨r, { w with phase := .observing rest n }, [.pause w.address w.generation seconds]⟩
  | .cancelled => w.proceed r n .calledOff

/-- One turn of a walk that does not know of a cancellation. -/
def resume (w : Walk) (r : Registry) (now : Float) (o : Observers) : Turn :=
  match w.phase with
  | .scheduled => w.lookAhead r
  | .asleep => w.step r now o
  | .observing rest n => w.goOn r o rest n
  | .ended | .calledOff | .failed _ => ⟨r, w, []⟩

/-- Ends a walk that has been cancelled. One that never had a turn leaves no trace. -/
def halt (w : Walk) (r : Registry) : Turn :=
  match w.phase with
  | .scheduled => ⟨r, w.finish, []⟩
  | .asleep | .observing _ _ => ⟨r, w.finish, [w.cancelledReport]⟩
  | .ended | .calledOff | .failed _ => ⟨r, w, []⟩

/-- One turn of a walk. -/
def turn (w : Walk) (r : Registry) (now : Float) (o : Observers) : Turn :=
  if w.stopping then w.halt r else w.resume r now o

end Walk

end Peering
