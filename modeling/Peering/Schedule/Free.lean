import Peering.Engine.Call

/-!
# The free schedule

A schedule that decides nothing. At any moment a caller may perform a call, any walk may get a
turn, whether or not its cancellation has been requested, or the engine may be closed; each of
these runs without interruption.
-/

namespace Peering

/-- What can happen to an engine without interruption. -/
inductive Move where
  /-- A caller performs a call. -/
  | call (c : Call)
  /-- The walk with a number gets a turn. A pending cancellation of it either reaches it at this
  turn or does not. -/
  | turn (i : Nat) (o : Observers) (heeding : Bool)
  /-- The engine begins to close. -/
  | close

/-- A move and what the clock shows meanwhile. -/
structure Moment where
  /-- What happens. -/
  move : Move
  /-- What the clock shows. -/
  now : Float

namespace Engine

/-- Gives a walk a turn which a pending cancellation reaches or does not reach. -/
def turnOf (e : Engine) (i : Nat) (now : Float) (o : Observers) (heeding : Bool) :
    Engine × List Effect :=
  let (roster, effects) :=
    if heeding then e.toRoster.turn i now o else e.toRoster.turnUnheeding i now o
  (e.withRoster roster, effects)

/-- What a moment leaves behind. Only a call has an answer of its own. -/
def meet (e : Engine) (m : Moment) : Outcome Answer :=
  match m.move with
  | .call c => c.perform e m.now
  | .turn i o heeding =>
    let (engine, effects) := e.turnOf i m.now o heeding
    ⟨engine, effects, .ok .done⟩
  | .close =>
    let (engine, effects) := e.close
    ⟨engine, effects, .ok .done⟩

/-- A call is performed at its moment. -/
theorem meet_call {e : Engine} {m : Moment} {c : Call} (hmove : m.move = .call c) :
    e.meet m = c.perform e m.now := by
  simp only [meet, hmove]

/-- A turn of a walk is had at its moment. -/
theorem meet_turn {e : Engine} {m : Moment} {i : Nat} {o : Observers} {heeding : Bool}
    (hmove : m.move = .turn i o heeding) :
    e.meet m = ⟨(e.turnOf i m.now o heeding).1, (e.turnOf i m.now o heeding).2, .ok .done⟩ := by
  simp only [meet, hmove]

/-- The engine is closed at that moment. -/
theorem meet_close {e : Engine} {m : Moment} (hmove : m.move = .close) :
    e.meet m = ⟨e.close.1, e.close.2, .ok .done⟩ := by
  simp only [meet, hmove]

/-- The engine after a moment. -/
def after (e : Engine) (m : Moment) : Engine := (e.meet m).engine

/-- The engine after a call is the one that the call leaves. -/
theorem after_call {e : Engine} {m : Moment} {c : Call} (hmove : m.move = .call c) :
    e.after m = (c.perform e m.now).engine := by
  rw [after, meet_call hmove]

/-- The engine after a turn is the one that the turn leaves. -/
theorem after_turn {e : Engine} {m : Moment} {i : Nat} {o : Observers} {heeding : Bool}
    (hmove : m.move = .turn i o heeding) : e.after m = (e.turnOf i m.now o heeding).1 := by
  rw [after, meet_turn hmove]

/-- The engine after a closing is the closed one. -/
theorem after_close {e : Engine} {m : Moment} (hmove : m.move = .close) :
    e.after m = e.close.1 := by
  rw [after, meet_close hmove]

/-- The engine after several moments. -/
def run (e : Engine) (ms : List Moment) : Engine := ms.foldl after e

/-- An engine on which nothing has happened yet. Its fault switch may have been in use before. -/
structure IsNew (e : Engine) : Prop where
  registry_eq : e.registry = {}
  walks_eq : e.walks = []
  walkOf_eq : e.walkOf = []
  nextGeneration_eq : e.nextGeneration = 1

/-- The engine comes out of a new one in some run. -/
def Reachable (e : Engine) : Prop := ∃ new ms, IsNew new ∧ new.run ms = e

/-- An engine that has been made is new. -/
theorem isNew_of_create {stateDelay : Float} {routerAsn faults : Value} {e : Engine}
    (he : create stateDelay routerAsn faults = .ok e) : e.IsNew := by
  unfold create at he
  split at he
  · cases he
  · obtain rfl := Except.ok.inj he
    exact ⟨rfl, rfl, rfl, rfl⟩

/-- A run of two parts is the second part after the first. -/
theorem run_append (e : Engine) (ms ns : List Moment) :
    e.run (ms ++ ns) = (e.run ms).run ns := List.foldl_append

/-- A run of one more moment is this moment after the run. -/
theorem run_concat (e : Engine) (ms : List Moment) (m : Moment) :
    e.run (ms ++ [m]) = (e.run ms).after m := e.run_append ms [m]

section Gathering

variable {α β : Type}

/-- What is gathered along a run, moment by moment. -/
def gather (f : Engine → Moment → List α) (e : Engine) : List Moment → List α
  | [] => []
  | m :: ms => f e m ++ (e.after m).gather f ms

/-- Nothing is gathered along an empty run. -/
@[simp] theorem gather_nil (f : Engine → Moment → List α) (e : Engine) : e.gather f [] = [] := rfl

/-- What the first moment gives comes first. -/
@[simp] theorem gather_cons (f : Engine → Moment → List α) (e : Engine) (m : Moment)
    (ms : List Moment) : e.gather f (m :: ms) = f e m ++ (e.after m).gather f ms := rfl

/-- What one moment gives is gathered along it. -/
theorem gather_singleton (f : Engine → Moment → List α) (e : Engine) (m : Moment) :
    e.gather f [m] = f e m := List.append_nil _

/-- What the first part of a run gives comes first. -/
theorem gather_append (f : Engine → Moment → List α) (e : Engine) (ms ns : List Moment) :
    e.gather f (ms ++ ns) = e.gather f ms ++ (e.run ms).gather f ns := by
  induction ms generalizing e with
  | nil => rfl
  | cons m ms ih =>
    rw [List.cons_append, gather_cons, gather_cons, ih, List.append_assoc]
    rfl

/-- What the last moment gives comes last. -/
theorem gather_concat (f : Engine → Moment → List α) (e : Engine) (ms : List Moment) (m : Moment) :
    e.gather f (ms ++ [m]) = e.gather f ms ++ f (e.run ms) m := by
  rw [gather_append, gather_singleton]

end Gathering

/-- What holds at first and is kept at every moment holds after every run. -/
theorem run_invariant {P : Engine → Prop} (hstep : ∀ e m, P e → P (e.after m)) {e : Engine}
    (he : P e) (ms : List Moment) : P (e.run ms) := by
  induction ms generalizing e with
  | nil => exact he
  | cons m ms ih => exact ih (hstep e m he)

/-- A new engine has come out of an empty run. -/
theorem IsNew.reachable {e : Engine} (he : e.IsNew) : e.Reachable := ⟨e, [], he, rfl⟩

/-- An engine that is reached stays so. -/
theorem Reachable.run {e : Engine} (he : e.Reachable) (ms : List Moment) :
    (e.run ms).Reachable := by
  obtain ⟨new, before, hnew, rfl⟩ := he
  exact ⟨new, before ++ ms, hnew, new.run_append before ms⟩

/-- What holds of new engines and is kept at every moment holds of all that are reached. -/
theorem Reachable.induction {P : Engine → Prop} (hnew : ∀ e, IsNew e → P e)
    (hstep : ∀ e m, P e → P (e.after m)) {e : Engine} (he : e.Reachable) : P e := by
  obtain ⟨new, ms, hnew', rfl⟩ := he
  exact run_invariant hstep (hnew new hnew') ms

end Engine

end Peering
