import Peering.Schedule.Station
import Peering.Schedule.Timers

/-!
# The timed schedule

A schedule on a virtual clock. Whoever can go on stands in a queue, and whoever waits
for a delay has a timer. The schedule goes in rounds: timers that are due join the
queue, and then all who stood in it when the round began take their turns. Only when
nobody can go on does the time jump, to the timer that is due first. Besides the walks,
the loops of the monitor and the caller take their turns.
-/

namespace Peering

/-- Someone who takes turns. -/
inductive Party where
  | walk (i : Nat)
  /-- A loop of the monitor. -/
  | poller (i : Nat)
  | caller
  deriving DecidableEq

/-- What stands in the queue. -/
inductive Entry where
  /-- Someone takes a turn. -/
  | turn (who : Party)
  /-- The waiting of someone is over, who then joins the queue. -/
  | wakeUp (who : Party)
  /-- A waiting that has been broken off would be over. -/
  | idle
  deriving DecidableEq

/-- Where a loop of the monitor stands. -/
inductive LoopPhase where
  /-- It has not had a turn yet. -/
  | scheduled
  /-- It sleeps between two polls. -/
  | asleep
  /-- Its cancellation has been requested. -/
  | stopping
  /-- It is over. -/
  | over
  deriving DecidableEq

/-- A station under the timed schedule. -/
structure Timed extends Station where
  /-- What the clock of the engine shows at a time. -/
  clockAt : Float → Float
  /-- The seconds between two polls of the monitor. -/
  interval : Float := 1.0
  /-- The time. -/
  time : Float := 0.0
  /-- The queue, next one first. -/
  queue : List Entry := []
  /-- How many of the queue have their turn in this round. -/
  left : Nat := 0
  /-- The timers of those who wait. -/
  timers : Timers Party := #[]
  /-- The loops of the monitor, in the order in which they were started. -/
  loops : List LoopPhase := []
  /-- The loops of the monitor go on when they wake up. -/
  polling : Bool := false

namespace Timed

/-- What the clock of the engine shows. -/
def clock (s : Timed) : Float := s.clockAt s.time

/-- Puts an entry at the end of the queue. -/
def enqueue (s : Timed) (e : Entry) : Timed := { s with queue := s.queue ++ [e] }

/-- Lets someone wait for a delay. One that is not above zero only costs the place in the
queue. -/
def delay (s : Timed) (who : Party) (seconds : Float) : Timed :=
  if seconds ≤ 0.0 then s.enqueue (.turn who)
  else { s with timers := s.timers.insert ⟨s.time + seconds, some who⟩ }

/-- Someone waits for a timer, or for the end of a waiting that is over. -/
def isWaiting (s : Timed) (who : Party) : Bool :=
  s.queue.contains (.wakeUp who) || s.timers.any (fun t => t.owner == some who)

/-- Wakes someone up before the timer is due. -/
def wake (s : Timed) (who : Party) : Timed :=
  if s.isWaiting who then
    { s with
      timers := s.timers.release who
      queue := s.queue.map (fun e => if e = .wakeUp who then .idle else e) ++ [.turn who] }
  else s

/-- Acts on an effect: a walk that is started joins the queue, and one that is cancelled
wakes up. -/
def note (s : Timed) : Effect → Timed
  | .started i => s.enqueue (.turn (.walk i))
  | .cancelled i => s.wake (.walk i)
  | _ => s

/-- Gives a walk a turn. -/
def runWalk (s : Timed) (i : Nat) : Timed :=
  let (station, effects) := s.toStation.walkTurn i s.clock
  let s := { s with toStation := station }
  match effects.findSome? Effect.delay? with
  | some seconds => s.delay (.walk i) seconds
  | none => s

/-- Notes where a loop of the monitor stands. -/
def setLoop (s : Timed) (i : Nat) (phase : LoopPhase) : Timed :=
  { s with loops := s.loops.set i phase }

/-- A poll in a loop, whose failure is only reported, and then the interval. The cancellation error
of a callback ends the loop. -/
def pollAndSleep (s : Timed) (i : Nat) : Timed :=
  let isCancelled := (s.monitor.poll s.engine s.clock s.onEvent).isCancelled
  let (station, result) := s.toStation.poll s.clock
  if isCancelled then { s with toStation := station }.setLoop i .over
  else
    let station := match result with
      | .ok _ => station
      | .error f => station.record [Monitor.report .error ("Monitor loop error: " ++ f.text)]
    ({ s with toStation := station }.setLoop i .asleep).delay (.poller i) s.interval

/-- Gives a loop of the monitor a turn. At its first turn it makes all loops go on. -/
def runLoop (s : Timed) (i : Nat) : Timed :=
  match s.loops[i]? with
  | some .scheduled => { s with polling := true }.pollAndSleep i
  | some .asleep => if s.polling then s.pollAndSleep i else s.setLoop i .over
  | some .stopping => s.setLoop i .over
  | some .over | none => s

/-- Acts on an entry of the queue. The caller's turn is not the schedule's business. -/
def run (s : Timed) : Entry → Timed
  | .turn (.walk i) => s.runWalk i
  | .turn (.poller i) => s.runLoop i
  | .turn .caller => s
  | .wakeUp who => s.enqueue (.turn who)
  | .idle => s

/-- Timers that are due within this many seconds are due now. -/
def resolution : Float := 1e-9

/-- What a timer that is due puts into the queue. -/
def entryOf (t : Timer Party) : Entry := (t.owner.map Entry.wakeUp).getD .idle

/-- The time of the next round: the present one if somebody can go on, and otherwise that of the
first timer. -/
def nextTime? (s : Timed) : Option Float :=
  if s.queue.isEmpty then s.timers[0]?.map fun t => if s.time ≤ t.due then t.due else s.time
  else some s.time

/-- Begins a round, unless nothing is left to do: timers that are due join the queue. -/
def beginRound? (s : Timed) : Option Timed := do
  let s := { s with timers := s.timers.dropIdle }
  let time ← s.nextTime?
  let (timers, due) := s.timers.takeDue time (time + resolution)
  let queue := s.queue ++ due.map entryOf
  if queue.isEmpty then none else return { s with time, timers, queue, left := queue.length }

/-- One move of the schedule, if there is one: the next entry of a round, or a new round. -/
def move? (s : Timed) : Option Timed :=
  match s.left, s.queue with
  | left + 1, e :: rest => some ({ s with queue := rest, left }.run e)
  | _, _ => s.beginRound?

/-- Moves on until a condition holds, nothing is left to do, or `n` moves have been made. -/
def driveFor (stop : Timed → Bool) : Nat → Timed → Timed
  | 0, s => s
  | n + 1, s =>
    if stop s then s
    else match s.move? with
      | some s => driveFor stop n s
      | none => s

/-- The number of those who may take turns. -/
def parties (s : Timed) : Nat := s.engine.walks.length + s.loops.length + 1

/-- More moves than anyone makes in a run: between two readings of the clock there are finitely many
turns, and there are fewer than `2 ^ 64` readings. -/
def horizon : Nat := Nat.pow 2 80

/-- Moves on until a condition holds. -/
def drive (s : Timed) (stop : Timed → Bool) : Timed := driveFor stop (horizon * s.parties) s

/-- It is the caller's turn. -/
def callerIsNext (s : Timed) : Bool :=
  s.left != 0 && s.queue.head? == some (Entry.turn .caller)

/-- Moves on to the caller's turn and takes it. -/
def resume (s : Timed) : Timed :=
  let s := s.drive callerIsNext
  { s with queue := s.queue.tail, left := s.left - 1 }

/-- Lets the caller wait for a delay. -/
def wait (s : Timed) (seconds : Float) : Timed := (s.delay .caller seconds).resume

/-- Lets the caller wait for a condition, which then puts an entry into the queue. -/
def waitUntil (s : Timed) (p : Timed → Bool) (e : Entry) : Timed := ((s.drive p).enqueue e).resume

/-- These walks are all over. -/
def areOver (numbers : List Nat) (s : Timed) : Bool := !numbers.any s.engine.isRunning

/-- Lets the caller wait until no walk is active. -/
def waitSettled (s : Timed) : Timed :=
  let numbers := s.engine.walkOf.values
  if areOver numbers s then s else s.waitUntil (areOver numbers) (.wakeUp .caller)

/-- Performs a call; nobody else gets a turn meanwhile. -/
def call (s : Timed) (c : Call) : Timed × Except Failure Answer :=
  let (station, effects, result) := s.toStation.call c s.clock
  (effects.foldl note { s with toStation := station }, result)

/-- Polls the monitor. -/
def poll (s : Timed) : Timed × Except Failure (List Event) :=
  let (station, result) := s.toStation.poll s.clock
  ({ s with toStation := station }, result)

/-- Starts another loop of the monitor, which polls as soon as it gets a turn. -/
def startMonitor (s : Timed) : Timed :=
  { s.enqueue (.turn (.poller s.loops.length)) with
    loops := s.loops ++ [LoopPhase.scheduled] }

/-- Tells all loops of the monitor to end when they wake up. The last one that was started is
woken up, and its end is waited for. -/
def stopMonitor (s : Timed) : Timed :=
  let s : Timed := { s with polling := false }
  let last := s.loops.length - 1
  match s.loops[last]? with
  | none | some LoopPhase.over => s
  | some _ => ((s.setLoop last .stopping).wake (.poller last)).waitUntil
    (fun s => s.loops[last]? == some LoopPhase.over) (.turn .caller)

/-- Closes the engine and waits for the end of its walks. -/
def close (s : Timed) : Timed :=
  let numbers := s.engine.walkOf.values
  let (station, effects) := s.toStation.close
  let closing := effects.foldl note { s with toStation := station }
  let ended := if numbers.isEmpty then closing
    else closing.waitUntil (areOver numbers) (.wakeUp .caller)
  { ended with toStation := ended.toStation.closed numbers.length }

end Timed

end Peering
