/-!
# Timers

Timers are kept in a heap: none is due before the one above it, and the first is one
that is due first. A time that is no number is neither before nor after any other, so a
timer with such a time stays where it has been put until the others have moved it.
-/

namespace Peering

/-- A timer of someone who waits. -/
structure Timer (α : Type) where
  /-- The time at which it is due. -/
  due : Float
  /-- Who waits for it, nobody if the waiting has been broken off. -/
  owner : Option α

/-- The timer is due at a time, or before a later one. -/
def Timer.isDue {α : Type} (time later : Float) (t : Timer α) : Bool :=
  t.due ≤ time || !(later ≤ t.due)

/-- Timers as a heap. The timers below the one at place `i` are at `2 * i + 1` and `2 * i + 2`. -/
abbrev Timers (α : Type) := Array (Timer α)

namespace Timers

variable {α : Type}

/-- The timer at one place is due before that at another; there are timers at both. -/
def isBefore (h : Timers α) (i j : Nat) : Bool :=
  match h[i]?, h[j]? with
  | some s, some t => s.due < t.due
  | _, _ => false

/-- Lifts the timer at a place above those that are due after it. -/
def rise (h : Timers α) (i : Nat) : Timers α :=
  if i = 0 then h
  else
    let above := (i - 1) / 2
    if h.isBefore i above then rise (h.swapIfInBounds i above) above else h
termination_by i

/-- Lets the timer at a place sink to the bottom, below the earlier one of two timers each time.
The result is the heap and the place where it has come to rest. -/
def sink (h : Timers α) (i : Nat) : Timers α × Nat :=
  let left := 2 * i + 1
  if left < h.size then
    let below := if left + 1 < h.size && !h.isBefore left (left + 1) then left + 1 else left
    sink (h.swapIfInBounds i below) below
  else (h, i)
termination_by h.size - i
decreasing_by
  simp only [Array.size_swapIfInBounds]
  split <;> omega

/-- Puts in a timer. -/
def insert (h : Timers α) (t : Timer α) : Timers α := rise (h.push t) h.size

/-- The timers without the first one. The last one takes its place, sinks to the bottom and rises
from there. -/
def removeFirst (h : Timers α) : Timers α :=
  match h.back? with
  | none => h
  | some last =>
    let (h, i) := sink (h.pop.setIfInBounds 0 last) 0
    rise h i

/-- The timers after some have been removed from the front, and the removed ones in order: those
for which a condition holds, as long as it does. -/
def takeWhile (h : Timers α) (p : Timer α → Bool) : Nat → Timers α × List (Timer α)
  | 0 => (h, [])
  | n + 1 =>
    match h[0]? with
    | some t =>
      if p t then
        let (h, more) := h.removeFirst.takeWhile p n
        (h, t :: more)
      else (h, [])
    | none => (h, [])

/-- The timers without those at the front whose owners do not wait for them any more. -/
def dropIdle (h : Timers α) : Timers α := (h.takeWhile (fun t => t.owner.isNone) h.size).1

/-- The timers that are due at a time or before a later one, and those that are left. -/
def takeDue (h : Timers α) (time later : Float) : Timers α × List (Timer α) :=
  h.takeWhile (Timer.isDue time later) h.size

/-- Someone does not wait any more. -/
def release [BEq α] (h : Timers α) (who : α) : Timers α :=
  h.map fun t => if t.owner == some who then { t with owner := none } else t

end Timers

end Peering
