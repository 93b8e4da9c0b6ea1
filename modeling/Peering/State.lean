import Peering.Decimal.Integer

/-!
# Session states

A session passes through six states in a fixed order and skips none. Records from
outside may hold a bare number in place of a state: the numbers 0 to 5 stand for
the six states, and every other number for none.
-/

namespace Peering

/-- The states of a session, in the order in which they are passed. -/
inductive State where
  | idle
  | connect
  | active
  | openSent
  | openConfirm
  | established
  deriving DecidableEq, Repr

namespace State

/-- All states, in order. -/
def all : List State := [idle, connect, active, openSent, openConfirm, established]

/-- The number of a state: its place in the order, counted from zero. -/
def number : State → Nat
  | idle => 0
  | connect => 1
  | active => 2
  | openSent => 3
  | openConfirm => 4
  | established => 5

/-- The name of a state. -/
def name : State → String
  | idle => "Idle"
  | connect => "Connect"
  | active => "Active"
  | openSent => "OpenSent"
  | openConfirm => "OpenConfirm"
  | established => "Established"

/-- The state that follows, and none after `established`. -/
def next? : State → Option State
  | idle => some connect
  | connect => some active
  | active => some openSent
  | openSent => some openConfirm
  | openConfirm => some established
  | established => none

/-- The state with a number. -/
def ofNumber? : Int → Option State
  | 0 => some idle
  | 1 => some connect
  | 2 => some active
  | 3 => some openSent
  | 4 => some openConfirm
  | 5 => some established
  | _ => none

/-- The state with a name. -/
def ofName? (s : String) : Option State := all.find? (fun state => state.name = s)

/-- A state is the one of its number. -/
theorem ofNumber?_number (s : State) : ofNumber? s.number = some s := by cases s <;> rfl

/-- The next state has the next number. -/
theorem number_next {s t : State} (h : s.next? = some t) : t.number = s.number + 1 := by
  cases s <;> simp [next?] at h <;> subst h <;> rfl

end State

/-- What the state field of a record holds: a state, or a bare number. -/
inductive StateCode where
  | state (s : State)
  | bare (n : Int)
  deriving DecidableEq

namespace StateCode

/-- The number of the state, or the bare number. -/
def number : StateCode → Int
  | .state s => s.number
  | .bare n => n

/-- The state that is meant, if there is one. -/
def state? : StateCode → Option State
  | .state s => some s
  | .bare n => State.ofNumber? n

/-- The name of the state; a number that means no state is shown as unknown. -/
def name (c : StateCode) : String :=
  match c.state? with
  | some s => s.name
  | none => "Unknown(" ++ intText c.number ++ ")"

/-- Two codes mean the same if their numbers are equal. -/
def same (a b : StateCode) : Bool := a.number == b.number

end StateCode

end Peering
