import Peering.Text.Blank
import Peering.Value.Text

/-!
# Durations

A duration is a number of seconds, or a text such as `500ms`, `2s` or `1.5 m`: a
decimal number, then a unit, with white space allowed around both. Digits may be
those of any script.
-/

namespace Peering.Duration

/-- The unit of a duration. -/
inductive TimeUnit where
  | milliseconds
  | seconds
  | minutes
  | hours
  deriving DecidableEq, Repr

/-- The seconds of one unit. -/
def TimeUnit.inSeconds : TimeUnit → Float
  | milliseconds => 0.001
  | seconds => 1.0
  | minutes => 60.0
  | hours => 3600.0

/-- A duration as it is written: a sign, digits before and after the point, and a unit. -/
structure Literal where
  /-- A minus sign stands in front. -/
  negative : Bool
  /-- The values of the digits before the point. -/
  whole : List Nat
  /-- The values of the digits after the point, none if there is no point. -/
  places : List Nat
  /-- The unit, seconds if none is written. -/
  unit : TimeUnit

/-- The number without its unit, as the nearest double. -/
def Literal.number (l : Literal) : Float :=
  let x := floatOfDecimal (ofDigitValues 10 (l.whole ++ l.places)) (-(l.places.length : Int))
  if l.negative then -x else x

/-- The duration in seconds. -/
def Literal.toSeconds (l : Literal) : Float := l.number * l.unit.inSeconds

/-- A unit at the front of a text, and what follows. -/
def takeUnit : List Char → TimeUnit × List Char
  | 'm' :: 's' :: rest => (.milliseconds, rest)
  | 's' :: rest => (.seconds, rest)
  | 'm' :: rest => (.minutes, rest)
  | 'h' :: rest => (.hours, rest)
  | rest => (.seconds, rest)

/-- A minus sign at the front of a text, and what follows. -/
def takeMinus : List Char → Bool × List Char
  | '-' :: rest => (true, rest)
  | rest => (false, rest)

/-- A point and the digits after it, none if there is no point; a point alone is refused. -/
def takePlaces? : List Char → Option (List Nat × List Char)
  | '.' :: rest =>
    match takeDigits rest with
    | ([], _) => none
    | (ds, rest') => some (ds, rest')
  | rest => some ([], rest)

/-- Reads a text as a duration. -/
def scan? (cs : List Char) : Option Literal := do
  let (negative, rest) := takeMinus (cs.dropWhile isBlank)
  let (whole, rest) := takeDigits rest
  if whole.isEmpty then none
  else
    let (places, rest) ← takePlaces? rest
    let (unit, rest) := takeUnit (rest.dropWhile isBlank)
    if rest.all isBlank then some ⟨negative, whole, places, unit⟩ else none

/-- Why a value is no duration. -/
inductive Error where
  /-- It is neither a number nor a text that can be read. -/
  | invalid (v : Value)
  /-- It is an integer too large for a double. -/
  | tooLarge

/-- The message for a value that is no duration. -/
def invalidMessage (v : Value) : String := "invalid duration: " ++ v.exact

/-- The duration that a value gives, in seconds. -/
def ofValue : Value → Except Error Float
  | .int n =>
    match floatOfInt? n with
    | some x => .ok x
    | none => .error .tooLarge
  | .float x => .ok x
  | .text s =>
    match scan? s.toList with
    | some l => .ok l.toSeconds
    | none => .error (.invalid (.text s))
  | v => .error (.invalid v)

end Peering.Duration
