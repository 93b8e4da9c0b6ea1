import Peering.Value.Text

/-!
# Numbers

Numbers are integers or doubles. A sum of an integer and a double is a double,
and fails if the integer is too large for one.
-/

namespace Peering

/-- An integer of any size, or a double. -/
inductive Number where
  | int (n : Int)
  | float (x : Float)

namespace Number

/-- The number as a value. -/
def toValue : Number → Value
  | .int n => .int n
  | .float x => .float x

/-- The number is below zero. -/
def isNegative : Number → Bool
  | .int n => n < 0
  | .float x => x < 0.0

/-- The number is above zero. -/
def isPositive : Number → Bool
  | .int n => 0 < n
  | .float x => 0.0 < x

/-- The sum, unless an integer had to become a double and is too large for one. -/
def add? : Number → Number → Option Number
  | .int m, .int n => some (.int (m + n))
  | .int m, .float y => (floatOfInt? m).map (fun x => .float (x + y))
  | .float x, .int n => (floatOfInt? n).map (fun y => .float (x + y))
  | .float x, .float y => some (.float (x + y))

end Number

/-- The number that a value is: a truth value counts as 0 or 1. -/
def Value.number? : Value → Option Number
  | .bool b => some (.int (if b then 1 else 0))
  | .int n => some (.int n)
  | .float x => some (.float x)
  | _ => none

end Peering
