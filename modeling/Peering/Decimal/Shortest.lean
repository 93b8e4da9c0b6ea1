/-!
# The shortest decimal that reads back

A positive binary number `m * 2 ^ q` owns the interval of reals that round to it:
half a unit to each side, and only a quarter below a power of two. Among the
decimals in that interval the one with the fewest digits is chosen, and of two
such decimals the nearer one. All arithmetic is exact.
-/

namespace Peering

/-- A binary number `m * 2 ^ q` with the interval of reals that round to it, all three
as multiples of `1 / den`. -/
structure RoundingInterval where
  /-- The number itself. -/
  value : Nat
  /-- The lower end. -/
  low : Nat
  /-- The upper end. -/
  high : Nat
  /-- The common denominator. -/
  den : Nat
  /-- Whether the two ends round to the number too. -/
  closed : Bool

/-- The least binary exponent of a double. -/
def minExponent : Int := -1074

/-- The rounding interval of the double `m * 2 ^ q`. -/
def RoundingInterval.ofDouble (m : Nat) (q : Int) : RoundingInterval :=
  let below := if m = Nat.pow 2 52 ∧ minExponent < q then 1 else 2
  let up := Nat.pow 2 (q - 2).toNat
  let down := Nat.pow 2 (2 - q).toNat
  ⟨4 * m * up, (4 * m - below) * up, (4 * m + 2) * up, down, m % 2 == 0⟩

/-- The interval measured in units of `10 ^ e`. -/
def RoundingInterval.scale (r : RoundingInterval) (e : Int) : RoundingInterval :=
  let up := Nat.pow 10 (-e).toNat
  ⟨r.value * up, r.low * up, r.high * up, r.den * Nat.pow 10 e.toNat, r.closed⟩

/-- The integer `n` lies in the interval. -/
def RoundingInterval.holds (r : RoundingInterval) (n : Nat) : Bool :=
  if r.closed then r.low ≤ n * r.den && n * r.den ≤ r.high
  else r.low < n * r.den && n * r.den < r.high

/-- The integer in the interval next to its number: the nearer of the two neighbours, and
the even one if they are equally near. -/
def RoundingInterval.neighbour? (r : RoundingInterval) : Option Nat :=
  let n := r.value / r.den
  let rest := r.value % r.den
  match (n != 0 && r.holds n), r.holds (n + 1) with
  | true, true =>
    if 2 * rest < r.den ∨ (2 * rest = r.den ∧ n % 2 = 0) then some n else some (n + 1)
  | true, false => some n
  | false, true => some (n + 1)
  | false, false => none

/-- The first hit on the grids `10 ^ e`, `10 ^ (e - 1)`, and so on. -/
def RoundingInterval.firstHit (r : RoundingInterval) : Nat → Int → Nat × Int
  | 0, e => ((r.scale e).value / (r.scale e).den, e)
  | fuel + 1, e =>
    match (r.scale e).neighbour? with
    | some n => (n, e)
    | none => r.firstHit fuel (e - 1)

/-- A decimal exponent that is at least that of the first digit of `m * 2 ^ q`. -/
def decimalExponentBound (m : Nat) (q : Int) : Int :=
  Int.fdiv ((Nat.log2 m + q + 1) * 30103) 100000 + 2

/-- The shortest decimal `n * 10 ^ e` that reads back as the double `m * 2 ^ q`, for
positive `m`. Seventeen digits always suffice. -/
def shortestDecimal (m : Nat) (q : Int) : Nat × Int :=
  (RoundingInterval.ofDouble m q).firstHit 24 (decimalExponentBound m q)

end Peering
