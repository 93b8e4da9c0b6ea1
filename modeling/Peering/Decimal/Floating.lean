import Peering.Decimal.Integer
import Peering.Decimal.Shortest

/-!
# Doubles: their text, their exact value and their conversions

A double is taken apart into sign, mantissa and binary exponent; its text, its
comparison with integers and its truncation are computed from these exactly.
-/

namespace Peering

/-- A double taken apart: `(-1) ^ negative * m * 2 ^ q`, an infinity, or no number. -/
inductive FloatParts where
  | finite (negative : Bool) (m : Nat) (q : Int)
  | infinite (negative : Bool)
  | notANumber
  deriving DecidableEq

/-- The parts of a double, read off its bits. -/
def FloatParts.ofFloat (x : Float) : FloatParts :=
  let bits := x.toBits.toNat
  let negative := bits / Nat.pow 2 63 == 1
  let exponent : Nat := bits / Nat.pow 2 52 % Nat.pow 2 11
  let fraction : Nat := bits % Nat.pow 2 52
  if exponent = 2047 then
    if fraction = 0 then .infinite negative else .notANumber
  else if exponent = 0 then .finite negative fraction minExponent
  else .finite negative (Nat.pow 2 52 + fraction) ((exponent : Int) - 1075)

/-- How the text of a double is laid out. -/
structure FloatStyle where
  /-- The least exponent of the first digit that is written positionally. -/
  positionalFrom : Int
  /-- The least exponent above those. -/
  positionalBelow : Int
  /-- The least number of exponent digits. -/
  exponentDigits : Nat

/-- Exponents from -4 to 15 are written positionally with at least one digit after the
point, all others with a signed exponent of at least two digits. -/
def plainStyle : FloatStyle := ⟨-4, 16, 2⟩

/-- The text of `n * 10 ^ e` for positive `n`. -/
def FloatStyle.layout (style : FloatStyle) (n : Nat) (e : Int) : List Char :=
  let digits := naturalText n
  let first := e + digits.length - 1
  if style.positionalFrom ≤ first ∧ first < style.positionalBelow then
    if first < 0 then
      '0' :: '.' :: (List.replicate (-first - 1).toNat '0' ++ digits)
    else
      let whole := (first + 1).toNat
      let padded := digits ++ List.replicate (whole - digits.length) '0'
      let after := padded.drop whole
      padded.take whole ++ '.' :: (if after.isEmpty then ['0'] else after)
  else
    let mantissa := match digits with
      | d :: d' :: rest => d :: '.' :: d' :: rest
      | _ => digits
    let size := naturalText first.natAbs
    mantissa ++ 'e' :: (if first < 0 then '-' else '+') ::
      (List.replicate (style.exponentDigits - size.length) '0' ++ size)

/-- The text of a double: the fewest digits that read back as the same double. -/
def floatText (x : Float) : String :=
  String.ofList <|
    match FloatParts.ofFloat x with
    | .notANumber => ['n', 'a', 'n']
    | .infinite negative => signed negative ['i', 'n', 'f']
    | .finite negative 0 _ => signed negative ['0', '.', '0']
    | .finite negative m q =>
      let (n, e) := shortestDecimal m q
      signed negative (plainStyle.layout n e)
where
  /-- A minus sign in front of negative numbers. -/
  signed (negative : Bool) (cs : List Char) : List Char := if negative then '-' :: cs else cs

/-- The double nearest to `n * 10 ^ e`, with an infinity above the largest double. -/
def floatOfDecimal (n : Nat) (e : Int) : Float :=
  if n = 0 then 0.0
  else if 400 < e then 1.0 / 0.0
  else if (Nat.log2 n : Int) * 30103 < (-e - 400) * 100000 then 0.0
  else Float.ofScientific n (e < 0) e.natAbs

/-- The least natural number that rounds to no double: half a step above the largest one. -/
def floatLimit : Nat := (Nat.pow 2 54 - 1) * Nat.pow 2 970

/-- The double nearest to an integer, if it is not beyond the largest double. -/
def floatOfInt? (n : Int) : Option Float :=
  if floatLimit ≤ n.natAbs then none
  else
    let x := Float.ofScientific n.natAbs false 0
    some (if n < 0 then -x else x)

/-- An integer equals a double, compared exactly. -/
def intEqFloat (n : Int) (x : Float) : Bool :=
  match FloatParts.ofFloat x with
  | .finite negative m q =>
    let v : Int := if negative then -(m : Int) else m
    n * Nat.pow 2 (-q).toNat == v * Nat.pow 2 q.toNat
  | _ => false

/-- Why a double has no integral part. -/
inductive TruncationError where
  | infinite
  | notANumber
  deriving DecidableEq

/-- The integral part of a double, rounded toward zero. -/
def truncate (x : Float) : Except TruncationError Int :=
  match FloatParts.ofFloat x with
  | .finite negative m q =>
    let n := m * Nat.pow 2 q.toNat / Nat.pow 2 (-q).toNat
    .ok (if negative then -(n : Int) else n)
  | .infinite _ => .error .infinite
  | .notANumber => .error .notANumber

/-- What a floating literal is made of: its digits without the point, and how many of
them stand after it; then a decimal exponent. -/
structure DecimalLiteral where
  /-- The digits before and after the point. -/
  digits : List Nat
  /-- The number of digits after the point. -/
  places : Nat
  /-- The exponent after the `e`. -/
  exponent : Int

/-- The double nearest to a literal. -/
def DecimalLiteral.toFloat (l : DecimalLiteral) : Float :=
  floatOfDecimal (ofDigitValues 10 l.digits) (l.exponent - l.places)

/-- The leading digits of a text and what follows them. -/
def takeDigits : List Char → List Nat × List Char
  | [] => ([], [])
  | c :: rest =>
    match digitValue? c with
    | some d => let (ds, rest') := takeDigits rest; (d :: ds, rest')
    | none => ([], c :: rest)

/-- A floating literal without sign: digits, a point and digits, at least one digit in
all, and an optional exponent. -/
def readDecimalLiteral? (cs : List Char) : Option DecimalLiteral :=
  let (whole, rest) := takeDigits cs
  let (places, rest) := match rest with
    | '.' :: rest' => takeDigits rest'
    | _ => ([], rest)
  if whole.isEmpty && places.isEmpty then none
  else match rest with
    | [] => some ⟨whole ++ places, places.length, 0⟩
    | c :: rest' =>
      if c = 'e' ∨ c = 'E' then
        let (negative, body) := splitSign rest'
        match takeDigits body with
        | ([], _) => none
        | (ds, []) =>
          let e : Int := ofDigitValues 10 ds
          some ⟨whole ++ places, places.length, if negative then -e else e⟩
        | _ => none
      else none

/-- The text with underscores removed, if each of them stands between two digits. -/
def dropUnderscores? : Bool → List Char → Option (List Char)
  | _, [] => some []
  | afterDigit, '_' :: c :: rest =>
    if afterDigit && isDigit c then (dropUnderscores? true rest).map (c :: ·) else none
  | _, ['_'] => none
  | _, c :: rest => (dropUnderscores? (isDigit c) rest).map (c :: ·)

/-- The double that a text stands for: white space around, one sign, then a literal, or
one of the words for an infinity and for no number, in any case. -/
def readFloat? (cs : List Char) : Option Float := do
  let trimmed := trimBoth isWhiteSpace cs
  let (negative, body) := splitSign trimmed
  let word := String.ofList (body.map Char.toLower)
  let x ←
    if word = "inf" ∨ word = "infinity" then some (1.0 / 0.0)
    else if word = "nan" then some (0.0 / 0.0)
    else (readDecimalLiteral? (← dropUnderscores? false body)).map DecimalLiteral.toFloat
  return if negative then -x else x

end Peering
