import Peering.Text.LowerCase
import Peering.Value.Text
import Peering.Yaml.Binary
import Peering.Yaml.Moment

/-!
# What scalars stand for

A plain scalar without a tag stands for nothing, a truth value, an integer, a
double or a moment if it is written like one, and for its own text otherwise. Integers may be
written in base 2, 8, 10, 16 or 60, and doubles in base 10 or 60; underscores in
them are ignored.
-/

namespace Peering.Yaml

/-- What a node is said to be. -/
inductive Tag where
  | null
  | bool
  | int
  | float
  | text
  /-- Bytes in base 64. -/
  | binary
  /-- A date, or a date with a time of day. -/
  | moment
  | sequence
  | mapping
  /-- A sequence of mappings with one entry each. -/
  | pairs
  /-- A mapping of which only the keys count. -/
  | set
  /-- The key of mappings to be merged. -/
  | merge
  /-- The key of the value that stands for the whole mapping. -/
  | equals
  /-- Something that has no meaning here. -/
  | other
  deriving DecidableEq

/-- The meaning of a full tag. -/
def Tag.ofName (name : String) : Tag :=
  match name with
  | "tag:yaml.org,2002:null" => null
  | "tag:yaml.org,2002:bool" => bool
  | "tag:yaml.org,2002:int" => int
  | "tag:yaml.org,2002:float" => float
  | "tag:yaml.org,2002:str" => text
  | "tag:yaml.org,2002:binary" => binary
  | "tag:yaml.org,2002:timestamp" => moment
  | "tag:yaml.org,2002:seq" => sequence
  | "tag:yaml.org,2002:map" => mapping
  | "tag:yaml.org,2002:omap" | "tag:yaml.org,2002:pairs" => pairs
  | "tag:yaml.org,2002:set" => set
  | "tag:yaml.org,2002:merge" => merge
  | "tag:yaml.org,2002:value" => equals
  | _ => other

/-! ### The forms of plain scalars -/

/-- The spellings of nothing. -/
def nullWords : List String := ["", "~", "null", "Null", "NULL"]

/-- The spellings of the truth values. -/
def truthWords : List (String × Bool) :=
  [("yes", true), ("no", false), ("true", true), ("false", false), ("on", true), ("off", false)]

/-- The truth value of a word in lower case. -/
def truth? (word : String) : Option Bool := truthWords.lookup word

/-- The text begins with a capital letter and goes on in lower case. -/
def inTitleCase : List Char → Bool
  | [] => false
  | c :: rest => c.isUpper && rest.all Char.isLower

/-- The text is spelled as words are: in lower case, in upper case, or with a capital. -/
def isSpelledAsWord (cs : List Char) : Bool :=
  cs.all Char.isLower || cs.all Char.isUpper || inTitleCase cs

/-- A spelling of a truth value. -/
def isTruthWord (cs : List Char) : Bool :=
  isSpelledAsWord cs && (truth? (String.ofList (cs.map Char.toLower))).isSome

/-- A digit or an underscore. -/
def isDigitMark (c : Char) : Bool := c.isDigit || c == '_'

/-- A digit, and then digits and underscores. -/
def isDigits : List Char → Bool
  | [] => false
  | c :: rest => c.isDigit && rest.all isDigitMark

/-- Digits of a base and underscores, at least one character. -/
def isDigitsIn (base : Nat) (cs : List Char) : Bool :=
  !cs.isEmpty && cs.all (fun c => c == '_' || (c.toNat < 0x80 && (digitIn? base c).isSome))

/-- The parts of a text between separators. -/
def partsAt (separator : Char) : List Char → List (List Char)
  | [] => [[]]
  | c :: rest =>
    if c = separator then [] :: partsAt separator rest
    else match partsAt separator rest with
      | part :: parts => (c :: part) :: parts
      | [] => [[c]]

/-- A digit of base 60, in one or two decimal digits. -/
def isSixtieth : List Char → Bool
  | [d] => d.isDigit
  | [d, e] => d.isDigit && d < '6' && e.isDigit
  | _ => false

/-- Digits, and after them at least one digit of base 60, with colons between them. -/
def isSexagesimal (cs : List Char) : Bool :=
  match partsAt ':' cs with
  | first :: rest => isDigits first && !rest.isEmpty && rest.all isSixtieth
  | [] => false

/-- An integer without its sign. -/
def isUnsignedInt : List Char → Bool
  | ['0'] => true
  | '0' :: 'b' :: rest => isDigitsIn 2 rest
  | '0' :: 'x' :: rest => isDigitsIn 16 rest
  | '0' :: rest => isDigitsIn 8 rest
  | cs => isDigits cs || isSexagesimal cs

/-- An integer. -/
def isInt (cs : List Char) : Bool := isUnsignedInt (splitSign cs).2

/-- Nothing, or a signed exponent. -/
def isExponent : List Char → Bool
  | [] => true
  | e :: sign :: rest =>
    (e == 'e' || e == 'E') && (sign == '+' || sign == '-') &&
      !rest.isEmpty && rest.all Char.isDigit
  | _ => false

/-- What may follow the point of a double: digits and an exponent. -/
def isFraction (cs : List Char) : Bool := isExponent (cs.dropWhile isDigitMark)

/-- An infinity without its sign. -/
def isInfinity (cs : List Char) : Bool :=
  [".inf", ".Inf", ".INF"].contains (String.ofList cs)

/-- No number. -/
def isNotANumber (cs : List Char) : Bool :=
  [".nan", ".NaN", ".NAN"].contains (String.ofList cs)

/-- A double with digits before its point, without its sign. -/
def isUnsignedFloat (cs : List Char) : Bool :=
  match cs.dropWhile (· ≠ '.') with
  | [] => false
  | _ :: rest =>
    let whole := cs.takeWhile (· ≠ '.')
    (isDigits whole && isFraction rest) || (isSexagesimal whole && rest.all isDigitMark)

/-- A double. Without digits before the point it has no sign. -/
def isFloat (cs : List Char) : Bool :=
  let body := (splitSign cs).2
  isUnsignedFloat body || isInfinity body || isNotANumber cs ||
    match cs with
    | '.' :: d :: rest => d.isDigit && isFraction rest
    | _ => false

/-- The text without the line feed at its end, unless there is nothing before it. -/
def withoutLineFeed (cs : List Char) : List Char :=
  if cs.getLast? = some '\n' ∧ 1 < cs.length then cs.dropLast else cs

/-- What a plain scalar is. A line feed at its end does not count. A single indicator is nothing
that has a meaning here. -/
def Tag.ofPlain (s : String) : Tag :=
  let cs := withoutLineFeed s.toList
  let word := String.ofList cs
  if isTruthWord cs then bool
  else if isFloat cs then float
  else if isInt cs then int
  else if word = "<<" then merge
  else if nullWords.contains word then null
  else if Moment.isWritten cs then moment
  else if word = "=" then equals
  else if ["!", "&", "*"].contains word then other
  else text

/-! ### The values of scalars -/

/-- The message for a text that is no double. -/
def badFloat (cs : List Char) : String :=
  "could not convert string to float: " ++ quoted (String.ofList cs)

/-- The number that a literal in a base stands for. -/
def numberIn (base : Nat) (cs : List Char) : Except Fault Int :=
  (integerIn base cs).mapError fun fault => .badNumber (fault.message base cs)

/-- The integer that a scalar stands for. -/
def readInt (cs : List Char) : Except Fault Int := do
  let (negative, body) := splitSign (cs.filter (· ≠ '_'))
  let n ← match body with
    | [] => throw .emptyNumber
    | ['0'] => pure 0
    | '0' :: 'b' :: rest => numberIn 2 rest
    | '0' :: 'x' :: rest => numberIn 16 rest
    | '0' :: rest => numberIn 8 ('0' :: rest)
    | _ =>
      if body.contains ':' then do
        let digits ← (partsAt ':' body).mapM (numberIn 10)
        pure (digits.foldl (fun n d => n * 60 + d) 0)
      else numberIn 10 body
  return if negative then -n else n

/-- The double that a decimal literal stands for. -/
def decimalFloat (cs : List Char) : Except Fault Float :=
  match readFloat? cs with
  | some x => .ok x
  | none => .error (.badNumber (badFloat cs))

/-- A double and the product of a digit of base 60 with the power of 60 at its place, added. The
power must not be too large for a double. -/
def addSixtieth (x : Float) (d : Float × Nat) : Except Fault Float :=
  match floatOfInt? (Nat.pow 60 d.2) with
  | some power => .ok (x + d.1 * power)
  | none => .error .overflow

/-- The double that digits of base 60 stand for, the last one first, added up from there. -/
def sexagesimalFloat (digits : List Float) : Except Fault Float :=
  digits.zipIdx.foldlM addSixtieth 0.0

/-- What a double is read from: its text in lower case, without underscores. -/
def floatDigits (cs : List Char) : List Char := lowerCase (cs.filter (· ≠ '_'))

/-- The text names the double that is no number, rather than having it for its value. -/
def namesNoNumber (cs : List Char) : Bool := (splitSign (floatDigits cs)).2 = ".nan".toList

/-- The double that a scalar stands for. -/
def readFloat (cs : List Char) : Except Fault Float := do
  let digits := floatDigits cs
  if digits.isEmpty then throw .emptyNumber
  let (negative, body) := splitSign digits
  if namesNoNumber cs then return 0.0 / 0.0
  let x ←
    if body = ".inf".toList then pure (1.0 / 0.0)
    else if body.contains ':' then do
      let digits ← (partsAt ':' body).mapM decimalFloat
      sexagesimalFloat digits.reverse
    else decimalFloat body
  return if negative then -x else x

/-- The value of a scalar, as its tag has it. -/
def Tag.read (tag : Tag) (s : String) : Except Fault Value :=
  match tag with
  | null => .ok .null
  | bool =>
    match truth? (s.map Char.toLower) with
    | some b => .ok (.bool b)
    | none => .error .badTruth
  | int => .int <$> readInt s.toList
  | float => .float <$> readFloat s.toList
  | text => .ok (.text s)
  | binary => Binary.read s.toList
  | moment => Moment.read (withoutLineFeed s.toList)
  | sequence | mapping | pairs | set | merge | equals | other => .error .malformed

/-- There are values of the tag. -/
def Tag.hasValues : Tag → Bool
  | merge | equals | other => false
  | _ => true

end Peering.Yaml
