import Peering.Text.Blank
import Peering.Text.Digit
import Peering.Text.Quoted

/-!
# The text of integers

Writing uses plain digits with a minus sign in front of negative numbers. Reading
is more liberal: white space around the number, one sign, digits of any script
and single underscores between digits; bases up to 36 are read as well. Very long
numbers are neither read nor written in decimal digits.
-/

namespace Peering

/-- The digits of a natural number. -/
def naturalText (n : Nat) : List Char := Nat.toDigits 10 n

/-- The digits of an integer, after a minus sign if it is negative. -/
def integerText (n : Int) : List Char :=
  if n < 0 then '-' :: naturalText n.natAbs else naturalText n.natAbs

/-- The text of an integer. -/
def intText (n : Int) : String := String.ofList (integerText n)

/-- The number that a list of digit values writes in a base. -/
def ofDigitValues (base : Nat) (values : List Nat) : Nat :=
  values.foldl (fun n d => n * base + d) 0

/-- A sign at the front of a number, true for minus, and what follows it. -/
def splitSign : List Char → Bool × List Char
  | '-' :: rest => (true, rest)
  | '+' :: rest => (false, rest)
  | cs => (false, cs)

/-- The longest decimal literal that is read and the longest text of an integer that is
written, counted in digits. -/
def maxLiteralDigits : Nat := 4300

/-- The value of a digit below a base: a decimal digit of any script, or a letter. -/
def digitIn? (base : Nat) (c : Char) : Option Nat :=
  let value? := if c.isAlpha then some (c.toLower.toNat - 'a'.toNat + 10) else digitValue? c
  value?.filter (· < base)

/-- The values of the digits at the front of a text, in which single underscores may stand
between two digits, and what follows. There is at least one digit, and no underscore before
or after all of them. -/
def digitRun? (base : Nat) (afterDigit : Bool) : List Char → Option (List Nat × List Char)
  | [] => if afterDigit then some ([], []) else none
  | c :: rest =>
    match digitIn? base c with
    | some d => (digitRun? base true rest).map fun (ds, rest) => (d :: ds, rest)
    | none =>
      if !afterDigit then none
      else if c = '_' then digitRun? base false rest
      else some ([], c :: rest)

/-- The letter that marks a base. -/
def baseMark? : Nat → Option Char
  | 2 => some 'b'
  | 8 => some 'o'
  | 16 => some 'x'
  | _ => none

/-- The text without a zero and the mark of its base at the front, which an underscore may
follow. -/
def dropMark (base : Nat) : List Char → List Char
  | '0' :: c :: rest =>
    if baseMark? base = some c.toLower then
      match rest with
      | '_' :: digits => digits
      | digits => digits
    else '0' :: c :: rest
  | cs => cs

/-- Why a text is no integer. -/
inductive IntegerFault where
  /-- It does not have the form of a literal. -/
  | form
  /-- It has so many digits that it is not read. -/
  | tooLong (digits : Nat)
  deriving DecidableEq

/-- The message about an integer of too many digits, with what is known of their number. -/
def tooManyDigits (known : String) : String :=
  "Exceeds the limit (" ++ intText maxLiteralDigits ++
    " digits) for integer string conversion" ++ known ++
    "; use sys.set_int_max_str_digits() to increase the limit"

/-- The message for a text that is no integer in a base. A long text is cut. -/
def IntegerFault.message (base : Nat) (cs : List Char) : IntegerFault → String
  | form => "invalid literal for int() with base " ++ intText base ++ ": " ++
    String.ofList ((quoted (String.ofList cs)).toList.take 200)
  | tooLong digits => tooManyDigits (": value has " ++ intText digits ++ " digits")

/-- The integer that a literal in a base stands for: white space around, one sign, the mark of
the base, and digits. A decimal literal that begins with more than `maxLiteralDigits` digits
is not read, leading zeros included. -/
def integerIn (base : Nat) (cs : List Char) : Except IntegerFault Int :=
  let (negative, body) := splitSign (trimBoth isWhiteSpace cs)
  match digitRun? base false (dropMark base body) with
  | none => .error .form
  | some (values, rest) =>
    if base = 10 ∧ maxLiteralDigits < values.length then .error (.tooLong values.length)
    else if rest.isEmpty then
      let n := ofDigitValues base values
      .ok (if negative then -(n : Int) else n)
    else .error .form

/-- The integer that a decimal literal stands for, if it is one. -/
def readInteger? (cs : List Char) : Option Int := (integerIn 10 cs).toOption

/-- The least natural number whose text is too long to be written. -/
def tooLongToWrite : Nat := Nat.pow 10 maxLiteralDigits

/-- The text of the integer is not too long to be written. -/
def isWritable (n : Int) : Bool := n.natAbs < tooLongToWrite

/-- The message about an integer whose text is too long to be written. -/
def notWritable : String := tooManyDigits ""

end Peering
