import Peering.Text.Half
import Peering.Text.Printable

/-!
# Quoted texts

A quoted text stands between apostrophes, or between double quotes if it holds
an apostrophe and no double quote. Backslashes, the surrounding quote and
characters that are not printable are escaped, and so are halves of characters; all others
stand for themselves.
-/

namespace Peering

/-- The hexadecimal digits of a number, filled with zeros to a width. -/
def hexDigits (width n : Nat) : List Char :=
  let digits := Nat.toDigits 16 n
  List.replicate (width - digits.length) '0' ++ digits

/-- The escape of a character that is not printable, by its number: two, four or eight
hexadecimal digits, whichever first suffices. -/
def escapeUnprintable (n : Nat) : List Char :=
  if n ≤ 0xff then '\\' :: 'x' :: hexDigits 2 n
  else if n ≤ 0xffff then '\\' :: 'u' :: hexDigits 4 n
  else '\\' :: 'U' :: hexDigits 8 n

/-- What is written for one character between two quotes `q`. -/
def quoteChar (q c : Char) : List Char :=
  if c = q ∨ c = '\\' then ['\\', c]
  else if c = '\n' then ['\\', 'n']
  else if c = '\r' then ['\\', 'r']
  else if c = '\t' then ['\\', 't']
  else if isPrintable c then [c]
  else escapeUnprintable c.toNat

/-- What is written for the character or the half with a number. -/
def quoteCode (q : Char) (n : Nat) : List Char :=
  if isHalf n then escapeUnprintable n else quoteChar q (Char.ofNat n)

/-- The quote that a text is put between. -/
def quoteFor (cs : List Char) : Char :=
  if '\'' ∈ cs ∧ '"' ∉ cs then '"' else '\''

/-- The quoted form of a text. -/
def quoted (s : String) : String :=
  let q := quoteFor s.toList
  String.ofList (q :: ((codesOf s.toList).flatMap (quoteCode q) ++ [q]))

end Peering
