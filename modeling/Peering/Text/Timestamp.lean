import Peering.Decimal.Integer

/-!
# Time stamps

The text of a time by the civil calendar, without a time zone.
-/

namespace Peering

/-- A day of the civil calendar. -/
structure CivilDate where
  year : Nat
  month : Nat
  day : Nat
  deriving DecidableEq, Repr

/-- The date that lies a number of days after 1 January 1970. Years are counted from March
on, so that the day that is not in every year comes last; 400 of them always have 146097
days. -/
def CivilDate.ofDays (days : Nat) : CivilDate :=
  let n := days + 719468
  let ofEra := n % 146097
  let yearOfEra := (ofEra - ofEra / 1460 + ofEra / 36524 - ofEra / 146096) / 365
  let dayOfYear := ofEra - (365 * yearOfEra + yearOfEra / 4 - yearOfEra / 100)
  let fromMarch := (5 * dayOfYear + 2) / 153
  let month := if fromMarch < 10 then fromMarch + 3 else fromMarch - 9
  let year := yearOfEra + 400 * (n / 146097)
  { year := if month ≤ 2 then year + 1 else year
    month
    day := dayOfYear - (153 * fromMarch + 2) / 5 + 1 }

/-- A number in at least a given count of digits. -/
def paddedNumber (digits n : Nat) : List Char :=
  let text := naturalText n
  List.replicate (digits - text.length) '0' ++ text

/-- The text of the time that lies a number of seconds after the beginning of 1970. -/
def timestamp (seconds : Nat) : String :=
  let date := CivilDate.ofDays (seconds / 86400)
  let rest := seconds % 86400
  String.ofList <|
    paddedNumber 4 date.year ++ '-' :: paddedNumber 2 date.month ++ '-' ::
      paddedNumber 2 date.day ++ ' ' :: paddedNumber 2 (rest / 3600) ++ ':' ::
      paddedNumber 2 (rest % 3600 / 60) ++ ':' :: paddedNumber 2 (rest % 60)

end Peering
