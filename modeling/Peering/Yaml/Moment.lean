import Peering.Text.Timestamp
import Peering.Value.Basic
import Peering.Yaml.Token

/-!
# Dates and times

A scalar may be a date, or a date and a time of day with a fraction of a second
and a distance from universal time. Whether such a moment exists is checked when
its value is made.
-/

namespace Peering.Yaml

/-- A time of day. -/
structure TimeOfDay where
  hour : Nat
  minute : Nat
  second : Nat
  microsecond : Nat
  /-- The minutes by which it is ahead of universal time, if that is known. -/
  ahead : Option Int
  deriving DecidableEq

/-- A date, and a time of day if there is one. -/
structure Moment where
  date : CivilDate
  time : Option TimeOfDay
  deriving DecidableEq

namespace Moment

/-! ### Reading -/

/-- The number of one or two decimal digits at the front of a text, how many there are, and
what follows. -/
def oneOrTwo? : List Char → Option (Nat × Nat × List Char)
  | d :: rest =>
    if d.isDigit then
      let n := d.toNat - '0'.toNat
      match rest with
      | e :: more =>
        if e.isDigit then some (n * 10 + (e.toNat - '0'.toNat), 2, more) else some (n, 1, rest)
      | [] => some (n, 1, [])
    else none
  | [] => none

/-- The number of two decimal digits behind a mark, and what follows. -/
def twoAfter? (mark : Char) : List Char → Option (Nat × List Char)
  | c :: rest =>
    if c = mark then
      match oneOrTwo? rest with
      | some (n, 2, rest) => some (n, rest)
      | _ => none
    else none
  | [] => none

/-- The microseconds that a fraction of a second begins with, and what follows it. -/
def fraction : List Char → Nat × List Char
  | '.' :: rest =>
    let digits := (rest.takeWhile Char.isDigit).take 6
    let n := digits.foldl (fun n d => n * 10 + (d.toNat - '0'.toNat)) 0
    (n * Nat.pow 10 (6 - digits.length), rest.dropWhile Char.isDigit)
  | rest => (0, rest)

/-- The distance from universal time, which goes up to the end of the text. -/
def zone? : List Char → Option (Option Int)
  | [] => some none
  | cs =>
    match cs.dropWhile (fun c => c = ' ' ∨ c = '\t') with
    | ['Z'] => some (some 0)
    | sign :: rest =>
      if sign = '+' ∨ sign = '-' then
        match oneOrTwo? rest with
        | none => none
        | some (hours, _, rest) =>
          let signed (minutes : Nat) : Int :=
            if sign = '-' then -((hours * 60 + minutes : Nat) : Int) else hours * 60 + minutes
          match rest with
          | [] => some (some (signed 0))
          | _ =>
            match twoAfter? ':' rest with
            | some (minutes, []) => some (some (signed minutes))
            | _ => none
      else none
    | [] => none

/-- The time of day behind a date, which goes up to the end of the text. -/
def timeOfDay? (cs : List Char) : Option TimeOfDay := do
  let (hour, _, rest) ← oneOrTwo? cs
  let (minute, rest) ← twoAfter? ':' rest
  let (second, rest) ← twoAfter? ':' rest
  let (microsecond, rest) := fraction rest
  let ahead ← zone? rest
  return { hour, minute, second, microsecond, ahead }

/-- The text behind the mark or the blanks between a date and a time. -/
def afterDate? : List Char → Option (List Char)
  | 'T' :: rest | 't' :: rest => some rest
  | ' ' :: rest | '\t' :: rest => some (rest.dropWhile fun c => c = ' ' ∨ c = '\t')
  | _ => none

/-- The moment that a text writes. It is in full if it has a time or month and day have two
digits each. -/
def scan? (cs : List Char) : Option (Moment × Bool) := do
  let digits := cs.takeWhile Char.isDigit
  if digits.length ≠ 4 then none
  let year := digits.foldl (fun n d => n * 10 + (d.toNat - '0'.toNat)) 0
  match cs.drop 4 with
  | '-' :: rest =>
    let (month, wide, rest) ← oneOrTwo? rest
    match rest with
    | '-' :: rest =>
      let (day, wider, rest) ← oneOrTwo? rest
      let date : CivilDate := { year, month, day }
      if rest.isEmpty then return (⟨date, none⟩, wide = 2 ∧ wider = 2)
      else
        let time ← timeOfDay? (← afterDate? rest)
        return (⟨date, some time⟩, true)
    | _ => none
  | _ => none

/-- The form of a moment in full. -/
def isWritten (cs : List Char) : Bool := (scan? cs).any Prod.snd

/-! ### Checking -/

/-- The year has a day more than others. -/
def isLeap (year : Nat) : Bool := year % 4 == 0 && (year % 100 != 0 || year % 400 == 0)

/-- The number of days in a month. -/
def daysIn (year month : Nat) : Nat :=
  if month = 2 then (if isLeap year then 29 else 28)
  else if month = 4 ∨ month = 6 ∨ month = 9 ∨ month = 11 then 30
  else 31

/-- What is wrong with a date. -/
def dateFault? (d : CivilDate) : Option String :=
  if d.year = 0 then some "year 0 is out of range"
  else if d.month = 0 ∨ 12 < d.month then some "month must be in 1..12"
  else if d.day = 0 ∨ daysIn d.year d.month < d.day then some "day is out of range for month"
  else none

/-- A distance in minutes, as days and seconds. -/
def distanceText (minutes : Int) : String :=
  let days := Int.fdiv minutes 1440
  let seconds := Int.fmod minutes 1440 * 60
  let parts := (if days = 0 then [] else ["days=" ++ intText days]) ++
    (if seconds = 0 then [] else ["seconds=" ++ intText seconds])
  "datetime.timedelta(" ++ ", ".intercalate parts ++ ")"

/-- What is wrong with a time of day on a date. -/
def timeFault? (d : CivilDate) (t : TimeOfDay) : Option String :=
  match t.ahead with
  | some minutes =>
    if 1440 ≤ minutes.natAbs then
      some ("offset must be a timedelta strictly between -timedelta(hours=24) and " ++
        "timedelta(hours=24), not " ++ distanceText minutes ++ ".")
    else rest
  | none => rest
where
  rest : Option String :=
    match dateFault? d with
    | some fault => some fault
    | none =>
      if 23 < t.hour then some "hour must be in 0..23"
      else if 59 < t.minute then some "minute must be in 0..59"
      else if 59 < t.second then some "second must be in 0..59"
      else none

/-- What is wrong with a moment. -/
def fault? (m : Moment) : Option String :=
  match m.time with
  | some t => timeFault? m.date t
  | none => dateFault? m.date

/-! ### Showing -/

/-- The date in numbers. -/
def dateParts (d : CivilDate) : List String := [intText d.year, intText d.month, intText d.day]

/-- The time in numbers: seconds and their fraction are left out from the end if they are
zero. -/
def timeParts (t : TimeOfDay) : List String :=
  [intText t.hour, intText t.minute] ++
    (if t.second = 0 ∧ t.microsecond = 0 then [] else [intText t.second]) ++
    (if t.microsecond = 0 then [] else [intText t.microsecond])

/-- The distance from universal time. -/
def zonePart (minutes : Int) : String :=
  "tzinfo=" ++ if minutes = 0 then "datetime.timezone.utc"
    else "datetime.timezone(" ++ distanceText minutes ++ ")"

/-- The text of a moment where texts are quoted. -/
def exact (m : Moment) : String :=
  match m.time with
  | none => "datetime.date(" ++ ", ".intercalate (dateParts m.date) ++ ")"
  | some t => "datetime.datetime(" ++ ", ".intercalate
      (dateParts m.date ++ timeParts t ++ (t.ahead.map zonePart).toList) ++ ")"

/-- Hours and minutes in two digits each. -/
def clockText (minutes : Nat) : List Char :=
  paddedNumber 2 (minutes / 60) ++ ':' :: paddedNumber 2 (minutes % 60)

/-- The time of day in digits. -/
def timeText (t : TimeOfDay) : List Char :=
  clockText (t.hour * 60 + t.minute) ++ ':' :: paddedNumber 2 t.second ++
    (if t.microsecond = 0 then [] else '.' :: paddedNumber 6 t.microsecond) ++
    match t.ahead with
    | some minutes => (if minutes < 0 then '-' else '+') :: clockText minutes.natAbs
    | none => []

/-- The text of a moment where texts stand for themselves. -/
def plain (m : Moment) : String :=
  let date := paddedNumber 4 m.date.year ++ '-' :: paddedNumber 2 m.date.month ++ '-' ::
    paddedNumber 2 m.date.day
  String.ofList (date ++ match m.time with
    | some t => ' ' :: timeText t
    | none => [])

/-- The number of days from the first day that there is to a date. -/
def daysBefore (d : CivilDate) : Nat :=
  let years := d.year - 1
  let months := (List.range (d.month - 1)).foldl (fun n m => n + daysIn d.year (m + 1)) 0
  years * 365 + years / 4 - years / 100 + years / 400 + months + (d.day - 1)

/-- What equal moments have in common: the moment by universal time, if the distance from it is
known, and otherwise all that is written. -/
def same (m : Moment) : String :=
  match m.time with
  | some { hour, minute, second, microsecond, ahead := some ahead } =>
    let minutes : Int := (daysBefore m.date * 1440 + hour * 60 + minute : Nat) - ahead
    intText (minutes * 60 + second) ++ "." ++ intText microsecond
  | _ => exact m

/-- The value of the moment that a scalar writes. -/
def read (cs : List Char) : Except Fault Value :=
  match scan? cs with
  | none => .error .noMoment
  | some (m, _) =>
    match m.fault? with
    | some message => .error (.badNumber message)
    | none => .ok (.shown { exact := m.exact, plain := m.plain, same := m.same })

end Moment

end Peering.Yaml
