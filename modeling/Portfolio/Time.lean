/-
# Dates and timestamps

The `time` crate's `Date` (years -9999 to 9999), its text and the parse of
`[year]-[month]-[day]`, and timestamps as `timestamptz` keeps them: the UTC
instant in microseconds from the Unix epoch. The plugin's own clock has
nanoseconds. Their texts are RFC 3339, which has none for a year outside 0 to
9999.

Key definitions: `Date`, `Date.text`, `Date.parse`, `OffsetDateTime`,
`Instant`, `formatTimestamp`, `formatInstant`.
-/
import Mathlib.Data.Int.Notation
import Mathlib.Data.Nat.Notation
import Mathlib.Algebra.Order.Ring.Int

namespace Portfolio

/-- The days of a month of the proleptic Gregorian calendar. -/
def daysInMonth (year : ℤ) (month : ℕ) : ℕ :=
  if month = 2 then
    if year % 4 = 0 ∧ (year % 100 ≠ 0 ∨ year % 400 = 0) then 29 else 28
  else if month = 4 ∨ month = 6 ∨ month = 9 ∨ month = 11 then 30 else 31

/-- A calendar date, as `time::Date` admits it. -/
structure Date where
  year : ℤ
  month : ℕ
  day : ℕ
  year_le : -9999 ≤ year ∧ year ≤ 9999
  month_le : 1 ≤ month ∧ month ≤ 12
  day_le : 1 ≤ day ∧ day ≤ daysInMonth year month
deriving DecidableEq

/-- Chronological order. -/
def Date.before (a b : Date) : Bool :=
  decide (a.year < b.year ∨ (a.year = b.year ∧ (a.month < b.month ∨ (a.month = b.month ∧ a.day < b.day))))

/-- `n` with zeros before it, `w` digits at least. -/
def padded (w n : ℕ) : String :=
  String.ofList (List.replicate (w - (toString n).length) '0') ++ toString n

/-- `Display` of a date: at least four digits of the year, a minus before
those of a negative one. -/
def Date.text (d : Date) : String :=
  (if d.year < 0 then "-" else "") ++ padded 4 d.year.natAbs ++ "-" ++ padded 2 d.month ++ "-" ++
    padded 2 d.day

/-- The value of a run of decimal digits. -/
def digits : List Char → Option ℕ
  | [] => some 0
  | cs => cs.foldlM (fun n c => if c.isDigit then some (10 * n + (c.toNat - '0'.toNat)) else none) 0

/-- `Date::from_calendar_date`. -/
def Date.fromCalendarDate (year : ℤ) (month day : ℕ) : Option Date :=
  if h : (-9999 ≤ year ∧ year ≤ 9999) ∧ (1 ≤ month ∧ month ≤ 12) ∧
      (1 ≤ day ∧ day ≤ daysInMonth year month) then
    some ⟨year, month, day, h.1, h.2.1, h.2.2⟩
  else none

/-- A date after its sign: four digits, two and two. -/
def parseUnsigned (negative : Bool) : List Char → Option Date
  | [y₁, y₂, y₃, y₄, '-', m₁, m₂, '-', d₁, d₂] => do
    let y ← digits [y₁, y₂, y₃, y₄]
    let m ← digits [m₁, m₂]
    let d ← digits [d₁, d₂]
    Date.fromCalendarDate (if negative then -y else y) m d
  | _ => none

/-- `Date::parse` of `[year]-[month]-[day]`: the year may have a sign. -/
def Date.parse (value : String) : Option Date :=
  match value.toList with
  | '-' :: cs => parseUnsigned true cs
  | '+' :: cs => parseUnsigned false cs
  | cs => parseUnsigned false cs

/-- The dates a `date` column holds: from November 24 of 4714 BC (Julian day 0) on. -/
def Date.storable (d : Date) : Bool :=
  decide (-4713 < d.year ∨ (d.year = -4713 ∧ (11 < d.month ∨ (d.month = 11 ∧ 24 ≤ d.day))))

/-- A UTC instant: microseconds from the Unix epoch. -/
abbrev OffsetDateTime := ℤ

/-- Year, month and day of a day counted from the Unix epoch. -/
def civil (days : ℤ) : ℤ × ℕ × ℕ :=
  let z := days + 719468
  let era := z / 146097
  let doe := (z % 146097).toNat
  let yoe := (doe - doe / 1460 + doe / 36524 - doe / 146096) / 365
  let doy := doe - (365 * yoe + yoe / 4 - yoe / 100)
  let mp := (5 * doy + 2) / 153
  let m := if mp < 10 then mp + 3 else mp - 9
  (yoe + era * 400 + (if m ≤ 2 then 1 else 0), m, doy - (153 * mp + 2) / 5 + 1)

/-- The decimals of a second in so many digits, without the zeros at the end. -/
def fraction (width decimals : ℕ) : String :=
  if decimals = 0 then ""
  else "." ++ String.ofList ((padded width decimals).toList.reverse.dropWhile (· = '0')).reverse

/-- RFC 3339 of a second from the Unix epoch and what comes after it; there is none for a year outside 0 to 9999. -/
def rfc3339 (seconds : ℤ) (decimals : String) : Option String :=
  let (year, month, day) := civil (seconds / 86400)
  let second := (seconds % 86400).toNat
  if 0 ≤ year ∧ year ≤ 9999 then
    some (padded 4 year.toNat ++ "-" ++ padded 2 month ++ "-" ++ padded 2 day ++ "T" ++
      padded 2 (second / 3600) ++ ":" ++ padded 2 (second / 60 % 60) ++ ":" ++
      padded 2 (second % 60) ++ decimals ++ "Z")
  else none

/-- `format_timestamp` of a stored timestamp. -/
def formatTimestamp (value : OffsetDateTime) : Option String :=
  rfc3339 (value / 1000000) (fraction 6 (value % 1000000).toNat)

/-- A UTC instant of the plugin's own clock: nanoseconds from the Unix epoch. -/
abbrev Instant := ℤ

/-- `format_timestamp` of an instant of the plugin's own clock. -/
def formatInstant (value : Instant) : Option String :=
  rfc3339 (value / 1000000000) (fraction 9 (value % 1000000000).toNat)

/-- `optional_timestamp`: the text of a timestamp that may be missing. -/
def optionalTimestamp : Option OffsetDateTime → Option (Option String)
  | none => some none
  | some value => (formatTimestamp value).map some

/-- `optional_date`. -/
def optionalDate (value : Option Date) : Option String := value.map Date.text

example : formatTimestamp 0 = some "1970-01-01T00:00:00Z" := by decide
example : formatTimestamp 1788048000123400 = some "2026-08-30T00:00:00.1234Z" := by decide
example : formatInstant 1788048000123400001 = some "2026-08-30T00:00:00.123400001Z" := by decide
example : (Date.parse "2026-08-30").map Date.text = some "2026-08-30" := by decide

end Portfolio
