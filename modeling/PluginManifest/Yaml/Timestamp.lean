import PluginManifest.Value.Basic
import PluginManifest.Yaml.Cursor

/-! # Written dates and times

A date is a year, a month and a day between hyphens.  A time of the day may follow, with a fraction of
a second and a time zone. -/

namespace PluginManifest.Yaml

/-- The time zone behind a written time. -/
inductive Zone
  /-- None is written. -/
  | absent
  /-- So many minutes ahead of the universal time, or behind it. -/
  | offset (minutes : Int)
deriving DecidableEq, Repr

/-- A written time of the day. -/
structure Clock where
  /-- The hour. -/
  hour : Nat
  /-- The minute. -/
  minute : Nat
  /-- The second. -/
  second : Nat
  /-- The digits of the fraction of a second. -/
  fraction : Text
  /-- The time zone. -/
  zone : Zone

/-- A written date, with the time of the day if there is one. -/
structure Moment where
  /-- The year. -/
  year : Nat
  /-- The month. -/
  month : Nat
  /-- The day. -/
  day : Nat
  /-- The time of the day. -/
  clock : Option Clock

/-! ### Reading -/

/-- A space or a tab. -/
def isGap (c : CodePoint) : Bool := c = ' ' || c = '\t'

/-- A run of `least` to `most` digits, and what follows it. -/
def takeNumber? (least most : Nat) (t : Text) : Option (Nat × Text) :=
  let run := t.takeWhile CodePoint.isDigit
  if least ≤ run.length && run.length ≤ most then
    (Text.toNat? 10 run).map fun n => (n, t.drop run.length)
  else none

/-- The digits behind a point, and what follows them; a point may be missing. -/
def takeFraction (t : Text) : Text × Text :=
  match Text.dropStart? "." t with
  | some t => (t.takeWhile CodePoint.isDigit, t.dropWhile CodePoint.isDigit)
  | none => ([], t)

/-- A time zone behind its sign. -/
def takeOffset? (t : Text) : Option (Nat × Text) := do
  let (hours, t) ← takeNumber? 1 2 t
  match Text.dropStart? ":" t with
  | some t => do
    let (minutes, t) ← takeNumber? 2 2 t
    some (hours * 60 + minutes, t)
  | none => some (hours * 60, t)

/-- A time zone, and what follows it; spaces belong to the time zone behind them. -/
def takeZone? (t : Text) : Option (Zone × Text) :=
  match t.dropWhile isGap with
  | [] => some (.absent, t)
  | c :: rest =>
    if c = 'Z' then some (.offset 0, rest)
    else if c = '+' then (takeOffset? rest).map fun (minutes, t) => (.offset minutes, t)
    else if c = '-' then (takeOffset? rest).map fun (minutes, t) => (.offset (-(minutes : Int)), t)
    else some (.absent, t)

/-- What follows the mark between a date and a time: the letter T, or spaces. -/
def dropTimeMark? : Text → Option Text
  | [] => none
  | c :: rest =>
    if c = 'T' || c = 't' then some rest
    else if isGap c then some (rest.dropWhile isGap)
    else none

/-- A time of the day, and what follows it. -/
def takeClock? (t : Text) : Option (Clock × Text) := do
  let (hour, t) ← takeNumber? 1 2 (← dropTimeMark? t)
  let (minute, t) ← takeNumber? 2 2 (← Text.dropStart? ":" t)
  let (second, t) ← takeNumber? 2 2 (← Text.dropStart? ":" t)
  let (fraction, t) := takeFraction t
  let (zone, t) ← takeZone? t
  some (⟨hour, minute, second, fraction, zone⟩, t)

/-- The end of a text, or the line break at its end. -/
def isEnd (t : Text) : Bool := t.isEmpty || t = "\n"

/-- The date and the time that a text writes. -/
def Moment.read? (t : Text) : Option Moment := do
  let (year, t) ← takeNumber? 4 4 t
  let (month, t) ← takeNumber? 1 2 (← Text.dropStart? "-" t)
  let (day, t) ← takeNumber? 1 2 (← Text.dropStart? "-" t)
  if isEnd t then some ⟨year, month, day, none⟩
  else
    let (clock, t) ← takeClock? t
    if isEnd t then some ⟨year, month, day, some clock⟩ else none

/-- A plain text is a timestamp; month and day of a date alone have two digits. -/
def isTimestamp (t : Text) : Bool :=
  match Moment.read? t with
  | some moment => moment.clock.isSome || t.length = 10
  | none => false

/-! ### Values -/

/-- The microseconds that the digits of a fraction of a second write; more than six are cut. -/
def microseconds (fraction : Text) : Nat :=
  let digits := fraction.take 6
  ((Text.toNat? 10 digits).getD 0) * Nat.pow 10 (6 - digits.length)

/-- The microseconds of a day. -/
def dayLength : Nat := Timestamp.ofMinutes (24 * 60)

/-- The timestamp of a written date and time, if they are on the calendar. -/
def Moment.timestamp? (moment : Moment) : Option Timestamp := do
  let day ← Timestamp.dayNumber? moment.year moment.month moment.day
  match moment.clock with
  | none => some (.day day)
  | some clock =>
    let time ← Timestamp.ofClock? clock.hour clock.minute clock.second (microseconds clock.fraction)
    let here := day * dayLength + time
    match clock.zone with
    | .absent => some (.clock here)
    | .offset minutes =>
      if minutes.natAbs < 24 * 60 then
        some (.instant ((here : Int) - minutes * Timestamp.ofMinutes 1))
      else none

/-- The value of a timestamp. -/
def timestampValue (t : Text) : Except Error Value :=
  match Moment.read? t with
  | none => .error .noTimestamp
  | some moment =>
    match moment.timestamp? with
    | some timestamp => .ok (.timestamp timestamp)
    | none => .error .badTimestamp

end PluginManifest.Yaml
