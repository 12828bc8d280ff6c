import AgenticKibana.Library.Doubles
import AgenticKibana.Library.Patterns
import AgenticKibana.Windows.Buckets

/-!
# The resolution of a time window

A specification is a value of any kind; its texts name relative windows, calendar periods up to
now or before the present one, periods by their number, and instants.  It becomes two instants, or
a failure.  Failures of the calendar are caught and become a `ValueError`; those of the clock, of
the zone and of the interpreter's stack are not.
-/

namespace AgenticKibana.Windows

open AgenticKibana.Library
open AgenticKibana.Library.Calendar
open AgenticKibana.Library.Patterns
open AgenticKibana.Library.TextLines (isSpace strip)
open AgenticKibana.Library.Zones

abbrev Text := List Char

inductive Double where
  | nan
  | infinite (negative : Bool)
  | finite (q : ℚ)

/-- A `datetime`: its reading, and the offset of one that is aware. -/
structure Moment where
  wall : Int
  offset : Option Int

/-- A value that a caller may pass; the keys of a dictionary by their `str`. -/
inductive Value where
  | null
  | bool (b : Bool)
  | int (n : Int)
  | float (f : Double)
  | text (t : Text)
  | dict (entries : List (Text × Value))
  | moment (m : Moment)
  | other (object : Nat)

/-- What the code takes from Python: zones and digits, `str.lower`, the `str` of a value that is no
text, and `datetime.fromisoformat`. -/
structure Runtime extends ZoneDatabase where
  lower : Text → Text
  str : Value → Text
  fromIso : Text → Option Moment

/-- What is raised: a `ValueError`, an `OverflowError` or `OSError`, or a `RecursionError`. -/
inductive Failure where
  | value
  | overflow
  | recursion
  deriving DecidableEq

def orFail {α : Type} (failure : Failure) : Option α → Except Failure α
  | some a => .ok a
  | none => .error failure

section Words

variable (rt : Runtime)

/-! ### Relative windows -/

/-- A letter regardless of its case, as `re.IGNORECASE` has it. -/
def foldCase (c : Char) : Char :=
  if c = 'ſ' then 's'
  else if c = '\u212A' then 'k'
  else if c = 'İ' ∨ c = 'ı' then 'i'
  else c.toLower

def isLetter (c : Char) : Bool := ('a' ≤ c && c ≤ 'z') || ('A' ≤ c && c ≤ 'Z')

def isDigit (c : Char) : Bool := (rt.digit c).isSome

/-- `int` of digits. -/
def number (digits : Text) : Nat := digits.foldl (fun n c => 10 * n + (rt.digit c).getD 0) 0

def literal (w : String) : Pattern := word (· == ·) w.toList

def anyCase (w : String) : Pattern := word (fun c d => foldCase d == c) w.toList

/-- `[\s_-]`. -/
def isGap (c : Char) : Bool := isSpace c || c == '_' || c == '-'

/-- `_RELATIVE_RE`. -/
def relativePattern : Pattern :=
  sequence [literal "now", many isSpace 0 none, literal "-", many isSpace 0 none,
    group (many (isDigit rt) 1 (some 6)), many isSpace 0 none, group (many isLetter 1 none)]

/-- `_LOOSE_RELATIVE_RE`. -/
def loosePattern : Pattern :=
  sequence [optional (sequence [oneOf [anyCase "last", anyCase "past", anyCase "previous",
      anyCase "trailing"], many isGap 0 none]),
    group (many (isDigit rt) 1 (some 6)), many isGap 0 none,
    group (many (fun c => isLetter (foldCase c)) 1 none)]

def keyed {α : Type} (table : List (String × α)) (key : Text) : Option α :=
  (table.find? fun entry => entry.1.toList == key).map (·.2)

def unitAliases : List (String × SpanUnit) :=
  [("m", .m), ("min", .m), ("mins", .m), ("minute", .m), ("minutes", .m),
    ("h", .h), ("hr", .h), ("hrs", .h), ("hour", .h), ("hours", .h),
    ("d", .d), ("day", .d), ("days", .d),
    ("w", .w), ("wk", .w), ("wks", .w), ("week", .w), ("weeks", .w),
    ("mo", .M), ("mon", .M), ("mons", .M), ("month", .M), ("months", .M),
    ("y", .y), ("yr", .y), ("yrs", .y), ("year", .y), ("years", .y)]

def parseRelative (raw : Text) : Option (Nat × SpanUnit) :=
  let text := strip raw
  match fullMatch (relativePattern rt) text <|> fullMatch (loosePattern rt) text with
  | some [amount, letters] =>
    if letters = ['M'] then some (number rt amount, .M)
    else (keyed unitAliases (rt.lower letters)).map fun unit => (number rt amount, unit)
  | _ => none

/-! ### Calendar tokens -/

inductive CalendarToken where
  | today
  | yesterday
  | thisWeek
  | lastWeek
  | thisMonth
  | lastMonth
  | thisQuarter
  | lastQuarter
  | ytd
  | thisYear
  | lastYear
  deriving DecidableEq

namespace CalendarToken

def name : CalendarToken → String
  | today => "today"
  | yesterday => "yesterday"
  | thisWeek => "this_week"
  | lastWeek => "last_week"
  | thisMonth => "this_month"
  | lastMonth => "last_month"
  | thisQuarter => "this_quarter"
  | lastQuarter => "last_quarter"
  | ytd => "ytd"
  | thisYear => "this_year"
  | lastYear => "last_year"

def unit : CalendarToken → BucketUnit
  | today | yesterday => .day
  | thisWeek | lastWeek => .week
  | thisMonth | lastMonth => .month
  | thisQuarter | lastQuarter => .quarter
  | ytd | thisYear | lastYear => .year

def present : CalendarToken → Bool
  | today | thisWeek | thisMonth | thisQuarter | ytd | thisYear => true
  | yesterday | lastWeek | lastMonth | lastQuarter | lastYear => false

end CalendarToken

def calendarAliases : List (String × CalendarToken) :=
  [("today", .today), ("yesterday", .yesterday),
    ("this_week", .thisWeek), ("current_week", .thisWeek), ("week_to_date", .thisWeek),
    ("wtd", .thisWeek), ("last_week", .lastWeek), ("previous_week", .lastWeek),
    ("prior_week", .lastWeek),
    ("this_month", .thisMonth), ("current_month", .thisMonth), ("month_to_date", .thisMonth),
    ("mtd", .thisMonth), ("last_month", .lastMonth), ("previous_month", .lastMonth),
    ("prior_month", .lastMonth),
    ("this_quarter", .thisQuarter), ("current_quarter", .thisQuarter),
    ("quarter_to_date", .thisQuarter), ("qtd", .thisQuarter), ("last_quarter", .lastQuarter),
    ("previous_quarter", .lastQuarter), ("prior_quarter", .lastQuarter),
    ("ytd", .ytd), ("year_to_date", .ytd),
    ("this_year", .thisYear), ("current_year", .thisYear),
    ("last_year", .lastYear), ("previous_year", .lastYear), ("prior_year", .lastYear)]

/-- `[\s-]`. -/
def isBlankOrDash (c : Char) : Bool := isSpace c || c == '-'

/-- `re.sub(r"[\s-]+", "_", text)`. -/
def underscored : Text → Text
  | [] => []
  | c :: cs =>
    if isBlankOrDash c then
      if cs.head?.any isBlankOrDash then underscored cs else '_' :: underscored cs
    else c :: underscored cs

def tokenKey (text : Text) : Text := underscored (rt.lower (strip text))

def calendarToken (text : Text) : Option CalendarToken := keyed calendarAliases (tokenKey rt text)

def allTokens : List String :=
  ["all", "lifetime", "all_time", "alltime", "all-time", "all time", "*", "ever", "everything",
    "forever", "since_the_beginning"]

def isAll (key : Text) : Bool := allTokens.any fun token => token.toList == key

inductive Literal where
  | year (year : Nat)
  | month (year month : Nat)
  | quarter (year : Nat) (quarter : Fin 4)
  | week (year week : Nat)
  | date (year month day : Nat)

/-- `int` of a digit of `[1-4]`, less one. -/
def quarterOf : Text → Option (Fin 4)
  | ['1'] => some 0
  | ['2'] => some 1
  | ['3'] => some 2
  | ['4'] => some 3
  | _ => none

/-- `_YEAR_RE`, `_MONTH_RE`, `_QUARTER_RE`, `_WEEK_RE` and `_DATE_RE`, in this order. -/
def parseLiteral (raw : Text) : Option Literal :=
  let digits (n : Nat) : Pattern := group (exactly (isDigit rt) n)
  let upToTwo : Pattern := group (many (isDigit rt) 1 (some 2))
  let quarterDigit : Pattern := group (exactly (fun c => '1' ≤ c && c ≤ '4') 1)
  let gap : Pattern := many isGap 0 (some 1)
  match fullMatch (digits 4) raw with
  | some [year] => some (.year (number rt year))
  | _ =>
  match fullMatch (sequence [digits 4, literal "-", upToTwo]) raw with
  | some [year, month] => some (.month (number rt year) (number rt month))
  | _ =>
  match fullMatch (sequence [digits 4, gap, anyCase "q", quarterDigit]) raw with
  | some [year, quarter] => (quarterOf quarter).map (.quarter (number rt year))
  | _ =>
  match fullMatch (sequence [anyCase "q", quarterDigit, gap, digits 4]) raw with
  | some [quarter, year] => (quarterOf quarter).map (.quarter (number rt year))
  | _ =>
  match fullMatch (sequence [digits 4, optional (literal "-"), anyCase "w", upToTwo]) raw with
  | some [year, week] => some (.week (number rt year) (number rt week))
  | _ =>
  match fullMatch (sequence [digits 4, literal "-", digits 2, literal "-", digits 2]) raw with
  | some [year, month, day] => some (.date (number rt year) (number rt month) (number rt day))
  | _ => none

def isDateOnly (raw : Text) : Bool :=
  (fullMatch (sequence [exactly (isDigit rt) 4, literal "-", exactly (isDigit rt) 2, literal "-",
    exactly (isDigit rt) 2]) (strip raw)).isSome

def epoch : Int := daysBeforeYear 1970 * Zones.day

/-- `datetime.fromtimestamp(seconds, tz=timezone.utc)`; nothing where it raises. -/
def fromTimestamp (seconds : ℚ) : Option Int :=
  let whole : ℤ := if 0 ≤ seconds then ⌊seconds⌋ else ⌈seconds⌉
  let micros := Doubles.roundHalfEven (Doubles.toDouble ((seconds - whole) * 1000000))
  checked (epoch + whole * second + micros)

/-- `value / 1000.0 if abs(value) > 10**11 else float(value)`. -/
def epochSeconds (value : ℚ) : ℚ :=
  if 10 ^ 11 < |value| then Doubles.toDouble (Doubles.toDouble value / 1000)
  else Doubles.toDouble value

/-- `_EPOCH_RE`, with its number. -/
def parseEpoch (text : Text) : Option Int :=
  match fullMatch (sequence [group (optional (literal "-")),
    group (many (isDigit rt) 10 (some 16))]) text with
  | some [sign, digits] =>
    some (if sign = [] then (number rt digits : Int) else -(number rt digits : Int))
  | _ => none

/-- `text.replace(" ", "T", 1) if "T" not in text else text`. -/
def withT (text : Text) : Text :=
  if 'T' ∈ text then text
  else
    match text.span (· != ' ') with
    | (before, _ :: after) => before ++ 'T' :: after
    | (before, []) => before

/-- `re.sub(r"[zZ]$", "+00:00", text)`. -/
def spellZulu (text : Text) : Text :=
  match text.getLast? with
  | some c => if c = 'z' ∨ c = 'Z' then text.dropLast ++ "+00:00".toList else text
  | none => text

/-- A `datetime` in UTC, a naive one read in a zone; nothing where `astimezone` raises. -/
def inUtc (z : Zone) (m : Moment) : Option Int :=
  match m.offset with
  | some offset => checked (m.wall - offset)
  | none => checked (z.resolve m.wall)

def parseInstant (z : Zone) (raw : Text) : Except Failure (Option Int) :=
  let text := strip raw
  if text = [] then .ok none
  else
    match parseEpoch rt text with
    | some value => .ok (fromTimestamp (epochSeconds value))
    | none =>
      match rt.fromIso (spellZulu (withT text)) with
      | none => .ok none
      | some m => (orFail .overflow (inUtc z m)).map some

end Words

/-! ### Spans -/

structure Span where
  start : Option Int
  stop : Int
  label : String
  token : Token
  kind : WindowKind
  zoneDependent : Bool
  openEnd : Bool := false
  dateAligned : Bool := false

def SpanUnit.letter : SpanUnit → String
  | .m => "m"
  | .h => "h"
  | .d => "d"
  | .w => "w"
  | .M => "M"
  | .y => "y"

def Token.spelled : Token → String
  | .relative amount unit => "now-" ++ toString amount ++ unit.letter
  | .text t => t

/-- `_MONTHS_LONG`. -/
def monthNamesLong : List String :=
  ["January", "February", "March", "April", "May", "June", "July", "August", "September",
    "October", "November", "December"]

def monthNameLong (month : Nat) : String := monthNamesLong.getD (month - 1) ""

def padded (width n : Nat) : String :=
  String.ofList (List.replicate (width - (toString n).length) '0') ++ toString n

/-- `date.isoformat()`. -/
def isoDay (d : Nat) : String :=
  padded 4 (dateOfDay d).year ++ "-" ++ padded 2 (dateOfDay d).month ++ "-" ++
    padded 2 (dateOfDay d).day

/-- `datetime.isoformat()` in UTC. -/
def isoInstant (t : Int) : String :=
  let clock := (t % Zones.day).toNat
  isoDay (t / Zones.day).toNat ++ "T" ++ padded 2 (clock / 3600000000) ++ ":" ++
    padded 2 (clock % 3600000000 / 60000000) ++ ":" ++ padded 2 (clock % 60000000 / 1000000) ++
    (if clock % 1000000 = 0 then "" else "." ++ padded 6 (clock % 1000000)) ++ "+00:00"

def allSpan (now : Int) : Span where
  start := none
  stop := now
  label := "all time"
  token := .text "all"
  kind := .all
  zoneDependent := false
  openEnd := true

section Spans

variable (z : Zone) (now : Int)

def relativeSpan (amount : Nat) (unit : SpanUnit) : Except Failure Span :=
  (orFail .value (relativeStart z amount unit now)).map fun start =>
    { start := some start
      stop := now
      label := "last " ++ toString amount ++ " " ++ unit.word ++ (if amount = 1 then "" else "s")
      token := .relative amount unit
      kind := .relative
      zoneDependent := false }

def midnightOf (d : Nat) : Except Failure Int := orFail .overflow (localMidnight z d)

def previousFirst (unit : BucketUnit) (first : Nat) : Except Failure Nat :=
  match unit with
  | .day | .week => orFail .overflow (shiftedFirst unit first (-1))
  | unit => orFail .value (shiftedFirst unit first (-1))

def calendarLabel (token : CalendarToken) (first : Nat) : String :=
  let date := dateOfDay first
  match token with
  | .today | .yesterday => token.name
  | .thisWeek => "this week"
  | .lastWeek => "last week"
  | .thisMonth | .lastMonth => monthNameLong date.month ++ " " ++ toString date.year
  | .thisQuarter | .lastQuarter =>
    "Q" ++ toString ((date.month - 1) / 3 + 1) ++ " " ++ toString date.year
  | .ytd => toString date.year ++ " to date"
  | .thisYear | .lastYear => toString date.year

def calendarSpan (token : CalendarToken) : Except Failure Span := do
  let d ← orFail .overflow (localDay z now)
  let first ← orFail .value (periodFirst token.unit d)
  if token.present then
    let start ← midnightOf z first
    return {
      start := some start
      stop := now
      label := calendarLabel token first
      token := .text token.name
      kind := .calendar
      zoneDependent := true
      dateAligned := true }
  else
    let before ← previousFirst token.unit first
    let start ← midnightOf z before
    let stop ← midnightOf z first
    return {
      start := some start
      stop
      label := calendarLabel token before
      token := .text token.name
      kind := .calendar
      zoneDependent := true
      dateAligned := true }

def checkYear (year : Nat) : Except Failure Unit :=
  if 1970 ≤ year ∧ year ≤ 9998 then .ok () else .error .value

/-- `date.fromisocalendar(year, week, 1)`. -/
def isoMonday (year week : Nat) : Option Nat :=
  let fourth := daysBeforeYear year + 3
  let monday := fourth - fourth % 7 + 7 * (week - 1)
  if 1 ≤ week ∧ week ≤ 53 ∧ isoWeek monday = (year, week) then some monday else none

/-- `date(year, month, day)`. -/
def dayOfDate (year month day : Nat) : Option Nat :=
  if 1 ≤ year ∧ year ≤ 9999 ∧ 1 ≤ month ∧ month ≤ 12 ∧ 1 ≤ day ∧ day ≤ monthDays year month then
    some (daysBeforeYear year + daysBeforeMonth year month + (day - 1))
  else none

def periodSpan (first next : Nat) (label token : String) : Except Failure Span := do
  let start ← midnightOf z first
  let stop ← midnightOf z next
  return {
    start := some start
    stop
    label
    token := .text token
    kind := .period
    zoneDependent := true
    dateAligned := true }

def literalSpan : Literal → Except Failure Span
  | .year year => do
      checkYear year
      let first ← orFail .value (firstOfMonth year 1)
      let next ← orFail .value (firstOfMonth ((year : Int) + 1) 1)
      periodSpan z first next (toString year) (padded 4 year)
  | .month year month => do
      checkYear year
      if ¬ (1 ≤ month ∧ month ≤ 12) then .error .value
      let after := addMonths year month 1
      let first ← orFail .value (firstOfMonth year month)
      let next ← orFail .value (firstOfMonth after.1 after.2)
      periodSpan z first next (monthNameLong month ++ " " ++ toString year)
        (padded 4 year ++ "-" ++ padded 2 month)
  | .quarter year quarter => do
      checkYear year
      let month := 3 * quarter.val + 1
      let first ← orFail .value (firstOfMonth year month)
      let after := addMonths year month 3
      let next ← orFail .value (firstOfMonth after.1 after.2)
      periodSpan z first next ("Q" ++ toString (quarter.val + 1) ++ " " ++ toString year)
        (padded 4 year ++ "-Q" ++ toString (quarter.val + 1))
  | .week year week => do
      checkYear year
      let monday ← orFail .value (isoMonday year week)
      let next ← orFail .overflow (checkedDay (monday + 7))
      periodSpan z monday next ("W" ++ padded 2 week ++ " " ++ toString year)
        (padded 4 year ++ "-W" ++ padded 2 week)
  | .date year month day => do
      let d ← orFail .value (dayOfDate year month day)
      checkYear year
      let next ← orFail .overflow (checkedDay (d + 1))
      periodSpan z d next (fmtDay d) (isoDay d)

end Spans

section Resolve

variable (rt : Runtime)

def periodLiteral (z : Zone) (raw : Text) : Except Failure (Option Span) :=
  match parseLiteral rt raw with
  | none => .ok none
  | some literal => (literalSpan z literal).map some

def singleSpan (z : Zone) (now : Int) (raw : Text) : Except Failure (Option Span) :=
  match parseRelative rt raw with
  | some (amount, unit) =>
    if amount = 0 then .error .value else (relativeSpan z now amount unit).map some
  | none =>
    match calendarToken rt raw with
    | some token => (calendarSpan z now token).map some
    | none => periodLiteral rt z (strip raw)

/-! ### Ranges -/

/-- Whether one of the values is not blank; `any` stops at the first. -/
def anyFilled (blank : Value → Except Failure Bool) : List (Text × Value) → Except Failure Bool
  | [] => .ok false
  | (_, v) :: more => do
      if ← blank v then anyFilled blank more else return true

/-- `_is_blank`, where the stack has room for so many nested dictionaries. -/
def isBlank : Nat → Value → Except Failure Bool
  | _, .null => .ok true
  | _, .text t => .ok (strip t).isEmpty
  | 0, .dict _ => .error .recursion
  | room + 1, .dict entries => (anyFilled (isBlank room) entries).map (!·)
  | _, _ => .ok false

structure Bound where
  instant : Option Int
  span : Option Span := none
  token : String

/-- The text of `str(value).strip()`. -/
def textOf (v : Value) : Text :=
  strip (match v with
    | .text t => t
    | v => rt.str v)

def isNow (text : Text) : Bool := rt.lower (strip text) == "now".toList

/-- Whether a value is the text `now`. -/
def isNowValue (value : Value) : Bool :=
  match value with
  | .text t => isNow rt t
  | _ => false

/-- What `_bound` makes of a text. -/
def textBound (z : Zone) (now : Int) (isFrom : Bool) (text : Text) : Except Failure Bound := do
  if isNow rt text then return ⟨some now, none, "now"⟩
  match parseRelative rt text with
  | some (amount, unit) =>
    let span ← relativeSpan z now amount unit
    return ⟨span.start, none, span.token.spelled⟩
  | none =>
  if isAll (tokenKey rt text) then
    return if isFrom then ⟨none, none, "all"⟩ else ⟨some now, none, "now"⟩
  match calendarToken rt text with
  | some token =>
    let span ← calendarSpan z now token
    return ⟨if isFrom then span.start else some span.stop, some span, span.token.spelled⟩
  | none =>
  match ← periodLiteral rt z text with
  | some span => return ⟨if isFrom then span.start else some span.stop, some span,
      span.token.spelled⟩
  | none =>
  match ← parseInstant rt z text with
  | some instant => return ⟨some instant, none, isoInstant instant⟩
  | none => .error .value

def numberBound (value : ℚ) : Except Failure Bound :=
  (orFail .value (fromTimestamp (epochSeconds value))).map fun instant =>
    ⟨some instant, none, isoInstant instant⟩

def doubleEnd : Nat := 2 ^ 1024 - 2 ^ 970

def bound (z : Zone) (now : Int) (room : Nat) (isFrom : Bool) (value : Value) :
    Except Failure Bound := do
  if ← isBlank room value then return ⟨none, none, ""⟩
  match value with
  | .bool _ => .error .value
  | .moment m =>
    let instant ← orFail .overflow (inUtc z m)
    return ⟨some instant, none, isoInstant instant⟩
  | .int n => if n.natAbs < doubleEnd then numberBound n else .error .overflow
  | .float .nan => .error .value
  | .float (.infinite _) => .error .overflow
  | .float (.finite q) => numberBound q
  | value => textBound rt z now isFrom (textOf rt value)

def isMidnight (z : Zone) (instant : Int) : Except Failure Bool :=
  (orFail .overflow (localTime z instant)).map fun w => w % Zones.day == 0

def fmtInstant (z : Zone) (instant : Int) : Except Failure String :=
  (orFail .overflow (localTime z instant)).map fun w =>
    let clock := w % Zones.day
    fmtDay (w / Zones.day).toNat ++ " " ++ twoDigits (clock / hour).toNat ++ ":" ++
      twoDigits (clock % hour / (60 * second)).toNat

def lastDay (z : Zone) (instant : Int) : Except Failure Nat := do
  let w ← orFail .overflow (localTime z instant)
  let before ← orFail .overflow (checked (w - 1))
  return (before / Zones.day).toNat

/-- `_is_date_only` of a value. -/
def dateOnly (v : Value) : Bool :=
  match v with
  | .text t => isDateOnly rt t
  | _ => false

/-- Whether a bound is a whole local day or period. -/
def aligned (z : Zone) (value : Value) (span : Option Span) (instant : Int) :
    Except Failure Bool :=
  if dateOnly rt value || span.any (·.dateAligned) then .ok true else isMidnight z instant

/-- `_fmt_day` without the year. -/
def fmtDayShort (d : Nat) : String :=
  toString (dateOfDay d).day ++ " " ++ monthName (dateOfDay d).month

def untilLabel (z : Zone) (stop : Int) (hiIsNow endAligned : Bool) : Except Failure String :=
  if hiIsNow then .ok "all time"
  else if endAligned then (lastDay z stop).map fun last => "until " ++ fmtDay last
  else (fmtInstant z stop).map fun label => "until " ++ label

def sinceLabel (z : Zone) (start : Int) (startAligned : Bool) : Except Failure String :=
  if startAligned then
    (orFail .overflow (localDay z start)).map fun first => "since " ++ fmtDay first
  else (fmtInstant z start).map fun label => "since " ++ label

def daysLabel (first last : Nat) : String :=
  if first = last then fmtDay first
  else if (dateOfDay first).year = (dateOfDay last).year then
    fmtDayShort first ++ " – " ++ fmtDay last
  else fmtDay first ++ " – " ++ fmtDay last

def betweenLabel (z : Zone) (start stop : Int) (wholeDays : Bool) : Except Failure String :=
  if wholeDays then
    (orFail .overflow (localDay z start)).bind fun first =>
      (lastDay z stop).map fun last => daysLabel first last
  else
    (fmtInstant z start).bind fun from' =>
      (fmtInstant z stop).map fun upto => from' ++ " – " ++ upto

def rangeLabel (z : Zone) (start : Option Int) (stop : Int) (lo hi : Value)
    (loSpan hiSpan : Option Span) (openToNow : Bool) : Except Failure String :=
  let hiIsNow := openToNow || isNowValue rt hi
  let startAligned := match start with
    | some s => aligned rt z lo loSpan s
    | none => .ok false
  let endAligned := if hiIsNow then .ok false else aligned rt z hi hiSpan stop
  startAligned.bind fun atStart =>
    endAligned.bind fun atEnd =>
      match start with
      | none => untilLabel z stop hiIsNow atEnd
      | some start =>
        if hiIsNow then sinceLabel z start atStart
        else betweenLabel z start stop (atStart && atEnd)

def composeBounds (z : Zone) (now : Int) (room : Nat) (lo hi : Value) : Except Failure Span := do
  let from' ← bound rt z now room true lo
  let upto ← bound rt z now room false hi
  let stop := upto.instant.getD now
  if from'.instant.any (stop ≤ ·) then .error .value
  let label ← rangeLabel rt z from'.instant stop lo hi from'.span upto.span upto.instant.isNone
  return {
    start := from'.instant
    stop
    label
    token := .text ((if from'.token = "" then "all" else from'.token) ++ ".." ++
      (if upto.token = "" then "now" else upto.token))
    kind := .range
    zoneDependent := true }

def relativeBound (value : Value) : Option (Nat × SpanUnit) :=
  match value with
  | .text t => parseRelative rt t
  | _ => none

def composeRange (z : Zone) (now : Int) (room : Nat) (lo hi : Value) : Except Failure Span :=
  (isBlank room hi).bind fun blank =>
    match relativeBound rt lo with
    | some (amount, unit) =>
      if (blank || isNowValue rt hi) ∧ 0 < amount then relativeSpan z now amount unit
      else composeBounds rt z now room lo hi
    | none => composeBounds rt z now room lo hi

/-! ### Specifications -/

def rangeKeys : List (String × String) :=
  [("from", "to"), ("start", "end"), ("time_from", "time_to"), ("gte", "lte"), ("since", "until")]

/-- The keys of a dictionary as they are compared; of two that are the same the last one counts. -/
def lowered (entries : List (Text × Value)) : List (Text × Value) :=
  entries.map fun entry => (rt.lower (strip entry.1), entry.2)

def lookup (entries : List (Text × Value)) (key : String) : Option Value :=
  (entries.reverse.find? fun entry => entry.1 == key.toList).map (·.2)

inductive DictForm where
  | range (lo hi : Value)
  | window (v : Value)
  | unknown

def dictForm (entries : List (Text × Value)) : DictForm :=
  let known (keys : List String) : Bool :=
    entries.all fun entry => keys.any fun key => entry.1 == key.toList
  match rangeKeys.find? fun keys =>
      (lookup entries keys.1).isSome || (lookup entries keys.2).isSome with
  | some (lo, hi) =>
    if known [lo, hi] then
      .range ((lookup entries lo).getD .null) ((lookup entries hi).getD .null)
    else .unknown
  | none =>
    match lookup entries "window" with
    | some v => if known ["window"] then .window v else .unknown
    | none => .unknown

def partition (separator : Text) : Text → Option (Text × Text)
  | [] => none
  | c :: cs =>
    if separator.isPrefixOf (c :: cs) then some ([], (c :: cs).drop separator.length)
    else (partition separator cs).map fun (before, after) => (c :: before, after)

/-- `text.strip() or None`. -/
def stripped (text : Text) : Value := if strip text = [] then .null else .text (strip text)

/-- `_resolve_spec` of a number of hours. -/
def hoursSpan (z : Zone) (now : Int) (hours : Int) : Except Failure Span :=
  if hours = 0 then .ok (allSpan now)
  else if hours < 0 then .error .value
  else if hours % 24 = 0 then relativeSpan z now (hours / 24).toNat .d
  else relativeSpan z now hours.toNat .h

/-- `_resolve_spec` of a double. -/
def doubleSpan (z : Zone) (now : Int) : Double → Except Failure Span
  | .nan => .error .value
  | .infinite negative => .error (if negative then .value else .overflow)
  | .finite q =>
    if q.den = 1 then hoursSpan z now q.num
    else if q < 0 then .error .value
    else
      let minutes := Doubles.roundHalfEven (Doubles.toDouble (q * 60))
      if minutes < 1 then .error .value else relativeSpan z now minutes.toNat .m

/-- `_resolve_spec` of a text. -/
def textSpan (z : Zone) (now : Int) (room : Nat) (text : Text) : Except Failure Span := do
  let raw := strip text
  if isAll (rt.lower raw) then return allSpan now
  match partition "..".toList raw <|> partition "/".toList raw with
  | some (left, right) => composeRange rt z now room (stripped left) (stripped right)
  | none =>
  match ← singleSpan rt z now raw with
  | some span => return span
  | none =>
  match ← parseInstant rt z raw with
  | some _ => composeRange rt z now room (.text raw) .null
  | none => .error .value

/-- `_resolve_spec`, where the stack has room for so many nested dictionaries. -/
def resolveSpec (z : Zone) (now : Int) : Nat → Value → Except Failure Span
  | _, .int hours => hoursSpan z now hours
  | _, .float f => doubleSpan z now f
  | room, .text t => textSpan rt z now room t
  | room, .dict entries =>
    match dictForm (lowered rt entries) with
    | .unknown => .error .value
    | .range lo hi => composeRange rt z now room lo hi
    | .window v =>
      match room with
      | 0 => .error .recursion
      | room + 1 => resolveSpec z now room v
  | _, _ => .error .value

def awareUtc (m : Moment) : Except Failure Int :=
  match m.offset with
  | some offset => orFail .overflow (checked (m.wall - offset))
  | none => .ok m.wall

def chosenSpec (room : Nat) (spec : Value) (default : Text) : Except Failure Value := do
  if ← isBlank room spec then return .text (if strip default = [] then "all".toList else default)
  else return spec

def withZone (label name : String) : String :=
  if name = "UTC" then label else label ++ " (" ++ name ++ ")"

def windowOf (span : Span) (name : String) (now : Int) : ResolvedWindow where
  start := span.start
  stop := span.stop
  label := if span.zoneDependent then withZone span.label name else span.label
  tz := name
  token := span.token
  now := some now
  openEnd := span.openEnd
  kind := span.kind

/-- `except (OverflowError, OSError)`: what the calendar cannot represent is a `ValueError`. -/
def caught {α : Type} : Except Failure α → Except Failure α
  | .error .overflow => .error .value
  | result => result

def resolveWindow (room : Nat) (spec : Value) (tz : String) (now : Moment) (default : Text) :
    Except Failure ResolvedWindow := do
  let (t, name) ← orFail .value (zoneFor rt.toZoneDatabase tz)
  let now ← awareUtc now
  let spec ← chosenSpec room spec default
  let span ← caught (resolveSpec rt t.zone now room spec)
  return windowOf span name now

end Resolve

end AgenticKibana.Windows
