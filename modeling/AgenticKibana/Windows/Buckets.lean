import AgenticKibana.Library.TextLines
import AgenticKibana.Library.Zones

/-!
# Calendar periods of an operator's zone, windows and their buckets

Hours, days, weeks, months, quarters and years as they are on the operator's clock.  Nothing is
returned where Python raises: a year before one or after 9999, or an instant beyond them.  A
resolved window is broken down into buckets, and a relative one is aligned to whole periods of its
own unit.
-/

namespace AgenticKibana.Windows

open AgenticKibana.Library
open AgenticKibana.Library.Calendar
open AgenticKibana.Library.Zones

/-- `BUCKET_UNITS`, from the smallest. -/
inductive BucketUnit where
  | hour
  | day
  | week
  | month
  | quarter
  | year
  deriving DecidableEq

/-! ### Zones -/

structure TimeZone where
  zone : Zone
  tzname : Int → String

/-- What is not part of the code: `ZoneInfo` (nothing where it raises), and the value of a digit of
any script. -/
structure ZoneDatabase where
  zoneInfo : String → Option TimeZone
  digit : Char → Option Nat

def plainDatabase : ZoneDatabase where
  zoneInfo _ := none
  digit c := if '0' ≤ c ∧ c ≤ '9' then some (c.toNat - '0'.toNat) else none

def utc : TimeZone := ⟨Zone.fixed 0, fun _ => "UTC"⟩

def utcNames : List String :=
  ["UTC", "Etc/UTC", "Etc/UCT", "UCT", "GMT", "Etc/GMT", "Z", "Zulu", "Etc/Zulu", "Universal",
    "Etc/Universal", "Etc/GMT+0", "Etc/GMT-0", "Etc/GMT0", "GMT0", "GMT+0", "GMT-0", "Greenwich",
    "Etc/Greenwich"]

/-- `_OFFSET_RE`: the sign, the hours and the minutes. -/
def matchOffset (db : ZoneDatabase) (name : List Char) : Option (Bool × Nat × Nat) :=
  let parts := match name with
    | [sign, a, b, ':', c, d] => some (sign, a, b, c, d)
    | [sign, a, b, c, d] => some (sign, a, b, c, d)
    | _ => none
  parts.bind fun (sign, a, b, c, d) =>
    if sign = '+' ∨ sign = '-' then
      (db.digit a).bind fun a => (db.digit b).bind fun b => (db.digit c).bind fun c =>
        (db.digit d).map fun d => (sign == '-', 10 * a + b, 10 * c + d)
    else none

/-- `zone_for`; nothing where `timezone` raises a `ValueError`. -/
def zoneFor (db : ZoneDatabase) (tz : String) : Option (TimeZone × String) :=
  let name := String.ofList (TextLines.strip tz.toList)
  if name = "" ∨ name ∈ utcNames then some (utc, "UTC")
  else
    match matchOffset db name.toList with
    | some (negative, hours, minutes) =>
      let delta : Int := (60 * hours + minutes) * (60 * second)
      if delta = 0 then some (utc, "UTC")
      else if delta < Zones.day then
        some (⟨Zone.fixed (if negative then -delta else delta), fun _ => "UTC" ++ name⟩, name)
      else none
    | none =>
      match db.zoneInfo name with
      | some zone => some (zone, name)
      | none => some (utc, "UTC")

theorem zoneFor_utc (db : ZoneDatabase) : zoneFor db "UTC" = some (utc, "UTC") := by
  unfold zoneFor
  rw [show TextLines.strip "UTC".toList = "UTC".toList by decide, String.ofList_toList]
  dsimp only
  rw [if_pos (Or.inr (by decide))]

theorem zoneFor_strip (db : ZoneDatabase) (tz : String) :
    zoneFor db (String.ofList (TextLines.strip tz.toList)) = zoneFor db tz := by
  unfold zoneFor
  simp only [String.toList_ofList, TextLines.strip_of_trimmed (TextLines.trimmed_strip _)]

variable {db : ZoneDatabase} {t : TimeZone}

theorem zoneFor_cases {tz name : String} (h : zoneFor db tz = some (t, name)) :
    (t, name) = (utc, "UTC") ∨ name = String.ofList (TextLines.strip tz.toList) := by
  unfold zoneFor at h
  dsimp only at h
  split at h
  · exact .inl (Option.some.inj h).symm
  split at h
  · split at h
    · exact .inl (Option.some.inj h).symm
    split at h
    · exact .inr (congrArg Prod.snd (Option.some.inj h)).symm
    · exact absurd h (by simp)
  split at h
  · exact .inr (congrArg Prod.snd (Option.some.inj h)).symm
  · exact .inl (Option.some.inj h).symm

theorem zoneFor_name {tz name : String} (h : zoneFor db tz = some (t, name)) :
    zoneFor db name = some (t, name) := by
  rcases zoneFor_cases h with heq | hname
  · cases heq
    exact zoneFor_utc db
  · rw [hname, zoneFor_strip, ← hname]
    exact h

/-! ### Dates -/

/-- An instant or a reading that a `datetime` can name. -/
def checked (t : Int) : Option Int := if InRange t then some t else none

/-- A day that a `date` can name. -/
def checkedDay (d : Nat) : Option Nat := if DayInRange d then some d else none

/-- `date(year, month, 1)`, as the number of the day. -/
def firstOfMonth (year : Int) (month : Nat) : Option Nat :=
  if 1 ≤ year ∧ year ≤ 9999 then
    some (daysBeforeYear year.toNat + daysBeforeMonth year.toNat month)
  else none

def addMonths (year : Nat) (month : Nat) (delta : Int) : Int × Nat :=
  let index : Int := year * 12 + (month - 1) + delta
  (index / 12, (index % 12).toNat + 1)

def quarterMonth (month : Nat) : Nat := 3 * ((month - 1) / 3) + 1

section Starts

variable (z : Zone)

/-- `instant.astimezone(zone)`. -/
def localTime (instant : Int) : Option Int := checked (z.read instant)

/-- `instant.astimezone(zone).date()`. -/
def localDay (instant : Int) : Option Nat :=
  (localTime z instant).map fun w => (w / Zones.day).toNat

def localMidnight (d : Nat) : Option Int := checked (z.midnight d)

/-- The loop of `period_start` that steps back by hours, at most `fuel` times. -/
def stepBack (instant : Int) : Nat → Int → Int
  | 0, start => start
  | fuel + 1, start => if instant < start then stepBack instant fuel (start - hour) else start

/-- `local.replace(minute=0, second=0, microsecond=0)` as an instant: of a reading that is not the
first of its kind, the late one. -/
def wholeHour (instant w : Int) : Int :=
  if z.resolve w = instant then z.resolve (w - w % hour) else z.resolveLate (w - w % hour)

def periodFirst (unit : BucketUnit) (d : Nat) : Option Nat :=
  let date := dateOfDay d
  match unit with
  | .hour => none
  | .day => some d
  | .week => some (d - d % 7)
  | .month => some (d - (date.day - 1))
  | .quarter => firstOfMonth date.year (quarterMonth date.month)
  | .year => firstOfMonth date.year 1

def periodStart (instant : Int) (unit : BucketUnit) : Option Int :=
  (localTime z instant).bind fun w =>
    match unit with
    | .hour =>
      (checked (wholeHour z instant w)).bind fun start =>
        checked (stepBack instant ((start - instant) / hour + 1).toNat start)
    | unit =>
      (periodFirst unit (w / Zones.day).toNat).bind fun first =>
        (localMidnight z first).bind fun start =>
          if instant < start then
            if first = 0 then none else localMidnight z (first - 1)
          else some start

def nextFirst (unit : BucketUnit) (d : Nat) : Option Nat :=
  let date := dateOfDay d
  match unit with
  | .hour => none
  | .day => checkedDay (d + 1)
  | .week => checkedDay (d - d % 7 + 7)
  | .month =>
    let next := addMonths date.year date.month 1
    firstOfMonth next.1 next.2
  | .quarter =>
    let next := addMonths date.year (quarterMonth date.month) 3
    firstOfMonth next.1 next.2
  | .year => firstOfMonth (date.year + 1) 1

def nextPeriodStart (start : Int) (unit : BucketUnit) : Option Int :=
  match unit with
  | .hour =>
    (checked (start + hour)).bind fun later =>
      (periodStart z later .hour).map fun next => if start < next then next else later
  | unit =>
    (localDay z start).bind fun d => (nextFirst unit d).bind fun first =>
      (localMidnight z first).bind fun next =>
        if next ≤ start then checked (start + hour) else some next

/-- The steps of `shift_period_start` by hours. -/
def shiftHours (forward : Bool) : Nat → Int → Option Int
  | 0, current => some current
  | n + 1, current =>
    (if forward then nextPeriodStart z current .hour
      else (checked (current - hour)).bind fun earlier => periodStart z earlier .hour).bind
      (shiftHours forward n)

/-- The first day of the period `periods` away from the one that begins on a day. -/
def shiftedFirst (unit : BucketUnit) (d : Nat) (periods : Int) : Option Nat :=
  let date := dateOfDay d
  let byMonths (months : Int) : Option Nat :=
    let target := addMonths date.year date.month (periods * months)
    firstOfMonth target.1 target.2
  match unit with
  | .hour => none
  | .day => if 0 ≤ (d : Int) + periods then checkedDay ((d : Int) + periods).toNat else none
  | .week => if 0 ≤ (d : Int) + 7 * periods then checkedDay
      ((d : Int) + 7 * periods).toNat else none
  | .month => byMonths 1
  | .quarter => byMonths 3
  | .year => byMonths 12

def shiftPeriodStart (start : Int) (unit : BucketUnit) (periods : Int) : Option Int :=
  (periodStart z start unit).bind fun current =>
    if periods = 0 then some current
    else
      match unit with
      | .hour => shiftHours z (decide (0 < periods)) periods.natAbs current
      | unit =>
        (localDay z current).bind fun d => (shiftedFirst unit d periods).bind fun target =>
          (localMidnight z target).bind fun instant => periodStart z instant unit

end Starts

/-- `_MONTHS`. -/
def monthNames : List String :=
  ["Jan", "Feb", "Mar", "Apr", "May", "Jun", "Jul", "Aug", "Sep", "Oct", "Nov", "Dec"]

def monthName (month : Nat) : String := monthNames.getD (month - 1) ""

def fmtDay (d : Nat) : String :=
  let date := dateOfDay d
  toString date.day ++ " " ++ monthName date.month ++ " " ++ toString date.year

def twoDigits (n : Nat) : String := if n < 10 then "0" ++ toString n else toString n

/-- `isocalendar()`: the year and the week of the Thursday. -/
def isoWeek (d : Nat) : Nat × Nat :=
  let thursday := d - d % 7 + 3
  let year := (dateOfDay thursday).year
  (year, (thursday - daysBeforeYear year) / 7 + 1)

def periodLabel (z : Zone) (start : Int) (unit : BucketUnit) : Option String :=
  (localTime z start).map fun w =>
    let d := (w / Zones.day).toNat
    let date := dateOfDay d
    let clock := w % Zones.day
    match unit with
    | .hour => toString date.day ++ " " ++ monthName date.month ++ " " ++
        twoDigits (clock / hour).toNat ++ ":" ++ twoDigits (clock % hour / (60 * second)).toNat
    | .day => fmtDay d
    | .week => "W" ++ twoDigits (isoWeek d).2 ++ " " ++ toString (isoWeek d).1
    | .month => monthName date.month ++ " " ++ toString date.year
    | .quarter => "Q" ++ toString ((date.month - 1) / 3 + 1) ++ " " ++ toString date.year
    | .year => toString date.year

/-! ### The days of the periods -/

open Option

def periods : BucketUnit → Periods
  | .hour => days
  | .day => days
  | .week => weeks
  | .month => months
  | .quarter => quarters
  | .year => years

/-! ### Months as dates -/

theorem firstOfMonth_index (m : Int) :
    firstOfMonth (m / 12) ((m % 12).toNat + 1) =
      if 12 ≤ m ∧ m < 120000 then some (monthStart m.toNat) else none := by
  unfold firstOfMonth
  by_cases h : 12 ≤ m ∧ m < 120000
  · rw [if_pos h, if_pos (by omega)]
    have hyear : (m / 12).toNat = m.toNat / 12 := by omega
    have hmonth : (m % 12).toNat = m.toNat % 12 := by omega
    rw [hyear, hmonth]
    rfl
  · rw [if_neg h, if_neg (by omega)]

theorem addMonths_date (d : Nat) (k : Int) :
    addMonths (dateOfDay d).year (dateOfDay d).month k =
      (((monthIndex d + k : Int)) / 12, ((monthIndex d + k : Int) % 12).toNat + 1) := by
  have hpos := (dateOfDay d).month_pos
  have hindex : ((dateOfDay d).year : Int) * 12 + (((dateOfDay d).month : Int) - 1) =
      (monthIndex d : Int) := by
    unfold monthIndex
    omega
  unfold addMonths
  rw [hindex]

theorem monthStart_last : monthStart 120000 = daysBeforeYear 10000 := by
  decide

variable {m d : Nat}

theorem dayInRange_monthStart (h : 12 ≤ m) : DayInRange (monthStart m) ↔ m < 120000 := by
  unfold DayInRange
  rw [← monthStart_last]
  constructor
  · intro hlt
    by_contra hge
    have : monthStart 120000 ≤ monthStart m := months.first_mono (by decide) (by omega)
    omega
  · exact months.first_strictMono (i := m) h

theorem checkedDay_monthStart (h : 12 ≤ m) :
    checkedDay (monthStart m) = if m < 120000 then some (monthStart m) else none := by
  unfold checkedDay
  simp only [dayInRange_monthStart h]

theorem le_monthIndex (d : Nat) : 12 ≤ monthIndex d := months.base_le d

theorem monthIndex_lt (h : DayInRange d) : monthIndex d < 120000 := by
  have hle : monthStart (monthIndex d) ≤ d := months.first_le d
  rw [← dayInRange_monthStart (le_monthIndex d)]
  exact lt_of_le_of_lt hle h

theorem firstOfMonth_of_index (h : 12 ≤ m) :
    firstOfMonth ((m : Int) / 12) (((m : Int) % 12).toNat + 1) = checkedDay (monthStart m) := by
  rw [firstOfMonth_index, checkedDay_monthStart h]
  by_cases hlt : m < 120000
  · rw [if_pos hlt, if_pos (by omega)]
    rfl
  · rw [if_neg hlt, if_neg (by omega)]

theorem quarterMonth_index (d : Nat) :
    ((dateOfDay d).year : Int) * 12 + ((quarterMonth (dateOfDay d).month : Int) - 1) =
      ((3 * (monthIndex d / 3) : Nat) : Int) := by
  have hpos := (dateOfDay d).month_pos
  have hle := (dateOfDay d).month_le
  unfold monthIndex quarterMonth
  omega

theorem firstOfMonth_quarter (h : DayInRange d) :
    firstOfMonth (dateOfDay d).year (quarterMonth (dateOfDay d).month) =
      some (monthStart (3 * (monthIndex d / 3))) := by
  have hindex := quarterMonth_index d
  have hpos : 1 ≤ quarterMonth (dateOfDay d).month := Nat.le_add_left 1 _
  have hle : quarterMonth (dateOfDay d).month ≤ 12 := by
    have := (dateOfDay d).month_le
    unfold quarterMonth
    omega
  have hlow := le_monthIndex d
  have hhigh := monthIndex_lt h
  have hat := firstOfMonth_index ((3 * (monthIndex d / 3) : Nat) : Int)
  rw [if_pos (by omega)] at hat
  have hyear : (((3 * (monthIndex d / 3) : Nat) : Int)) / 12 = (dateOfDay d).year := by omega
  have hmonth : ((((3 * (monthIndex d / 3) : Nat) : Int)) % 12).toNat + 1 =
      quarterMonth (dateOfDay d).month := by omega
  rw [hyear, hmonth] at hat
  exact hat

theorem firstOfMonth_year {y : Nat} (h : 1 ≤ y) :
    firstOfMonth y 1 = checkedDay (years.first y) := by
  have hat := firstOfMonth_of_index (m := 12 * y) (by omega)
  have hyear : ((12 * y : Nat) : Int) / 12 = y := by omega
  have hmonth : (((12 * y : Nat) : Int) % 12).toNat + 1 = 1 := by omega
  rw [hyear, hmonth] at hat
  exact hat

theorem checkedDay_of (h : DayInRange d) : checkedDay d = some d := if_pos h

theorem dayInRange_of_le {e : Nat} (hle : d ≤ e) (h : DayInRange e) : DayInRange d :=
  lt_of_le_of_lt hle h

variable {unit : BucketUnit}

/-- **The first day of the period of a day.** -/
theorem periodFirst_eq (hunit : unit ≠ .hour) (h : DayInRange d) :
    periodFirst unit d = some ((periods unit).first ((periods unit).index d)) := by
  cases unit with
  | hour => exact absurd rfl hunit
  | day => rfl
  | week =>
    change some (d - d % 7) = some (7 * (d / 7))
    congr 1
    omega
  | month =>
    change some (d - ((dateOfDay d).day - 1)) = some (monthStart (monthIndex d))
    have := monthStart_monthIndex d
    congr 1
    omega
  | quarter => exact firstOfMonth_quarter h
  | year =>
    have hindex : years.index d = (dateOfDay d).year := monthIndex_div d
    change firstOfMonth (dateOfDay d).year 1 = some (years.first (years.index d))
    rw [hindex, firstOfMonth_year (dateOfDay d).year_pos, ← hindex]
    exact checkedDay_of (dayInRange_of_le (years.first_le d) h)

/-- **The first day of the period after the one of a day.** -/
theorem nextFirst_eq (hunit : unit ≠ .hour) (d : Nat) :
    nextFirst unit d = checkedDay ((periods unit).first ((periods unit).index d + 1)) := by
  have hlow := le_monthIndex d
  cases unit with
  | hour => exact absurd rfl hunit
  | day => rfl
  | week =>
    change checkedDay (d - d % 7 + 7) = checkedDay (7 * (d / 7 + 1))
    congr 1
    omega
  | month =>
    change firstOfMonth (addMonths (dateOfDay d).year (dateOfDay d).month 1).1
      (addMonths (dateOfDay d).year (dateOfDay d).month 1).2 =
        checkedDay (monthStart (monthIndex d + 1))
    rw [addMonths_date]
    exact firstOfMonth_of_index (m := monthIndex d + 1) (by omega)
  | quarter =>
    have hindex := quarterMonth_index d
    change firstOfMonth (addMonths (dateOfDay d).year (quarterMonth (dateOfDay d).month) 3).1
      (addMonths (dateOfDay d).year (quarterMonth (dateOfDay d).month) 3).2 =
        checkedDay (monthStart (3 * (monthIndex d / 3 + 1)))
    have hat := firstOfMonth_of_index (m := 3 * (monthIndex d / 3 + 1)) (by omega)
    unfold addMonths
    rw [hindex, ← hat]
    rfl
  | year =>
    have hindex : years.index d = (dateOfDay d).year := monthIndex_div d
    change firstOfMonth ((dateOfDay d).year + 1) 1 = checkedDay (years.first (years.index d + 1))
    rw [hindex, ← firstOfMonth_year (Nat.le_add_left 1 _)]
    rfl

theorem shiftedFirst_eq (hunit : unit = .day ∨ unit = .month) (h : DayInRange d) (k : Nat) :
    shiftedFirst unit d (-k) =
      if (periods unit).base + k ≤ (periods unit).index d then
        some ((periods unit).first ((periods unit).index d - k)) else none := by
  rcases hunit with rfl | rfl
  · change (if 0 ≤ (d : Int) + -(k : Int) then checkedDay
      ((d : Int) + -(k : Int)).toNat else none) =
      if 0 + k ≤ d then some (d - k) else none
    by_cases hk : 0 + k ≤ d
    · rw [if_pos hk, if_pos (by omega)]
      have hnat : ((d : Int) + -(k : Int)).toNat = d - k := by omega
      rw [hnat]
      exact checkedDay_of (dayInRange_of_le (Nat.sub_le d k) h)
    · rw [if_neg hk, if_neg (by omega)]
  · have hhigh := monthIndex_lt h
    change firstOfMonth (addMonths (dateOfDay d).year (dateOfDay d).month (-(k : Int) * 1)).1
      (addMonths (dateOfDay d).year (dateOfDay d).month (-(k : Int) * 1)).2 =
        if 12 + k ≤ monthIndex d then some (monthStart (monthIndex d - k)) else none
    rw [addMonths_date, mul_one, firstOfMonth_index]
    by_cases hk : 12 + k ≤ monthIndex d
    · rw [if_pos hk, if_pos (by omega)]
      have hnat : ((monthIndex d : Int) + -(k : Int)).toNat = monthIndex d - k := by omega
      rw [hnat]
    · rw [if_neg hk, if_neg (by omega)]

/-! ### Midnights -/

section Midnights

variable {z : Zone} {t : Int}

theorem inRange_iff :
    InRange t ↔ 0 ≤ t / Zones.day ∧ t / Zones.day < (daysBeforeYear 10000 : Int) := by
  rw [Int.le_ediv_iff_mul_le (by decide), Int.ediv_lt_iff_lt_mul (by decide), zero_mul]
  rfl

variable {u : Int} {d : Nat}

theorem checked_eq_some : checked t = some u ↔ InRange t ∧ t = u := by
  unfold checked
  split <;> simp_all

theorem checkedDay_eq_some {e : Nat} : checkedDay d = some e ↔ DayInRange d ∧ d = e := by
  unfold checkedDay
  split <;> simp_all

theorem localDay_eq_some :
    localDay z u = some d ↔ DayInRange d ∧ z.dayOf u = d := by
  unfold localDay localTime
  rw [map_eq_some_iff]
  constructor
  · rintro ⟨w, hw, rfl⟩
    obtain ⟨hrange, rfl⟩ := checked_eq_some.mp hw
    have hiff := inRange_iff.mp hrange
    unfold DayInRange
    constructor
    · omega
    · exact (Int.toNat_of_nonneg hiff.1).symm
  · rintro ⟨hrange, hday⟩
    have hdiv : z.read u / Zones.day = d := hday
    refine ⟨z.read u, checked_eq_some.mpr ⟨inRange_iff.mpr ?_, rfl⟩, ?_⟩
    · unfold DayInRange at hrange
      rw [hdiv]
      exact ⟨Int.natCast_nonneg d, by exact_mod_cast hrange⟩
    · rw [hdiv]
      rfl

theorem localTime_isSome (h : localDay z u = some d) :
    localTime z u = some (z.read u) := by
  obtain ⟨hrange, hday⟩ := localDay_eq_some.mp h
  have hdiv : z.read u / Zones.day = d := hday
  refine checked_eq_some.mpr ⟨inRange_iff.mpr ?_, rfl⟩
  unfold DayInRange at hrange
  rw [hdiv]
  exact ⟨Int.natCast_nonneg d, by exact_mod_cast hrange⟩

theorem localMidnight_eq_some {m : Int} :
    localMidnight z d = some m ↔ InRange (z.midnight d) ∧ z.midnight d = m := checked_eq_some

theorem periodLabel_isSome (h : localDay z u = some d) (unit : BucketUnit) :
    (periodLabel z u unit).isSome := by
  unfold periodLabel
  rw [localTime_isSome h]
  rfl

variable {unit : BucketUnit}

theorem periodStart_days (hunit : unit ≠ .hour) (hday : localDay z u = some d) :
    periodStart z u unit =
      (localMidnight z ((periods unit).first ((periods unit).index d))).bind fun start =>
        if u < start then
          if (periods unit).first ((periods unit).index d) = 0 then none
          else localMidnight z ((periods unit).first ((periods unit).index d) - 1)
        else some start := by
  have htime := localTime_isSome hday
  obtain ⟨hd, hdiv⟩ := localDay_eq_some.mp hday
  have hnat : (z.read u / Zones.day).toNat = d := by
    rw [show z.read u / Zones.day = d from hdiv]
    rfl
  have hfirst := periodFirst_eq hunit hd
  unfold periodStart
  rw [htime, bind_some]
  cases unit with
  | hour => exact absurd rfl hunit
  | day | week | month | quarter | year => simp only [hnat, hfirst, bind_some]

theorem periodStart_eq (hunit : unit ≠ .hour) (hday : localDay z u = some d)
    (hle : z.midnight ((periods unit).first ((periods unit).index d)) ≤ u) :
    periodStart z u unit = localMidnight z ((periods unit).first ((periods unit).index d)) := by
  rw [periodStart_days hunit hday]
  cases hmidnight : localMidnight z ((periods unit).first ((periods unit).index d)) with
  | none => rfl
  | some start =>
    obtain ⟨_, rfl⟩ := localMidnight_eq_some.mp hmidnight
    rw [bind_some, if_neg (not_lt.mpr hle)]

theorem nextPeriodStart_days (hunit : unit ≠ .hour) (hday : localDay z u = some d) :
    nextPeriodStart z u unit =
      (checkedDay ((periods unit).first ((periods unit).index d + 1))).bind fun first =>
        (localMidnight z first).bind fun next =>
          if next ≤ u then checked (u + hour) else some next := by
  have hnext := nextFirst_eq hunit d
  cases unit with
  | hour => exact absurd rfl hunit
  | day | week | month | quarter | year =>
    simp only [nextPeriodStart, hday, bind_some, hnext]

theorem nextPeriodStart_eq (hunit : unit ≠ .hour) (hday : localDay z u = some d)
    (hlt : u < z.midnight ((periods unit).first ((periods unit).index d + 1))) :
    nextPeriodStart z u unit =
      (checkedDay ((periods unit).first ((periods unit).index d + 1))).bind (localMidnight z) := by
  rw [nextPeriodStart_days hunit hday]
  cases hfirst : checkedDay ((periods unit).first ((periods unit).index d + 1)) with
  | none => rfl
  | some first =>
    obtain ⟨_, rfl⟩ := checkedDay_eq_some.mp hfirst
    rw [bind_some, bind_some]
    cases hmidnight : localMidnight z ((periods unit).first ((periods unit).index d + 1)) with
    | none => rfl
    | some next =>
      obtain ⟨_, rfl⟩ := localMidnight_eq_some.mp hmidnight
      rw [bind_some, if_neg (not_le.mpr hlt)]

end Midnights

/-! ### Windows and their buckets -/

inductive SpanUnit where
  | m
  | h
  | d
  | w
  | M
  | y
  deriving DecidableEq

inductive WindowKind where
  | unspecified
  | all
  | relative
  | calendar
  | period
  | range
  deriving DecidableEq

/-- The normalised input of a window: `now-{amount}{unit}` by its parts, or another text. -/
inductive Token where
  | relative (amount : Nat) (unit : SpanUnit)
  | text (t : String)
  deriving DecidableEq

structure ResolvedWindow where
  start : Option Int
  stop : Int
  label : String
  tz : String
  token : Token
  now : Option Int := none
  openEnd : Bool := false
  kind : WindowKind := .unspecified
  alignedTo : Option BucketUnit := none

structure CalendarBucket where
  start : Int
  stop : Int
  label : String
  inProgress : Bool
  clipped : Bool

/-! ### Relative windows -/

/-- `_UNIT_WORDS`. -/
def SpanUnit.word : SpanUnit → String
  | .m => "minute"
  | .h => "hour"
  | .d => "day"
  | .w => "week"
  | .M => "month"
  | .y => "year"

/-- `_days_in_month`; nothing where `date` raises. -/
def daysInMonth (year : Int) (month : Nat) : Option Nat :=
  if month = 12 then some 31
  else if 1 ≤ year ∧ year ≤ 9999 then some (monthDays year.toNat month) else none

def shiftMonths (z : Zone) (instant : Int) (delta : Int) : Option Int :=
  (localTime z instant).bind fun w =>
    let date := dateOfDay (w / Zones.day).toNat
    let target := addMonths date.year date.month delta
    (daysInMonth target.1 target.2).bind fun length =>
      (firstOfMonth target.1 target.2).bind fun first =>
        checked (z.resolve ((first + (min date.day length - 1) : Nat) * Zones.day + w % Zones.day))

/-- The start of `_relative_span`; nothing where it raises a `ValueError`. -/
def relativeStart (z : Zone) (amount : Nat) (unit : SpanUnit) (now : Int) : Option Int :=
  match unit with
  | .m => checked (now - amount * (60 * second))
  | .h => checked (now - amount * hour)
  | .d => checked (now - amount * Zones.day)
  | .w => checked (now - amount * (7 * Zones.day))
  | .M => shiftMonths z now (-(amount * 1 : Nat))
  | .y => shiftMonths z now (-(amount * 12 : Nat))

theorem day_pos : 0 < Zones.day := by decide

theorem daysInMonth_index {m : Int} (h : 12 ≤ m ∧ m < 120000) :
    daysInMonth (m / 12) ((m % 12).toNat + 1) =
      some (monthDays (m.toNat / 12) (m.toNat % 12 + 1)) := by
  have hyear : (m / 12).toNat = m.toNat / 12 := by omega
  have hmonth : (m % 12).toNat = m.toNat % 12 := by omega
  unfold daysInMonth
  rw [hyear, hmonth]
  split
  · next hlast =>
      rw [hlast]
      rfl
  · rw [if_pos (by omega)]

variable {z : Zone}

theorem shiftMonths_back {now start : Int} {n : Nat}
    (h : shiftMonths z now (-(n : Nat)) = some start) :
    InRange (z.read now) ∧ 12 + n ≤ monthIndex (z.read now / Zones.day).toNat ∧
      start = z.resolve ((monthStart (monthIndex (z.read now / Zones.day).toNat - n) +
        (min (dateOfDay (z.read now / Zones.day).toNat).day
          (monthDays ((monthIndex (z.read now / Zones.day).toNat - n) / 12)
            ((monthIndex (z.read now / Zones.day).toNat - n) % 12 + 1)) - 1) : Nat) * Zones.day +
        z.read now % Zones.day) := by
  obtain ⟨w, hw, h⟩ := bind_eq_some_iff.mp h
  obtain ⟨length, hlength, h⟩ := bind_eq_some_iff.mp h
  obtain ⟨first, hfirst, h⟩ := bind_eq_some_iff.mp h
  obtain ⟨hreadable, rfl⟩ := checked_eq_some.mp hw
  obtain ⟨_, rfl⟩ := checked_eq_some.mp h
  rw [addMonths_date] at hfirst hlength
  rw [firstOfMonth_index] at hfirst
  split at hfirst
  swap
  · exact nomatch hfirst
  next hrange =>
  have hnat : ((monthIndex (z.read now / Zones.day).toNat : Int) + -(n : Int)).toNat =
      monthIndex (z.read now / Zones.day).toNat - n := by omega
  rw [hnat] at hfirst
  have hdays := hlength.symm.trans (daysInMonth_index hrange)
  rw [hnat] at hdays
  refine ⟨hreadable, by omega, ?_⟩
  rw [Option.some.inj hfirst, Option.some.inj hdays]

theorem relativeStart_lt {amount : Nat} {unit : SpanUnit} {now start : Int} (hpos : 0 < amount)
    (h : relativeStart z amount unit now = some start) : start < now := by
  have hmonths : ∀ n : Nat, 0 < n → shiftMonths z now (-(n : Nat)) = some start → start < now := by
    intro n hn hstart
    obtain ⟨hreadable, hindex, rfl⟩ := shiftMonths_back hstart
    have hback := z.resolve_sub_le ((monthStart (monthIndex (z.read now / Zones.day).toNat - n) +
      (min (dateOfDay (z.read now / Zones.day).toNat).day
        (monthDays ((monthIndex (z.read now / Zones.day).toNat - n) / 12)
          ((monthIndex (z.read now / Zones.day).toNat - n) % 12 + 1)) - 1) : Nat) * Zones.day +
      z.read now % Zones.day) now
    have hday := monthStart_monthIndex (z.read now / Zones.day).toNat
    have hlong := monthStart_succ (m := monthIndex (z.read now / Zones.day).toNat - n) (by omega)
    have hdays := monthDays_pos ((monthIndex (z.read now / Zones.day).toNat - n) / 12)
      ((monthIndex (z.read now / Zones.day).toNat - n) % 12 + 1)
    have hmono : monthStart (monthIndex (z.read now / Zones.day).toNat - n + 1) ≤
        monthStart (monthIndex (z.read now / Zones.day).toNat) :=
      months.first_mono (show 12 ≤ _ by omega) (by omega)
    have hmin := Nat.min_le_left (dateOfDay (z.read now / Zones.day).toNat).day
      (monthDays ((monthIndex (z.read now / Zones.day).toNat - n) / 12)
        ((monthIndex (z.read now / Zones.day).toNat - n) % 12 + 1))
    have hdivide := Int.mul_ediv_add_emod (z.read now) Zones.day
    have hnonneg := (inRange_iff.mp hreadable).1
    have hpositive := (dateOfDay (z.read now / Zones.day).toNat).day_pos
    unfold Zones.day hour at *
    omega
  cases unit with
  | m | h | d | w =>
    obtain ⟨_, rfl⟩ := checked_eq_some.mp h
    simp only [second, hour, Zones.day]
    omega
  | M | y => exact hmonths _ (by omega) h

/-- The window that `resolve_window` makes of `_relative_span`. -/
def relativeWindow (z : Zone) (name : String) (amount : Nat) (unit : SpanUnit) (now : Int) :
    Option ResolvedWindow :=
  (relativeStart z amount unit now).map fun start =>
    { start := some start
      stop := now
      label := "last " ++ toString amount ++ " " ++ unit.word ++ (if amount = 1 then "" else "s")
      tz := name
      token := .relative amount unit
      now := some now
      kind := .relative }

/-! ### Buckets -/

def maxGeneratedBuckets : Nat := 200000

/-- `_bucket_range`: from, to, and whether the end is included. -/
def bucketRange (w : ResolvedWindow) (earliest latest : Option Int) : Option (Int × Int × Bool) :=
  (w.start <|> earliest).bind fun lo =>
    let (hi, inclusive) :=
      match latest with
      | some last => if w.openEnd ∧ w.stop ≤ last then (last, true) else (w.stop, false)
      | none => (w.stop, false)
    if hi < lo then none else some (lo, hi, inclusive)

def bucketOf (w : ResolvedWindow) (start stop : Int) (label : String) : CalendarBucket :=
  let inProgress := match w.now with
    | some now => decide (start ≤ now ∧ now < stop)
    | none => false
  let early := match w.start with
    | some first => decide (start < first)
    | none => false
  { start, stop, label, inProgress
    clipped := early || (!w.openEnd && decide (w.stop < stop) && !inProgress) }

/-- `start < hi or (inclusive and start <= hi)`. -/
def Before (hi : Int) (inclusive : Bool) (start : Int) : Prop :=
  start < hi ∨ (inclusive = true ∧ start ≤ hi)

instance (hi : Int) (inclusive : Bool) (start : Int) : Decidable (Before hi inclusive start) :=
  inferInstanceAs (Decidable (_ ∨ _))

def rstrip (text : List Char) : List Char := (text.reverse.dropWhile TextLines.isSpace).reverse

def bucketLabel (t : TimeZone) (start : Int) (label previous : String) : String :=
  if label = previous then
    String.ofList (rstrip (label ++ " " ++ t.tzname start).toList)
  else label

/-- The loop of `calendar_buckets`, when so many more buckets are allowed. -/
def bucketLoop (t : TimeZone) (w : ResolvedWindow) (unit : BucketUnit) (hi : Int)
    (inclusive : Bool) : Nat → Int → String → Option (List CalendarBucket)
  | room, start, previous =>
    if Before hi inclusive start then
      (nextPeriodStart t.zone start unit).bind fun stop =>
        (periodLabel t.zone start unit).bind fun label =>
          let shown := bucketLabel t start label previous
          match room with
          | 0 => none
          | room + 1 =>
            (bucketLoop t w unit hi inclusive room stop shown).map
              (bucketOf w start stop shown :: ·)
    else some []

def calendarBuckets (db : ZoneDatabase) (w : ResolvedWindow) (unit : BucketUnit)
    (earliest latest : Option Int) : Option (List CalendarBucket) :=
  match bucketRange w earliest latest with
  | none => some []
  | some (lo, hi, inclusive) =>
    (zoneFor db w.tz).bind fun (t, _) =>
      (periodStart t.zone lo unit).bind fun start =>
        bucketLoop t w unit hi inclusive maxGeneratedBuckets start ""

/-! ### The buckets one after another -/

section Tiles

variable (z : Zone) (w : ResolvedWindow) (unit : BucketUnit) (hi : Int) (inclusive : Bool)

inductive Tiles : Int → List CalendarBucket → Prop where
  | done {start : Int} : ¬ Before hi inclusive start → Tiles start []
  | bucket {start stop : Int} {label : String} {more : List CalendarBucket} :
      Before hi inclusive start → nextPeriodStart z start unit = some stop → Tiles stop more →
      Tiles start (bucketOf w start stop label :: more)

end Tiles

section Loop

variable {t : TimeZone} {w : ResolvedWindow} {unit : BucketUnit} {hi : Int} {inclusive : Bool}
  {previous : String} {room : Nat} {start : Int}

theorem bucketLoop_done (h : ¬ Before hi inclusive start) :
    bucketLoop t w unit hi inclusive room start previous = some [] := by
  unfold bucketLoop
  rw [if_neg h]

theorem bucketLoop_full (h : Before hi inclusive start) :
    bucketLoop t w unit hi inclusive 0 start previous = none := by
  unfold bucketLoop
  simp [h]

theorem bucketLoop_step {stop : Int} {label : String} (h : Before hi inclusive start)
    (hstop : nextPeriodStart t.zone start unit = some stop)
    (hlabel : periodLabel t.zone start unit = some label) :
    bucketLoop t w unit hi inclusive (room + 1) start previous =
      (bucketLoop t w unit hi inclusive room stop (bucketLabel t start label previous)).map
        (bucketOf w start stop (bucketLabel t start label previous) :: ·) := by
  rw [bucketLoop]
  simp [h, hstop, hlabel]

variable {bs : List CalendarBucket}

theorem tiles_of_loop (h : bucketLoop t w unit hi inclusive room start previous = some bs) :
    Tiles t.zone w unit hi inclusive start bs ∧ bs.length ≤ room := by
  induction room generalizing start previous bs with
  | zero =>
    by_cases hbefore : Before hi inclusive start
    · rw [bucketLoop_full hbefore] at h
      exact absurd h (by simp)
    · rw [bucketLoop_done hbefore] at h
      cases h
      exact ⟨.done hbefore, le_rfl⟩
  | succ room ih =>
    by_cases hbefore : Before hi inclusive start
    · rw [bucketLoop] at h
      simp only [if_pos hbefore, bind_eq_some_iff, map_eq_some_iff] at h
      obtain ⟨stop, hstop, label, hlabel, more, hmore, rfl⟩ := h
      obtain ⟨htiles, hlength⟩ := ih hmore
      exact ⟨.bucket hbefore hstop htiles, by simpa using hlength⟩
    · rw [bucketLoop_done hbefore] at h
      cases h
      exact ⟨.done hbefore, Nat.zero_le _⟩

theorem loop_of_chain {bound : Nat → Int} {n room : Nat} {previous : String} (hroom : n ≤ room)
    (hbefore : ∀ k, k < n → Before hi inclusive (bound k))
    (hdone : ¬ Before hi inclusive (bound n))
    (hnext : ∀ k, k < n → nextPeriodStart t.zone (bound k) unit = some (bound (k + 1)))
    (hlabel : ∀ k, k < n → (periodLabel t.zone (bound k) unit).isSome) :
    ∃ bs, bucketLoop t w unit hi inclusive room (bound 0) previous = some bs ∧ bs.length = n ∧
      ∀ k, k < n → ∃ label, bs[k]? = some (bucketOf w (bound k) (bound (k + 1)) label) := by
  induction n generalizing bound room previous with
  | zero => exact ⟨[], bucketLoop_done hdone, rfl, fun k hk => absurd hk (Nat.not_lt_zero k)⟩
  | succ n ih =>
    obtain ⟨room, rfl⟩ : ∃ m, room = m + 1 := ⟨room - 1, by omega⟩
    obtain ⟨label, hfirst⟩ := isSome_iff_exists.mp (hlabel 0 (Nat.succ_pos n))
    obtain ⟨bs, hloop, hlength, hat⟩ := @ih (fun k => bound (k + 1)) room
      (bucketLabel t (bound 0) label previous) (by omega) (fun k hk => hbefore (k + 1) (by omega))
      hdone (fun k hk => hnext (k + 1) (by omega)) (fun k hk => hlabel (k + 1) (by omega))
    let first := bucketOf w (bound 0) (bound 1) (bucketLabel t (bound 0) label previous)
    refine ⟨first :: bs, ?_, ?_, ?_⟩
    · rw [bucketLoop_step (hbefore 0 (Nat.succ_pos n)) (hnext 0 (Nat.succ_pos n)) hfirst]
      simp [hloop, first]
    · simp [hlength]
    · intro k hk
      cases k with
      | zero => exact ⟨_, rfl⟩
      | succ k => exact hat k (by omega)

theorem Tiles.bucket_of_mem {z : Zone} (h : Tiles z w unit hi inclusive start bs)
    {b : CalendarBucket} (hb : b ∈ bs) :
    Before hi inclusive b.start ∧ nextPeriodStart z b.start unit = some b.stop ∧
      b = bucketOf w b.start b.stop b.label := by
  induction h with
  | done hdone => exact absurd hb (List.not_mem_nil)
  | bucket hbefore hnext _ ih =>
    rcases List.mem_cons.mp hb with rfl | hmem
    · exact ⟨hbefore, hnext, rfl⟩
    · exact ih hmem

theorem Tiles.start_eq {z : Zone} {bound : Nat → Int} {n : Nat} {bs : List CalendarBucket}
    (h : Tiles z w unit hi inclusive (bound 0) bs)
    (hnext : ∀ k, k < n → nextPeriodStart z (bound k) unit = some (bound (k + 1)))
    (hn : n < bs.length) : (bs[n]?).map (·.start) = some (bound n) := by
  induction n generalizing bound bs with
  | zero =>
    cases h with
    | done => exact absurd hn (Nat.not_lt_zero _)
    | bucket => rfl
  | succ n ih =>
    cases h with
    | done => exact absurd hn (Nat.not_lt_zero _)
    | bucket hbefore hstop hmore =>
      have heq := Option.some.inj (hstop.symm.trans (hnext 0 (Nat.succ_pos n)))
      subst heq
      simpa using @ih (fun k => bound (k + 1)) _ hmore (fun k hk => hnext (k + 1) (by omega))
        (by simpa using hn)

end Loop

/-- `whole_period_count` of a token that is counted by `whole_period_unit`. -/
def tokenPeriods : Token → Option (BucketUnit × Nat)
  | .relative amount .d => some (.day, amount * 1)
  | .relative amount .w => some (.day, amount * 7)
  | .relative amount .M => some (.month, amount * 1)
  | .relative amount .y => some (.month, amount * 12)
  | _ => none

def wholePeriodUnit (w : ResolvedWindow) : Option BucketUnit :=
  if w.kind ≠ .relative ∨ w.start = none then none
  else (tokenPeriods w.token).bind fun (unit, n) => if 2 ≤ n then some unit else none

def wholePeriodCount (w : ResolvedWindow) : Option Nat :=
  (wholePeriodUnit w).bind fun _ => (tokenPeriods w.token).map (·.2)

/-- `align_whole_periods`; nothing where it raises. -/
def alignWholePeriods (db : ZoneDatabase) (w : ResolvedWindow) : Option ResolvedWindow :=
  if w.kind ≠ .relative ∨ w.alignedTo ≠ none ∨ w.start = none then some w
  else
    match wholePeriodUnit w, wholePeriodCount w with
    | some unit, some n =>
      (zoneFor db w.tz).bind fun (t, name) =>
        match shiftPeriodStart t.zone (w.now.getD w.stop) unit (-((n : Int) - 1)) with
        | none => some w
        | some start =>
          if w.stop ≤ start then some w
          else
            (localDay t.zone start).bind fun d =>
              (if unit = .day then some (fmtDay d) else periodLabel t.zone start unit).map
                fun since =>
                  let suffix := if name = "UTC" then since else since ++ ", " ++ name
                  { w with
                    start := some start
                    label := w.label ++ " (since " ++ suffix ++ ")"
                    alignedTo := some unit }
    | _, _ => some w

end AgenticKibana.Windows
