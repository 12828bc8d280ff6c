import AgenticKibana.Windows.Buckets

/-!
# Whole-period alignment

A relative window of days, weeks, months or years is counted in whole periods: so many of them, of
which the last one is in progress.  That holds at every instant but one in each period: exactly at
the start of a period its bucket is not there yet, because a window ends before `now`.
-/

namespace AgenticKibana.Windows

open AgenticKibana.Library Option
open AgenticKibana.Library.Calendar
open AgenticKibana.Library.Zones

def Steady (z : Zone) (start now : Int) : Prop :=
  ∀ u, start ≤ u → u ≤ now → z.offset u = z.offset now

/-! ### The counted periods -/

section Counted

variable (z : Zone) (unit : BucketUnit) (n : Nat) (now : Int)

def today : Nat := (z.dayOf now).toNat

def currentIndex : Nat := (periods unit).index (today z now)

def startOf (i : Nat) : Int := z.midnight ((periods unit).first i)

structure Countable : Prop where
  readable : InRange (z.read now)
  reaches : (periods unit).base + (n - 1) ≤ currentIndex z unit now
  begins : InRange (startOf z unit (currentIndex z unit now - (n - 1)))
  nextDay : DayInRange ((periods unit).first (currentIndex z unit now + 1))
  ends : InRange (startOf z unit (currentIndex z unit now + 1))
  within : startOf z unit (currentIndex z unit now) ≠ now
  listed : n ≤ maxGeneratedBuckets

inductive ReachesBack (start : Int) : Prop where
  | days (hunit : unit = .day) (hstart : start = now - n * Zones.day)
  | months (hunit : unit = .month) (hreadable : InRange (z.read now))
      (hindex : 12 + n ≤ currentIndex z unit now)
      (hstart : start < ((periods unit).first (currentIndex z unit now - (n - 1)) :
        Int) * Zones.day -
        z.offset now + 26 * hour)

end Counted

section Steady

variable {z : Zone} {start now : Int}

theorem midnight_eq (hsteady : Steady z start now) {e : Int}
    (hlow : start + Zones.day ≤ e * Zones.day - z.offset now)
    (hhigh : e * Zones.day - z.offset now ≤ now) :
    z.midnight e = e * Zones.day - z.offset now := by
  have hpos := day_pos
  have hoffset := hsteady (e * Zones.day - z.offset now) (by omega) hhigh
  have hread : z.read (e * Zones.day - z.offset now) = e * Zones.day := by
    unfold Zone.read
    omega
  obtain ⟨hshown, hle⟩ := z.midnight_of_shown hread
  have hback := z.repeated (z.midnight e) (e * Zones.day - z.offset now) (hshown.trans hread.symm)
  have hsame := hsteady (z.midnight e) (by omega) (hle.trans hhigh)
  unfold Zone.read at hshown
  omega

theorem dayOf_today (hreadable : InRange (z.read now)) :
    DayInRange (today z now) ∧ z.dayOf now = (today z now : Int) := by
  have hiff := inRange_iff.mp hreadable
  have hnat : ((today z now : Nat) : Int) = z.dayOf now := Int.toNat_of_nonneg hiff.1
  refine ⟨?_, hnat.symm⟩
  have hlt : z.dayOf now < (daysBeforeYear 10000 : Int) := hiff.2
  unfold DayInRange
  omega

theorem le_read_now (hreadable : InRange (z.read now)) {e : Nat} (he : e ≤ today z now) :
    (e : Int) * Zones.day - z.offset now ≤ now := by
  have hday := (dayOf_today hreadable).2
  have hle : (e : Int) ≤ z.dayOf now := by omega
  have := z.dayOf_le.mp hle
  unfold Zone.read at this
  omega

theorem now_lt_read (hreadable : InRange (z.read now)) {e : Nat} (he : today z now < e) :
    now < (e : Int) * Zones.day - z.offset now := by
  have hday := (dayOf_today hreadable).2
  have hlt : z.dayOf now < (e : Int) := by omega
  have := z.dayOf_lt.mp hlt
  unfold Zone.read at this
  omega

end Steady

/-! ### The midnights of the counted periods -/

section Starts

variable {z : Zone} {unit : BucketUnit} {n : Nat} {start now : Int}

theorem months_long {i : Nat} (hi : 12 ≤ i) : monthStart i + 28 ≤ monthStart (i + 1) := by
  rw [monthStart_succ hi]
  have := monthDays_pos (i / 12) (i % 12 + 1)
  omega

variable {j : Nat}

theorem room_before (hback : ReachesBack z unit n now start) (hn : 2 ≤ n)
    (hreadable : InRange (z.read now)) (hbase : (periods unit).base ≤ j)
    (hlow : currentIndex z unit now < j + (n - 1)) :
    start + Zones.day ≤ ((periods unit).first j : Int) * Zones.day - z.offset now := by
  cases hback with
  | days hunit hstart =>
    subst hunit
    have hlater := @now_lt_read z now hreadable (today z now + 1) (Nat.lt_succ_self _)
    change today z now < j + (n - 1) at hlow
    change start + Zones.day ≤ (j : Int) * Zones.day - z.offset now
    unfold Zones.day at *
    omega
  | months hunit _ hindex hstart =>
    subst hunit
    change 12 ≤ j at hbase
    have hlong := months_long (i := currentIndex z .month now - (n - 1)) (by omega)
    have hmono : monthStart (currentIndex z .month now - (n - 1) + 1) ≤ monthStart j :=
      months.first_mono (show 12 ≤ _ by omega) (by omega)
    change start < (monthStart (currentIndex z .month now - (n - 1)) : Int) * Zones.day -
      z.offset now + 26 * hour at hstart
    change start + Zones.day ≤ (monthStart j : Int) * Zones.day - z.offset now
    unfold Zones.day hour at *
    omega

theorem first_le_today {j : Nat} (hbase : (periods unit).base ≤ j)
    (hj : j ≤ currentIndex z unit now) : (periods unit).first j ≤ today z now :=
  ((periods unit).first_le_iff hbase).mpr hj

theorem base_le_current (z : Zone) (unit : BucketUnit) (now : Int) :
    (periods unit).base ≤ currentIndex z unit now :=
  (periods unit).base_le _

theorem startOf_mono {i j : Nat} (hbase : (periods unit).base ≤ i) (h : i ≤ j) :
    startOf z unit i ≤ startOf z unit j :=
  z.midnight_mono (by exact_mod_cast (periods unit).first_mono hbase h)

theorem unit_ne_hour (hback : ReachesBack z unit n now start) : unit ≠ .hour := by
  cases hback with
  | days hunit | months hunit => simp [hunit]

theorem readable_of_periodStart {s : Int} (h : periodStart z now unit = some s) :
    InRange (z.read now) := by
  obtain ⟨w, hw, _⟩ := bind_eq_some_iff.mp h
  exact (checked_eq_some.mp hw).1

theorem day_or_month (hback : ReachesBack z unit n now start) : unit = .day ∨ unit = .month := by
  cases hback with
  | days hunit => exact .inl hunit
  | months hunit => exact .inr hunit

variable (hback : ReachesBack z unit n now start) (hn : 2 ≤ n) (hsteady : Steady z start now)
  (hreadable : InRange (z.read now))

include hback hn hsteady hreadable

theorem startOf_eq (hbase : (periods unit).base ≤ j) (hlow : currentIndex z unit now < j + (n - 1))
    (hj : j ≤ currentIndex z unit now) :
    startOf z unit j = ((periods unit).first j : Int) * Zones.day - z.offset now :=
  midnight_eq hsteady (room_before hback hn hreadable hbase hlow)
    (le_read_now hreadable (first_le_today hbase hj))

theorem startOf_le_now : startOf z unit (currentIndex z unit now) ≤ now := by
  have hbase := base_le_current z unit now
  rw [startOf_eq hback hn hsteady hreadable hbase (by omega) le_rfl]
  exact le_read_now hreadable (first_le_today hbase le_rfl)

theorem now_lt_startOf : now < startOf z unit (currentIndex z unit now + 1) := by
  have hbase := base_le_current z unit now
  have hcurrent := startOf_eq hback hn hsteady hreadable hbase (by omega) le_rfl
  have hroom := room_before hback hn hreadable hbase (by omega)
  have hmono := @startOf_mono z unit _ _ hbase (Nat.le_add_right (currentIndex z unit now) 1)
  have hpos := day_pos
  by_contra hle
  have hoffset := hsteady (startOf z unit (currentIndex z unit now + 1)) (by omega) (by omega)
  have hshown := z.le_read_resolve (((periods unit).first (currentIndex z unit now + 1) : Nat) *
    Zones.day)
  have hlater := now_lt_read hreadable ((periods unit).lt_next (today z now))
  change _ ≤ startOf z unit (currentIndex z unit now + 1) +
    z.offset (startOf z unit (currentIndex z unit now + 1)) at hshown
  change now < ((periods unit).first (currentIndex z unit now + 1) : Int) * Zones.day -
    z.offset now at hlater
  omega

section Period

variable (hbase : (periods unit).base ≤ j) (hlow : currentIndex z unit now ≤ j + (n - 1))
  (hj : j ≤ currentIndex z unit now)

include hbase hlow hj

theorem localDay_startOf :
    ∃ d, localDay z (startOf z unit j) = some d ∧ (periods unit).index d = j := by
  have htoday := (dayOf_today hreadable).1
  have hfirst := first_le_today hbase hj
  -- where the midnight itself is shown
  have hshown : z.read (startOf z unit j) = ((periods unit).first j : Int) * Zones.day →
      ∃ d, localDay z (startOf z unit j) = some d ∧ (periods unit).index d = j := by
    intro hread
    refine ⟨(periods unit).first j, localDay_eq_some.mpr ⟨dayInRange_of_le hfirst htoday, ?_⟩,
      (periods unit).index_first hbase⟩
    unfold Zone.dayOf
    rw [hread]
    exact Int.mul_ediv_cancel _ (by decide)
  by_cases hlater : currentIndex z unit now < j + (n - 1)
  · apply hshown
    have heq := startOf_eq hback hn hsteady hreadable hbase hlater hj
    have hroom := room_before hback hn hreadable hbase hlater
    have hnow := le_read_now hreadable hfirst
    have hpos := day_pos
    have hoffset := hsteady (startOf z unit j) (by omega) (by omega)
    unfold Zone.read
    omega
  · cases hback with
    | days hunit hstart =>
      subst hunit
      apply hshown
      change today z now ≤ j + (n - 1) at hlow
      change j ≤ today z now at hj
      have hnext := @now_lt_read z now hreadable (today z now + 1) (Nat.lt_succ_self _)
      have hnow := le_read_now hreadable hj
      have hat : start ≤ (j : Int) * Zones.day - z.offset now := by
        unfold Zones.day at *
        omega
      have hoffset := hsteady _ hat hnow
      refine (@Zone.midnight_of_shown z ((j : Int) * Zones.day - z.offset now) j ?_).1
      unfold Zone.read
      omega
    | months hunit _ hindex _ =>
      subst hunit
      change 12 ≤ j at hbase
      have hlong := months_long hbase
      have hnext : monthStart (j + 1) ≤ today z now :=
        @first_le_today z .month now (j + 1) (show 12 ≤ j + 1 by omega) (by omega)
      have hle := z.le_dayOf_midnight (monthStart j : Nat)
      have hge := z.dayOf_midnight_le (monthStart j : Nat)
      obtain ⟨d, hd⟩ : ∃ d : Nat, z.dayOf (z.midnight (monthStart j : Nat)) = d :=
        ⟨_, (Int.toNat_of_nonneg (by omega)).symm⟩
      refine ⟨d, localDay_eq_some.mpr ⟨dayInRange_of_le ?_ htoday, hd⟩, ?_⟩
      · omega
      · exact months.index_eq hbase (show monthStart j ≤ d by omega)
          (show d < monthStart (j + 1) by omega)

theorem startOf_lt_next : startOf z unit j < startOf z unit (j + 1) := by
  obtain ⟨d, hd, hindex⟩ := localDay_startOf hback hn hsteady hreadable hbase hlow hj
  have hday := (localDay_eq_some.mp hd).2
  have hnext := (periods unit).lt_next d
  rw [hindex] at hnext
  apply z.lt_midnight_succ
  change z.dayOf (startOf z unit j) < _
  omega

theorem nextPeriodStart_startOf : nextPeriodStart z (startOf z unit j) unit =
      (checkedDay ((periods unit).first (j + 1))).bind (localMidnight z) := by
  obtain ⟨d, hd, hindex⟩ := localDay_startOf hback hn hsteady hreadable hbase hlow hj
  have hlt := startOf_lt_next hback hn hsteady hreadable hbase hlow hj
  rw [nextPeriodStart_eq (unit_ne_hour hback) hd (by rw [hindex]; exact hlt), hindex]

theorem periodStart_startOf :
    periodStart z (startOf z unit j) unit = localMidnight z ((periods unit).first j) := by
  obtain ⟨d, hd, hindex⟩ := localDay_startOf hback hn hsteady hreadable hbase hlow hj
  rw [periodStart_eq (unit_ne_hour hback) hd (by rw [hindex]; exact le_rfl), hindex]

end Period

theorem periodStart_now :
    periodStart z now unit = localMidnight z ((periods unit).first (currentIndex z unit now)) :=
  periodStart_eq (unit_ne_hour hback) (localDay_eq_some.mpr (dayOf_today hreadable))
    (startOf_le_now hback hn hsteady hreadable)

theorem shiftPeriodStart_now (hcurrent : InRange (startOf z unit (currentIndex z unit now))) :
    shiftPeriodStart z now unit (-((n : Int) - 1)) =
      if (periods unit).base + (n - 1) ≤ currentIndex z unit now then
        localMidnight z ((periods unit).first (currentIndex z unit now - (n - 1)))
      else none := by
  have hbase := base_le_current z unit now
  obtain ⟨d, hd, hindex⟩ := localDay_startOf hback hn hsteady hreadable hbase (by omega) le_rfl
  have hstart : periodStart z now unit = some (startOf z unit (currentIndex z unit now)) := by
    rw [periodStart_now hback hn hsteady hreadable]
    exact localMidnight_eq_some.mpr ⟨hcurrent, rfl⟩
  have hshift := shiftedFirst_eq (day_or_month hback) (localDay_eq_some.mp hd).1 (n - 1)
  have hcast : -((n : Int) - 1) = -((n - 1 : Nat) : Int) := by omega
  have hunfold : shiftPeriodStart z now unit (-((n : Int) - 1)) =
      (shiftedFirst unit d (-((n - 1 : Nat) : Int))).bind fun target =>
        (localMidnight z target).bind fun instant => periodStart z instant unit := by
    unfold shiftPeriodStart
    rw [hstart, bind_some, if_neg (by omega), hcast]
    rcases day_or_month hback with rfl | rfl
    · simp only [hd, bind_some]
    · simp only [hd, bind_some]
  rw [hunfold, hshift, hindex]
  split
  · next hreaches =>
      rw [bind_some]
      cases hmidnight : localMidnight z
          ((periods unit).first (currentIndex z unit now - (n - 1))) with
      | none => rfl
      | some first =>
        obtain ⟨_, rfl⟩ := localMidnight_eq_some.mp hmidnight
        rw [bind_some]
        exact (periodStart_startOf hback hn hsteady hreadable (by omega) (by omega)
          (by omega)).trans hmidnight
  · rfl

end Starts

section Relative

variable {z : Zone} {amount : Nat} {unit : SpanUnit} {now start : Int} {n : Nat}

theorem reachesBack_of_shiftMonths (hn : 2 ≤ n) (h : shiftMonths z now (-(n : Nat)) = some start) :
    ReachesBack z .month n now start := by
  obtain ⟨hreadable, hindex, rfl⟩ := shiftMonths_back h
  change 12 + n ≤ currentIndex z .month now at hindex
  change ReachesBack z .month n now (z.resolve ((monthStart (currentIndex z .month now - n) +
    (min (dateOfDay (today z now)).day (monthDays ((currentIndex z .month now - n) / 12)
      ((currentIndex z .month now - n) % 12 + 1)) - 1) : Nat) * Zones.day + z.read now % Zones.day))
  -- the day is clamped to the length of the month
  have hsucc := monthStart_succ (m := currentIndex z .month now - n) (by omega)
  rw [show currentIndex z .month now - n + 1 = currentIndex z .month now - (n - 1) by omega]
    at hsucc
  have hpositive := monthDays_pos ((currentIndex z .month now - n) / 12)
    ((currentIndex z .month now - n) % 12 + 1)
  have hclock := Int.emod_lt_of_pos (z.read now) day_pos
  have hmin := Nat.min_le_right (dateOfDay (today z now)).day
    (monthDays ((currentIndex z .month now - n) / 12) ((currentIndex z .month now - n) % 12 + 1))
  have hnear := z.resolve_sub_le ((monthStart (currentIndex z .month now - n) +
    (min (dateOfDay (today z now)).day (monthDays ((currentIndex z .month now - n) / 12)
      ((currentIndex z .month now - n) % 12 + 1)) - 1) : Nat) * Zones.day +
        z.read now % Zones.day) now
  refine .months rfl hreadable hindex ?_
  change _ < (monthStart (currentIndex z .month now - (n - 1)) : Int) * Zones.day -
    z.offset now + 26 * hour
  have hread : z.read now = now + z.offset now := rfl
  have hwhole : ((monthStart (currentIndex z .month now - n) +
      (min (dateOfDay (today z now)).day (monthDays ((currentIndex z .month now - n) / 12)
        ((currentIndex z .month now - n) % 12 + 1)) - 1) : Nat) : Int) + 1 ≤
      (monthStart (currentIndex z .month now - (n - 1)) : Int) := by
    omega
  unfold Zones.day at *
  omega

theorem reachesBack_of_relative {counted : BucketUnit}
    (htoken : tokenPeriods (.relative amount unit) = some (counted, n)) (hn : 2 ≤ n)
    (h : relativeStart z amount unit now = some start) : ReachesBack z counted n now start := by
  cases unit with
  | m | h => exact absurd htoken (by simp [tokenPeriods])
  | d =>
    cases htoken
    obtain ⟨_, rfl⟩ := checked_eq_some.mp h
    refine .days rfl ?_
    rw [mul_one]
  | w =>
    cases htoken
    obtain ⟨_, rfl⟩ := checked_eq_some.mp h
    refine .days rfl ?_
    rw [Nat.cast_mul, mul_assoc]
    rfl
  | M | y =>
    cases htoken
    exact reachesBack_of_shiftMonths hn h

end Relative

/-! ### Bars -/

/-- A window is aligned to its own unit, and broken down by that unit it has the counted number of
buckets: the last one in progress and none clipped.  Aligned once more, the window is the same. -/
def Bars (db : ZoneDatabase) (w : ResolvedWindow) : Prop :=
  ∃ unit n aligned bs, wholePeriodUnit w = some unit ∧ wholePeriodCount w = some n ∧
    alignWholePeriods db w = some aligned ∧ aligned.alignedTo = some unit ∧
    calendarBuckets db aligned unit none none = some bs ∧ bs.length = n ∧
    (∃ b, bs.getLast? = some b ∧ b.inProgress = true) ∧ (∀ b ∈ bs, b.clipped = false) ∧
    alignWholePeriods db aligned = some aligned

section Aligned

variable {db : ZoneDatabase} {t : TimeZone} {name : String} {w : ResolvedWindow} {unit : BucketUnit}
  {n : Nat} {start first now : Int}

structure Resolved (w : ResolvedWindow) (name : String) (start now : Int) : Prop where
  hstart : w.start = some start
  hstop : w.stop = now
  hnow : w.now = some now
  htz : w.tz = name
  hkind : w.kind = .relative
  hopen : w.openEnd = false
  hfresh : w.alignedTo = none

def alignedWindow (w : ResolvedWindow) (unit : BucketUnit) (first : Int) (suffix : String) :
    ResolvedWindow :=
  { w with start := some first, label := w.label ++ " (since " ++ suffix ++ ")",
           alignedTo := some unit }

section

variable (hw : Resolved w name start now) (hzone : zoneFor db name = some (t, name))
  (hunit : wholePeriodUnit w = some unit) (hcount : wholePeriodCount w = some n)

include hw hzone hunit hcount

theorem align_cases {aligned : ResolvedWindow} (h : alignWholePeriods db w = some aligned) :
    aligned = w ∨ ∃ first suffix, shiftPeriodStart t.zone now unit (-((n : Int) - 1)) = some first ∧
      first < now ∧ aligned = alignedWindow w unit first suffix := by
  unfold alignWholePeriods at h
  rw [if_neg (by simp [hw.hkind, hw.hfresh, hw.hstart])] at h
  simp only [hunit, hcount, hw.htz, hzone, hw.hnow, hw.hstop, bind_some,
    getD_some] at h
  cases hshift : shiftPeriodStart t.zone now unit (-((n : Int) - 1)) with
  | none =>
    rw [hshift] at h
    exact .inl (Option.some.inj h).symm
  | some first =>
    rw [hshift] at h
    dsimp only at h
    split at h
    · exact .inl (Option.some.inj h).symm
    · next hlt =>
        obtain ⟨d, _, h⟩ := bind_eq_some_iff.mp h
        obtain ⟨since, _, rfl⟩ := map_eq_some_iff.mp h
        refine .inr ⟨first, if name = "UTC" then since else since ++ ", " ++ name, rfl,
          not_le.mp hlt, ?_⟩
        simp [alignedWindow, hw.hstop, hw.hnow, hw.htz]

theorem align_of_shift {d : Nat}
    (hshift : shiftPeriodStart t.zone now unit (-((n : Int) - 1)) = some first) (hlt : first < now)
    (hday : localDay t.zone first = some d) :
    ∃ suffix, alignWholePeriods db w = some (alignedWindow w unit first suffix) := by
  unfold alignWholePeriods
  rw [if_neg (by simp [hw.hkind, hw.hfresh, hw.hstart])]
  simp only [hunit, hcount, hw.htz, hzone, hw.hnow, hw.hstop, bind_some,
    getD_some, hshift, if_neg (not_le.mpr hlt), hday]
  obtain ⟨label, hlabel⟩ := isSome_iff_exists.mp (periodLabel_isSome hday unit)
  obtain ⟨since, hsince⟩ : ∃ since, (if unit = .day then some (fmtDay d) else
      periodLabel t.zone first unit) = some since := by
    split
    · exact ⟨_, rfl⟩
    · exact ⟨label, hlabel⟩
  rw [hsince]
  refine ⟨if name = "UTC" then since else since ++ ", " ++ name, ?_⟩
  simp [alignedWindow, hw.hstop, hw.hnow, hw.htz]

end

theorem align_aligned (suffix : String) :
    alignWholePeriods db (alignedWindow w unit first suffix) =
      some (alignedWindow w unit first suffix) := by
  unfold alignWholePeriods
  rw [if_pos (by simp [alignedWindow])]

theorem calendarBuckets_aligned {suffix : String} (hw : Resolved w name start now)
    (hzone : zoneFor db name = some (t, name)) (hlt : first < now)
    (hself : periodStart t.zone first unit = some first) :
    calendarBuckets db (alignedWindow w unit first suffix) unit none none =
      bucketLoop t (alignedWindow w unit first suffix) unit now false maxGeneratedBuckets first ""
      := by
  have hrange : bucketRange (alignedWindow w unit first suffix) none none =
      some (first, now, false) := by
    simp [bucketRange, alignedWindow, hw.hstop, not_lt.mpr hlt.le]
  unfold calendarBuckets
  rw [hrange]
  simp only [show (alignedWindow w unit first suffix).tz = name from hw.htz, hzone,
    bind_some, hself]

end Aligned

section Main

variable {db : ZoneDatabase} {t : TimeZone} {name : String} {w : ResolvedWindow} {unit : BucketUnit}
  {n : Nat} {start now first : Int}

theorem counted_of_shift (hback : ReachesBack t.zone unit n now start) (hn : 2 ≤ n)
    (hsteady : Steady t.zone start now)
    (h : shiftPeriodStart t.zone now unit (-((n : Int) - 1)) = some first) :
    InRange (t.zone.read now) ∧ (periods unit).base + (n - 1) ≤ currentIndex t.zone unit now ∧
      InRange (startOf t.zone unit (currentIndex t.zone unit now - (n - 1))) ∧
      first = startOf t.zone unit (currentIndex t.zone unit now - (n - 1)) := by
  obtain ⟨current, hcurrent, _⟩ := bind_eq_some_iff.mp h
  have hreadable := readable_of_periodStart hcurrent
  rw [periodStart_now hback hn hsteady hreadable] at hcurrent
  have hin := (localMidnight_eq_some.mp hcurrent).1
  rw [shiftPeriodStart_now hback hn hsteady hreadable hin] at h
  split at h
  · next hreaches =>
      obtain ⟨hbegins, rfl⟩ := localMidnight_eq_some.mp h
      exact ⟨hreadable, hreaches, hbegins, rfl⟩
  · exact absurd h (by simp)

theorem inRange_startOf {z : Zone} (hnow : InRange now) (hback : ReachesBack z unit n now start)
    (hn : 2 ≤ n) (hsteady : Steady z start now) (hreadable : InRange (z.read now))
    (hreaches : (periods unit).base + (n - 1) ≤ currentIndex z unit now)
    (hbegins : InRange (startOf z unit (currentIndex z unit now - (n - 1)))) {j : Nat}
    (hlow : currentIndex z unit now ≤ j + (n - 1)) (hj : j ≤ currentIndex z unit now) :
    InRange (startOf z unit j) := by
  have hfrom := @startOf_mono z unit (currentIndex z unit now - (n - 1)) j (by omega) (by omega)
  have hupto := @startOf_mono z unit j (currentIndex z unit now) (by omega) hj
  have hle := startOf_le_now hback hn hsteady hreadable
  unfold InRange at hbegins hnow ⊢
  omega

variable {z : Zone}

theorem next_startOf (hnow : InRange now) (hback : ReachesBack z unit n now start) (hn : 2 ≤ n)
    (hsteady : Steady z start now) (hreadable : InRange (z.read now))
    (hreaches : (periods unit).base + (n - 1) ≤ currentIndex z unit now)
    (hbegins : InRange (startOf z unit (currentIndex z unit now - (n - 1)))) {j : Nat}
    (hlow : currentIndex z unit now ≤ j + (n - 1)) (hj : j < currentIndex z unit now) :
    nextPeriodStart z (startOf z unit j) unit = some (startOf z unit (j + 1)) := by
  have hday : DayInRange ((periods unit).first (j + 1)) :=
    dayInRange_of_le (first_le_today (by omega) hj) (dayOf_today hreadable).1
  rw [nextPeriodStart_startOf hback hn hsteady hreadable (by omega) hlow hj.le,
    checkedDay_of hday, bind_some]
  exact localMidnight_eq_some.mpr
    ⟨inRange_startOf hnow hback hn hsteady hreadable hreaches hbegins (by omega) hj, rfl⟩

theorem resolved_of_relative {amount : Nat} {letter : SpanUnit}
    (h : relativeWindow z name amount letter now = some w) (hstart : w.start = some start) :
    Resolved w name start now ∧ relativeStart z amount letter now = some start ∧
      w.token = .relative amount letter := by
  obtain ⟨s, hs, rfl⟩ := map_eq_some_iff.mp h
  cases hstart
  exact ⟨⟨rfl, rfl, rfl, rfl, rfl, rfl, rfl⟩, hs, rfl⟩

theorem tokenPeriods_of_counted (hunit : wholePeriodUnit w = some unit)
    (hcount : wholePeriodCount w = some n) : tokenPeriods w.token = some (unit, n) ∧ 2 ≤ n := by
  unfold wholePeriodCount at hcount
  rw [hunit, bind_some] at hcount
  obtain ⟨⟨u, m⟩, htoken, rfl⟩ := map_eq_some_iff.mp hcount
  unfold wholePeriodUnit at hunit
  rw [htoken] at hunit
  split at hunit
  · exact absurd hunit (by simp)
  · rw [bind_some] at hunit
    dsimp only at hunit
    split at hunit
    · next hm =>
        cases Option.some.inj hunit
        exact ⟨htoken, hm⟩
    · exact absurd hunit (by simp)

theorem getLast?_of_length {bs : List CalendarBucket} (h : bs.length = n) :
    bs.getLast? = bs[n - 1]? := by
  rw [List.getLast?_eq_getElem?, h]

theorem clipped_alignedWindow {stop start' : Int} {suffix label : String}
    (hw : Resolved w name start now) (hfirst : first ≤ start') (hstop : stop ≤ now ∨ start' ≤ now) :
    (bucketOf (alignedWindow w unit first suffix) start' stop label).clipped = false := by
  have hcurrent : (alignedWindow w unit first suffix).now = some now := hw.hnow
  have hend : (alignedWindow w unit first suffix).stop = now := hw.hstop
  have hopen : (alignedWindow w unit first suffix).openEnd = false := hw.hopen
  have hfrom : (alignedWindow w unit first suffix).start = some first := rfl
  simp only [bucketOf, hcurrent, hend, hopen, hfrom, not_lt.mpr hfirst, decide_false,
    Bool.false_or, Bool.not_false, Bool.true_and]
  by_cases hlate : now < stop
  · have hin : start' ≤ now ∧ now < stop := ⟨by omega, hlate⟩
    simp [hlate, hin]
  · simp [hlate]

section

variable (hnow : InRange now) (hw : Resolved w name start now)
  (hzone : zoneFor db name = some (t, name)) (hunit : wholePeriodUnit w = some unit)
  (hcount : wholePeriodCount w = some n) (hback : ReachesBack t.zone unit n now start) (hn : 2 ≤ n)
  (hsteady : Steady t.zone start now)

include hnow hw hzone hunit hcount hback hn hsteady

theorem bars_of_countable (h : Countable t.zone unit n now) : Bars db w := by
  obtain ⟨hreadable, hreaches, hbegins, hnextDay, hends, hwithin, hlisted⟩ := h
  have hle := startOf_le_now hback hn hsteady hreadable
  have hlater := now_lt_startOf hback hn hsteady hreadable
  have hin := @inRange_startOf unit n start now t.zone hnow hback hn hsteady hreadable hreaches
    hbegins
  have hfirst : startOf t.zone unit (currentIndex t.zone unit now - (n - 1)) < now :=
    lt_of_le_of_lt (startOf_mono (by omega) (Nat.sub_le _ _)) (lt_of_le_of_ne hle hwithin)
  have hshift : shiftPeriodStart t.zone now unit (-((n : Int) - 1)) =
      some (startOf t.zone unit (currentIndex t.zone unit now - (n - 1))) := by
    rw [shiftPeriodStart_now hback hn hsteady hreadable (hin (by omega) le_rfl), if_pos hreaches]
    exact localMidnight_eq_some.mpr ⟨hbegins, rfl⟩
  obtain ⟨d, hday, _⟩ := localDay_startOf hback hn hsteady hreadable
    (j := currentIndex t.zone unit now - (n - 1)) (by omega) (by omega) (by omega)
  obtain ⟨suffix, halign⟩ := align_of_shift hw hzone hunit hcount hshift hfirst hday
  have hself : periodStart t.zone (startOf t.zone unit (currentIndex t.zone unit now - (n - 1)))
      unit = some (startOf t.zone unit (currentIndex t.zone unit now - (n - 1))) := by
    rw [periodStart_startOf hback hn hsteady hreadable (by omega) (by omega) (by omega)]
    exact localMidnight_eq_some.mpr ⟨hbegins, rfl⟩
  -- the midnights of the counted periods, and of the one that follows
  let bound (k : Nat) : Int :=
    startOf t.zone unit (currentIndex t.zone unit now - (n - 1) + k)
  have hcurrent : currentIndex t.zone unit now - (n - 1) + (n - 1) =
      currentIndex t.zone unit now := by omega
  have hupto : ∀ k, k < n → bound k ≤ startOf t.zone unit (currentIndex t.zone unit now) :=
    fun k hk => startOf_mono (by omega) (by omega)
  have hlast : bound n = startOf t.zone unit (currentIndex t.zone unit now + 1) := by
    change startOf t.zone unit _ = _
    congr 1
    omega
  have hnext : ∀ k, k < n → nextPeriodStart t.zone (bound k) unit = some (bound (k + 1)) := by
    intro k hk
    by_cases hinner : k + 1 < n
    · exact next_startOf hnow hback hn hsteady hreadable hreaches hbegins (by omega) (by omega)
    · have hk : k = n - 1 := by omega
      subst hk
      change nextPeriodStart t.zone (startOf t.zone unit _) unit = some (startOf t.zone unit _)
      rw [hcurrent, show currentIndex t.zone unit now - (n - 1) + (n - 1 + 1) =
        currentIndex t.zone unit now + 1 by omega,
        nextPeriodStart_startOf hback hn hsteady hreadable (base_le_current _ _ _) (by omega)
          le_rfl, checkedDay_of hnextDay, bind_some]
      exact localMidnight_eq_some.mpr ⟨hends, rfl⟩
  have hlabel : ∀ k, k < n → (periodLabel t.zone (bound k) unit).isSome := by
    intro k hk
    obtain ⟨e, he, _⟩ := localDay_startOf hback hn hsteady hreadable
      (j := currentIndex t.zone unit now - (n - 1) + k) (by omega) (by omega) (by omega)
    exact periodLabel_isSome he unit
  obtain ⟨bs, hloop, hlength, hat⟩ := @loop_of_chain t (alignedWindow w unit (bound 0) suffix) unit
    now false bound n maxGeneratedBuckets "" hlisted
    (fun k hk => .inl (lt_of_le_of_lt (hupto k hk) (lt_of_le_of_ne hle hwithin)))
    (by simp only [Before, Bool.false_eq_true, false_and, or_false]; rw [hlast]; omega)
    hnext hlabel
  refine ⟨unit, n, _, bs, hunit, hcount, halign, rfl, ?_, hlength, ?_, ?_, align_aligned suffix⟩
  · rw [calendarBuckets_aligned hw hzone hfirst hself]
    exact hloop
  · obtain ⟨label, hb⟩ := hat (n - 1) (by omega)
    refine ⟨_, (getLast?_of_length hlength).trans hb, ?_⟩
    have hin : bound (n - 1) ≤ now ∧ now < bound (n - 1 + 1) := by
      constructor
      · exact (hupto (n - 1) (by omega)).trans hle
      · rw [show n - 1 + 1 = n by omega, hlast]
        exact hlater
    have hcurrent : (alignedWindow w unit (bound 0) suffix).now = some now := hw.hnow
    simp only [bucketOf, hcurrent]
    exact decide_eq_true hin
  · intro b hb
    obtain ⟨k, hk, rfl⟩ := List.mem_iff_getElem.mp hb
    obtain ⟨label, hbk⟩ := hat k (by omega)
    rw [List.getElem?_eq_getElem hk] at hbk
    rw [Option.some.inj hbk]
    exact clipped_alignedWindow hw (startOf_mono (by omega) (by omega))
      (.inr ((hupto k (by omega)).trans hle))

theorem countable_of_bars (h : Bars db w) : Countable t.zone unit n now := by
  obtain ⟨unit', n', aligned, bs, hunit', hcount', halign, hto, hbuckets, hlength, ⟨b, hlast, _⟩,
    _, _⟩ := h
  cases Option.some.inj (hunit.symm.trans hunit')
  cases Option.some.inj (hcount.symm.trans hcount')
  rcases align_cases hw hzone hunit hcount halign with rfl | ⟨first, suffix, hshift, hlt, rfl⟩
  · exact absurd (hto.symm.trans hw.hfresh) (by simp)
  obtain ⟨hreadable, hreaches, hbegins, rfl⟩ := counted_of_shift hback hn hsteady hshift
  have hself : periodStart t.zone (startOf t.zone unit (currentIndex t.zone unit now - (n - 1)))
      unit = some (startOf t.zone unit (currentIndex t.zone unit now - (n - 1))) := by
    rw [periodStart_startOf hback hn hsteady hreadable (by omega) (by omega) (by omega)]
    exact localMidnight_eq_some.mpr ⟨hbegins, rfl⟩
  rw [calendarBuckets_aligned hw hzone hlt hself] at hbuckets
  obtain ⟨htiles, hroom⟩ := tiles_of_loop hbuckets
  rw [hlength] at hroom
  -- the last bucket is that of the current period
  have hcurrent : currentIndex t.zone unit now - (n - 1) + (n - 1) =
      currentIndex t.zone unit now := by omega
  have hstart := @Tiles.start_eq _ unit now false t.zone
    (fun k => startOf t.zone unit (currentIndex t.zone unit now - (n - 1) + k)) (n - 1) bs htiles
    (fun k hk => next_startOf hnow hback hn hsteady hreadable hreaches hbegins (by omega)
      (by omega)) (by omega)
  rw [hcurrent, ← getLast?_of_length hlength, hlast] at hstart
  have hb : b.start = startOf t.zone unit (currentIndex t.zone unit now) := Option.some.inj hstart
  obtain ⟨hbefore, hnext, _⟩ := htiles.bucket_of_mem (List.mem_of_getLast? hlast)
  rw [hb, nextPeriodStart_startOf hback hn hsteady hreadable (base_le_current _ _ _) (by omega)
    le_rfl] at hnext
  obtain ⟨next, hday, hmidnight⟩ := bind_eq_some_iff.mp hnext
  obtain ⟨hnextDay, rfl⟩ := checkedDay_eq_some.mp hday
  rw [hb] at hbefore
  have hwithin : startOf t.zone unit (currentIndex t.zone unit now) < now := by
    rcases hbefore with h | ⟨h, _⟩
    · exact h
    · exact absurd h (by simp)
  exact ⟨hreadable, hreaches, hbegins, hnextDay, (localMidnight_eq_some.mp hmidnight).1,
    hwithin.ne, hroom⟩

end

/-- **A relative window that is counted in whole periods has as many bars as periods, the last one
in progress and none clipped, exactly if its dates exist, a list may have so many buckets, and now
is not exactly the start of a period.** -/
theorem whole_period_bars_iff {tz : String} {amount : Nat} {letter : SpanUnit}
    (hzone : zoneFor db tz = some (t, name)) (hnow : InRange now)
    (hw : relativeWindow t.zone name amount letter now = some w) (hstart : w.start = some start)
    (hunit : wholePeriodUnit w = some unit) (hcount : wholePeriodCount w = some n)
    (hsteady : Steady t.zone start now) : Bars db w ↔ Countable t.zone unit n now := by
  obtain ⟨hresolved, hrelative, htoken⟩ := resolved_of_relative hw hstart
  obtain ⟨hperiods, hn⟩ := tokenPeriods_of_counted hunit hcount
  rw [htoken] at hperiods
  have hback := reachesBack_of_relative hperiods hn hrelative
  constructor
  · exact countable_of_bars hnow hresolved (zoneFor_name hzone) hunit hcount hback hn hsteady
  · exact bars_of_countable hnow hresolved (zoneFor_name hzone) hunit hcount hback hn hsteady

end Main

def lastTwoDays (clock : Int) : ResolvedWindow where
  start := some (739000 * Zones.day + clock - 2 * Zones.day)
  stop := 739000 * Zones.day + clock
  label := "last 2 days"
  tz := "UTC"
  token := .relative 2 .d
  now := some (739000 * Zones.day + clock)
  kind := .relative

/-- An hour after midnight the last two days are two bars. -/
theorem two_bars_after_midnight : Bars plainDatabase (lastTwoDays hour) := by
  have hnow : InRange (739000 * Zones.day + hour) := by decide
  have hw : relativeWindow utc.zone "UTC" 2 .d (739000 * Zones.day + hour) =
      some (lastTwoDays hour) := rfl
  apply (whole_period_bars_iff (zoneFor_utc plainDatabase) hnow hw rfl rfl rfl
    (fun _ _ _ => rfl)).mpr
  constructor
  all_goals decide

/-- At midnight the last two days are one bar, which is not in progress. -/
theorem one_bar_at_midnight :
    relativeWindow utc.zone "UTC" 2 .d (739000 * Zones.day) = some (lastTwoDays 0) ∧
      Steady utc.zone (738998 * Zones.day) (739000 * Zones.day) ∧
      ¬ Bars plainDatabase (lastTwoDays 0) := by
  refine ⟨rfl, fun _ _ _ => rfl, fun h => ?_⟩
  have hback : ReachesBack utc.zone .day 2 (739000 * Zones.day + 0)
      (739000 * Zones.day + 0 - 2 * Zones.day) := .days rfl rfl
  have hnow : InRange (739000 * Zones.day + 0) := by decide
  have hresolved : Resolved (lastTwoDays 0) "UTC" (739000 * Zones.day + 0 - 2 * Zones.day)
      (739000 * Zones.day + 0) := ⟨rfl, rfl, rfl, rfl, rfl, rfl, rfl⟩
  have hcountable := countable_of_bars hnow hresolved (zoneFor_utc plainDatabase) rfl rfl hback
    le_rfl (fun _ _ _ => rfl) h
  exact hcountable.within (by decide)

end AgenticKibana.Windows
