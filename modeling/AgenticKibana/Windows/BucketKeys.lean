import AgenticKibana.Windows.Buckets

/-!
# Bucket keys

The fold of the cases puts a record under the start of its own period, found from the clock at its
instant; the buckets of the window are found by going from period to period.  The two agree where
the clock of the zone is steady: it is set back on the hour and by whole hours only, and each
instant lies between the midnights that begin the period shown at it and the next.  A clock that is
set back from or to the middle of an hour, or past a midnight, is not.
-/

namespace AgenticKibana.Windows

open AgenticKibana.Library List
open AgenticKibana.Library.Calendar
open AgenticKibana.Library.Zones

/-! ### The clock's periods -/

section Clock

variable (z : Zone) (unit : BucketUnit)

def shownFirst (u : Int) : Nat := (periods unit).first ((periods unit).index (z.dayOf u).toNat)

/-- What the beginning of the shown period stands for: the whole hour, or the midnight of the first
day. -/
def beginning (u : Int) : Int :=
  match unit with
  | .hour => wholeHour z u (z.read u)
  | unit => z.midnight (shownFirst z unit u)

/-- What is taken for it where the clock skipped it: a number of hours earlier, or the midnight of
the day before. -/
def earlier (u : Int) : Int :=
  match unit with
  | .hour => u - (u - wholeHour z u (z.read u)) % hour
  | unit => z.midnight (shownFirst z unit u - 1 : Nat)

def opening (u : Int) : Int :=
  if u < beginning z unit u then earlier z unit u else beginning z unit u

/-- The instant at which the period after one opened at `s` is opened. -/
def following (s : Int) : Int :=
  let next := match unit with
    | .hour => opening z .hour (s + hour)
    | unit => z.midnight ((periods unit).first ((periods unit).index (z.dayOf s).toNat + 1))
  if next ≤ s then s + hour else next

/-- The instants and days that are come by are those of the years one to 9999. -/
def Dated (u : Int) : Prop :=
  InRange (z.read u) ∧ InRange (beginning z unit u) ∧
    (u < beginning z unit u →
      InRange (earlier z unit u) ∧ (unit = .hour ∨ shownFirst z unit u ≠ 0))

/-- The instants from `lo` to `hi`, and `hi` itself where it is included. -/
def Covered (lo hi : Int) (inclusive : Bool) (u : Int) : Prop := lo ≤ u ∧ Before hi inclusive u

instance (lo hi : Int) (inclusive : Bool) (u : Int) : Decidable (Covered lo hi inclusive u) :=
  inferInstanceAs (Decidable (_ ∧ _))

/-- The openings of the periods are in order: each instant lies between that of its own period and
what follows it, and no two of these stretches overlap. -/
structure InOrder (lo hi : Int) (inclusive : Bool) : Prop where
  dated : ∀ u, Covered lo hi inclusive u → Dated z unit u
  within : ∀ u, Covered lo hi inclusive u →
    opening z unit u ≤ u ∧ u < following z unit (opening z unit u)
  apart : ∀ u v, Covered lo hi inclusive u → Covered lo hi inclusive v → opening z unit v ≤ u →
    u < following z unit (opening z unit v) → opening z unit u = opening z unit v

/-- The midnight that begins a period. -/
def periodMidnight (i : Nat) : Int := z.midnight ((periods unit).first i)

/-- The period that the clock shows. -/
def shownPeriod (u : Int) : Nat := (periods unit).index (z.dayOf u).toNat

/-- The offset of the clock is the same throughout the hour that it shows, and the whole hour is
taken for the instant at which that was shown. -/
structure FullHour (u : Int) : Prop where
  even : ∀ x, u - z.read u % hour ≤ x → x < u - z.read u % hour + hour → z.offset x = z.offset u
  found : ∀ x, u - z.read u % hour ≤ x → x < u - z.read u % hour + hour →
    wholeHour z x (z.read x) = u - z.read u % hour

/-- Near an instant the clock is put forward, once at `t`, and a whole hour that it has not shown
since is taken with the offset it had before. -/
structure PutForward (t old new u : Int) : Prop where
  near : t - 2 * hour < u ∧ u < t + hour
  forward : old < new
  before : ∀ x, t - 3 * hour < x → x < t → z.offset x = old
  since : ∀ x, t ≤ x → x < t + 2 * hour → z.offset x = new
  taken : ∀ x w, t - 3 * hour < x → x < t + 2 * hour → w = z.read x - z.read x % hour →
    wholeHour z x (z.read x) = w - if w < t + new then old else new

/-- An instant lies between the midnight that begins a period, at which the clock shows it, and the
midnight that begins the next. -/
structure InPeriod (i : Nat) (u : Int) : Prop where
  begun : periodMidnight z unit i ≤ u
  lasts : u < periodMidnight z unit (i + 1)
  shown : shownPeriod z unit (periodMidnight z unit i) = i
  dated : InRange (z.read u) ∧ InRange (periodMidnight z unit i)

/-- **The clock is steady** over a window.  For hours: unless it is put forward it is changed on the
hour and by whole hours only.  For longer periods: each instant lies in the period that is shown at
it, or for days in the day before, where the clock has skipped the midnight. -/
structure SteadyClock (lo hi : Int) (inclusive : Bool) : Prop where
  hours : unit = .hour → ∀ u, Covered lo hi inclusive u → Dated z .hour u ∧
    (FullHour z u ∧ FullHour z (u - z.read u % hour + hour) ∨ ∃ t old new, PutForward z t old new u)
  days : unit ≠ .hour → ∀ u, Covered lo hi inclusive u →
    InPeriod z unit (shownPeriod z unit u) u ∨ unit = .day ∧ ∃ i, shownPeriod z unit u = i + 1 ∧
      InRange (periodMidnight z unit (i + 1)) ∧ InPeriod z unit i u

end Clock

/-- `_check_aligned` of the keys of the records that have a date. -/
def checkAligned (keys : List Int) (bs : List CalendarBucket) : Bool :=
  keys.all fun key => (bs.map (·.start)).elem key

def KeyedRight (z : Zone) (unit : BucketUnit) (bs : List CalendarBucket) (u : Int) : Prop :=
  ∃ b ∈ bs, (b.start ≤ u ∧ u < b.stop) ∧ (∀ c ∈ bs, c.start ≤ u → u < c.stop → c = b) ∧
    periodStart z u unit = some b.start

def FoldAgrees (z : Zone) (unit : BucketUnit) (bs : List CalendarBucket) (lo hi : Int)
    (inclusive : Bool) : Prop :=
  (∀ u, Covered lo hi inclusive u → KeyedRight z unit bs u) ∧
    ∀ us : List Int, (∀ u ∈ us, Covered lo hi inclusive u) →
      ∃ keys, us.mapM (fun u => periodStart z u unit) = some keys ∧ checkAligned keys bs = true

section Keys

variable {z : Zone} {unit : BucketUnit} {u start : Int}

theorem stepBack_eq {fuel : Nat} (h : start - fuel * hour ≤ u) :
    stepBack u fuel start = if u < start then u - (u - start) % hour else start := by
  induction fuel generalizing start with
  | zero =>
    push_cast at h
    rw [stepBack, if_neg (by omega)]
  | succ fuel ih =>
    rw [stepBack]
    by_cases hlt : u < start
    · push_cast at h
      rw [if_pos hlt, if_pos hlt, ih (by unfold hour at *; omega)]
      unfold hour at *
      split <;> omega
    · rw [if_neg hlt, if_neg hlt]

theorem localDay_of_inRange (h : InRange (z.read u)) : localDay z u = some (z.dayOf u).toNat := by
  rw [localDay, localTime, checked, if_pos h]
  rfl

theorem beginning_days (hunit : unit ≠ .hour) :
    beginning z unit u = z.midnight (shownFirst z unit u) := by
  cases unit with
  | hour => exact absurd rfl hunit
  | day | week | month | quarter | year => rfl

theorem earlier_days (hunit : unit ≠ .hour) :
    earlier z unit u = z.midnight (shownFirst z unit u - 1 : Nat) := by
  cases unit with
  | hour => exact absurd rfl hunit
  | day | week | month | quarter | year => rfl

theorem following_days (hunit : unit ≠ .hour) : following z unit start =
    let next := z.midnight ((periods unit).first ((periods unit).index (z.dayOf start).toNat + 1))
    if next ≤ start then start + hour else next := by
  cases unit with
  | hour => exact absurd rfl hunit
  | day | week | month | quarter | year => rfl

/-- **The start of a period is where the clock opened it.** -/
theorem periodStart_opening :
    periodStart z u unit = some start ↔ Dated z unit u ∧ opening z unit u = start := by
  by_cases hhour : unit = .hour
  · subst hhour
    have hfuel : wholeHour z u (z.read u) -
        ((wholeHour z u (z.read u) - u) / hour + 1).toNat * hour ≤ u := by
      unfold hour
      omega
    have hstep := stepBack_eq hfuel
    change stepBack u _ (beginning z .hour u) = opening z .hour u at hstep
    change ((checked (z.read u)).bind fun w => (checked (wholeHour z u w)).bind fun start =>
      checked (stepBack u ((start - u) / hour + 1).toNat start)) = some start ↔ _
    simp only [Option.bind_eq_some_iff, checked_eq_some]
    constructor
    · rintro ⟨_, ⟨hread, rfl⟩, _, ⟨hbegin, rfl⟩, hstart, rfl⟩
      refine ⟨⟨hread, hbegin, fun hlt => ⟨?_, .inl rfl⟩⟩, hstep.symm⟩
      rw [show stepBack u _ (wholeHour z u (z.read u)) = opening z .hour u from hstep, opening,
        if_pos hlt] at hstart
      exact hstart
    · rintro ⟨⟨hread, hbegin, hearly⟩, rfl⟩
      refine ⟨_, ⟨hread, rfl⟩, _, ⟨hbegin, rfl⟩, ?_, hstep⟩
      rw [show stepBack u _ (wholeHour z u (z.read u)) = opening z .hour u from hstep, opening]
      split
      · next hlt => exact (hearly hlt).1
      · exact hbegin
  · have hbegin := @beginning_days z unit u hhour
    have hearlier := @earlier_days z unit u hhour
    have hdays : InRange (z.read u) → periodStart z u unit =
        (localMidnight z (shownFirst z unit u)).bind fun start =>
          if u < start then
            if shownFirst z unit u = 0 then none else localMidnight z (shownFirst z unit u - 1)
          else some start :=
      fun hread => periodStart_days hhour (localDay_of_inRange hread)
    constructor
    · intro h
      obtain ⟨_, hw, -⟩ := Option.bind_eq_some_iff.mp h
      have hread := (checked_eq_some.mp hw).1
      rw [hdays hread] at h
      obtain ⟨_, hmidnight, h⟩ := Option.bind_eq_some_iff.mp h
      obtain ⟨hrange, rfl⟩ := localMidnight_eq_some.mp hmidnight
      rw [← hbegin] at h hrange
      by_cases hlt : u < beginning z unit u
      · rw [if_pos hlt] at h
        by_cases hzero : shownFirst z unit u = 0
        · simp [hzero] at h
        · rw [if_neg hzero] at h
          obtain ⟨hearly, rfl⟩ := localMidnight_eq_some.mp h
          rw [← hearlier] at hearly ⊢
          exact ⟨⟨hread, hrange, fun _ => ⟨hearly, .inr hzero⟩⟩, if_pos hlt⟩
      · rw [if_neg hlt] at h
        cases h
        exact ⟨⟨hread, hrange, fun h => absurd h hlt⟩, if_neg hlt⟩
    · rintro ⟨⟨hread, hrange, hearly⟩, rfl⟩
      rw [hdays hread, localMidnight, checked, ← hbegin, if_pos hrange, Option.bind_some, opening]
      split
      · next hlt =>
          obtain ⟨hin, hzero⟩ := hearly hlt
          rw [if_neg (hzero.resolve_left hhour), localMidnight, checked, ← hearlier, if_pos hin]
      · rfl

theorem localDay_of_nextPeriodStart (hunit : unit ≠ .hour) {next : Int}
    (h : nextPeriodStart z start unit = some next) : ∃ d, localDay z start = some d := by
  cases unit with
  | hour => exact absurd rfl hunit
  | day | week | month | quarter | year =>
    obtain ⟨d, hd, _⟩ := Option.bind_eq_some_iff.mp h
    exact ⟨d, hd⟩

theorem following_of_next {stop : Int} (h : nextPeriodStart z start unit = some stop) :
    stop = following z unit start := by
  by_cases hhour : unit = .hour
  · subst hhour
    obtain ⟨later, hlater, h⟩ := Option.bind_eq_some_iff.mp h
    obtain ⟨next, hnext, rfl⟩ := Option.map_eq_some_iff.mp h
    obtain ⟨_, rfl⟩ := checked_eq_some.mp hlater
    obtain ⟨-, rfl⟩ := periodStart_opening.mp hnext
    simp only [following]
    split <;> split <;> omega
  · obtain ⟨d, hd⟩ := localDay_of_nextPeriodStart hhour h
    rw [nextPeriodStart_days hhour hd] at h
    obtain ⟨first, hfirst, h⟩ := Option.bind_eq_some_iff.mp h
    obtain ⟨next, hnext, h⟩ := Option.bind_eq_some_iff.mp h
    obtain ⟨_, rfl⟩ := checkedDay_eq_some.mp hfirst
    obtain ⟨_, rfl⟩ := localMidnight_eq_some.mp hnext
    have hday : (z.dayOf start).toNat = d := by
      rw [(localDay_eq_some.mp hd).2]
      rfl
    rw [following_days hhour, hday]
    dsimp only
    split at h
    · next hle =>
        rw [if_pos hle]
        exact (checked_eq_some.mp h).2.symm
    · next hlt =>
        rw [if_neg hlt]
        exact (Option.some.inj h).symm

theorem hour_pos : 0 < hour := by decide

theorem past_hour (t : Int) : 0 ≤ t % hour ∧ t % hour < hour :=
  ⟨Int.emod_nonneg t hour_pos.ne', Int.emod_lt_of_pos t hour_pos⟩

theorem lt_following (s : Int) : s < following z unit s := by
  unfold following
  have hpos := hour_pos
  dsimp only
  split <;> omega

theorem opening_hour_le (u : Int) : opening z .hour u ≤ u := by
  unfold opening
  split
  · have hrest := (past_hour (u - wholeHour z u (z.read u))).1
    change u - (u - wholeHour z u (z.read u)) % hour ≤ u
    omega
  · next hle => exact not_lt.mp hle

end Keys

/-! ### A steady clock -/

section Steadiness

variable {z : Zone} {unit : BucketUnit} {lo hi : Int} {inclusive : Bool} {u v : Int} {i j : Nat}

/-- The hour of an instant goes on from its opening to what follows it. -/
structure Stretch (z : Zone) (u : Int) : Prop where
  within : opening z .hour u ≤ u ∧ u < following z .hour (opening z .hour u)
  same : ∀ x, opening z .hour u ≤ x → x < following z .hour (opening z .hour u) →
    opening z .hour x = opening z .hour u

theorem FullHour.opening_eq (h : FullHour z u) {x : Int} (hle : u - z.read u % hour ≤ x)
    (hlt : x < u - z.read u % hour + hour) : opening z .hour x = u - z.read u % hour := by
  have hbegin : beginning z .hour x = u - z.read u % hour := h.found x hle hlt
  rw [opening, hbegin, if_neg (not_lt.mpr hle)]

theorem FullHour.next (h : FullHour z u)
    (hnext : FullHour z (u - z.read u % hour + hour)) :
    following z .hour (u - z.read u % hour) = u - z.read u % hour + hour := by
  have hread : z.read (u - z.read u % hour + hour) % hour = 0 := by
    generalize hy : u - z.read u % hour + hour = y at *
    by_contra hne
    -- an hour that began within this one has its offset, and so shows no whole hour at its end
    obtain ⟨hpos, hlt⟩ := past_hour (z.read y)
    have hlate := hnext.even (y - z.read y % hour) le_rfl (by omega)
    have hearly := h.even (y - z.read y % hour) (by omega) (by omega)
    unfold Zone.read hour at *
    omega
  have hopens := hnext.opening_eq (x := u - z.read u % hour + hour)
    (by omega) (by rw [hread, sub_zero]; exact lt_add_of_pos_right _ hour_pos)
  rw [hread, sub_zero] at hopens
  simp only [following, hopens]
  exact if_neg (not_le.mpr (lt_add_of_pos_right _ hour_pos))

theorem FullHour.stretch (h : FullHour z u)
    (hnext : FullHour z (u - z.read u % hour + hour)) : Stretch z u := by
  obtain ⟨hpos, hlt⟩ := past_hour (z.read u)
  have hopens := h.opening_eq (x := u) (by omega) (by omega)
  constructor
  · rw [hopens, h.next hnext]
    constructor <;> omega
  · rw [hopens, h.next hnext]
    exact fun x => h.opening_eq

/-- The hours before and behind a change of the offset: up to the first whole hour that is shown
since, they begin as they did before. -/
def hourAcross (t old new x : Int) : Int :=
  if x - (x + new) % hour < t then x - (x + old) % hour else x - (x + new) % hour

variable {t old new x : Int}

theorem hourAcross_le (t old new x : Int) :
    x - hour < hourAcross t old new x ∧ hourAcross t old new x ≤ x := by
  unfold hourAcross hour
  split_ifs <;> omega

theorem lt_hourAcross : x < hourAcross t old new (hourAcross t old new x + hour) := by
  unfold hourAcross hour
  split_ifs <;> omega

theorem hourAcross_eq {y : Int} (hle : hourAcross t old new x ≤ y)
    (hlt : y < hourAcross t old new (hourAcross t old new x + hour)) :
    hourAcross t old new y = hourAcross t old new x := by
  unfold hourAcross hour at *
  split_ifs at * <;> omega

theorem PutForward.opening_eq (h : PutForward z t old new u) (hle : t - 3 * hour < x)
    (hlt : x < t + 2 * hour) : opening z .hour x = hourAcross t old new x := by
  obtain ⟨w, hw⟩ : ∃ w, w = z.read x - z.read x % hour := ⟨_, rfl⟩
  have hwhole := h.taken x w hle hlt hw
  have hforward := h.forward
  change (if x < wholeHour z x (z.read x) then x - (x - wholeHour z x (z.read x)) % hour
    else wholeHour z x (z.read x)) = _
  generalize wholeHour z x (z.read x) = begun at hwhole ⊢
  unfold hourAcross
  rcases lt_or_ge x t with hx | hx
  · have hoffset := h.before x hle hx
    unfold Zone.read hour at *
    rw [hoffset] at hw
    split_ifs at * <;> omega
  · have hoffset := h.since x hx hlt
    unfold Zone.read hour at *
    rw [hoffset] at hw
    split_ifs at * <;> omega

theorem PutForward.stretch (h : PutForward z t old new u) : Stretch z u := by
  obtain ⟨hle, hlt⟩ := h.near
  obtain ⟨hlow, hhigh⟩ := hourAcross_le t old new u
  have hpos := hour_pos
  have hopens := h.opening_eq (x := u) (by omega) (by omega)
  have hnext := h.opening_eq (x := hourAcross t old new u + hour) (by omega) (by omega)
  have hlater : u < hourAcross t old new (hourAcross t old new u + hour) := lt_hourAcross
  have hfollows : following z .hour (opening z .hour u) =
      hourAcross t old new (hourAcross t old new u + hour) := by
    simp only [following, hopens, hnext]
    exact if_neg (by omega)
  have hroom := (hourAcross_le t old new (hourAcross t old new u + hour)).2
  constructor
  · rw [hfollows, hopens]
    exact ⟨hhigh, hlater⟩
  · intro x hx hx'
    rw [hopens] at hx ⊢
    rw [hfollows] at hx'
    exact (h.opening_eq (by omega) (by omega)).trans (hourAcross_eq hx hx')

theorem InPeriod.unique (hi : (periods unit).base ≤ i) (hj : (periods unit).base ≤ j)
    (h : InPeriod z unit i u) (hle : periodMidnight z unit j ≤ u)
    (hlt : u < periodMidnight z unit (j + 1)) : i = j := by
  have hmono : ∀ {a b}, (periods unit).base ≤ a → a + 1 ≤ b →
      periodMidnight z unit (a + 1) ≤ periodMidnight z unit b := fun ha hab =>
    z.midnight_mono (by exact_mod_cast (periods unit).first_mono (by omega) hab)
  by_contra hne
  rcases Nat.lt_or_gt_of_ne hne with hij | hji
  · exact absurd (h.lasts.trans_le (hmono hi hij)) (not_lt.mpr hle)
  · exact absurd (hlt.trans_le (hmono hj hji)) (not_lt.mpr h.begun)

theorem InPeriod.following_eq (hunit : unit ≠ .hour) (h : InPeriod z unit i u) :
    following z unit (periodMidnight z unit i) = periodMidnight z unit (i + 1) := by
  have hshown := h.shown
  have hlt := h.begun.trans_lt h.lasts
  unfold shownPeriod at hshown
  rw [following_days hunit, hshown]
  exact if_neg (not_le.mpr hlt)

theorem SteadyClock.opened (h : SteadyClock z unit lo hi inclusive) (hunit : unit ≠ .hour)
    (hu : Covered lo hi inclusive u) : ∃ i, (periods unit).base ≤ i ∧ InPeriod z unit i u ∧
      Dated z unit u ∧ opening z unit u = periodMidnight z unit i := by
  have hbegin : beginning z unit u = periodMidnight z unit (shownPeriod z unit u) :=
    beginning_days hunit
  unfold Dated opening
  rw [hbegin]
  rcases h.days hunit u hu with hin | ⟨rfl, i, hshown, hdated, hin⟩
  · have hpast : ¬u < periodMidnight z unit (shownPeriod z unit u) := not_lt.mpr hin.begun
    exact ⟨_, (periods unit).base_le _, hin,
      ⟨hin.dated.1, hin.dated.2, fun hlt => absurd hlt hpast⟩, if_neg hpast⟩
  · have hearlier : earlier z .day u = periodMidnight z .day i := by
      rw [earlier_days hunit]
      change z.midnight (shownPeriod z .day u - 1 : Nat) = _
      rw [hshown]
      rfl
    rw [hshown, hearlier]
    refine ⟨i, Nat.zero_le i, hin, ⟨hin.dated.1, hdated, fun _ => ⟨hin.dated.2, .inr ?_⟩⟩,
      if_pos hin.lasts⟩
    change shownPeriod z .day u ≠ 0
    omega

/-- **A steady clock** goes through its periods in order. -/
theorem SteadyClock.inOrder (h : SteadyClock z unit lo hi inclusive) :
    InOrder z unit lo hi inclusive := by
  by_cases hunit : unit = .hour
  · subst hunit
    have hstretch : ∀ {u}, Covered lo hi inclusive u → Stretch z u := by
      intro u hu
      rcases (h.hours rfl u hu).2 with ⟨hfull, hnext⟩ | ⟨t, old, new, hforward⟩
      · exact hfull.stretch hnext
      · exact hforward.stretch
    exact ⟨fun u hu => (h.hours rfl u hu).1, fun u hu => (hstretch hu).within,
      fun u v _ hv hle hlt => (hstretch hv).same u hle hlt⟩
  · refine ⟨fun u hu => ?_, fun u hu => ?_, fun u v hu hv hle hlt => ?_⟩
    · obtain ⟨-, -, -, hdated, -⟩ := h.opened hunit hu
      exact hdated
    · obtain ⟨i, -, hin, -, hopens⟩ := h.opened hunit hu
      rw [hopens, hin.following_eq hunit]
      exact ⟨hin.begun, hin.lasts⟩
    · obtain ⟨i, hi, hin, -, hopens⟩ := h.opened hunit hu
      obtain ⟨j, hj, hin', -, hopens'⟩ := h.opened hunit hv
      rw [hopens', hin'.following_eq hunit] at hlt
      rw [hopens'] at hle
      rw [hopens, hopens', hin.unique hi hj hle hlt]

end Steadiness

section Axis

variable {z : Zone} {w : ResolvedWindow} {unit : BucketUnit} {lo hi : Int} {inclusive : Bool}
  {start : Int} {bs : List CalendarBucket} {b : CalendarBucket}

theorem Tiles.le_start (h : Tiles z w unit hi inclusive start bs) (hb : b ∈ bs) :
    start ≤ b.start := by
  induction h with
  | done => exact absurd hb not_mem_nil
  | @bucket start stop _ _ _ hnext _ ih =>
    rcases mem_cons.mp hb with rfl | hmem
    · exact le_rfl
    · have := ih hmem
      have hlt : start < following z unit start := lt_following start
      have hstop := following_of_next hnext
      omega

theorem Tiles.unique (h : Tiles z w unit hi inclusive start bs) {c : CalendarBucket} {u : Int}
    (hb : b ∈ bs) (hc : c ∈ bs) (hbu : b.start ≤ u ∧ u < b.stop) (hcu : c.start ≤ u ∧ u < c.stop) :
    c = b := by
  induction h with
  | done => exact absurd hb not_mem_nil
  | bucket _ _ hmore ih =>
    rcases mem_cons.mp hb with rfl | hb
    · rcases mem_cons.mp hc with rfl | hc
      · rfl
      · have hstop := hmore.le_start hc
        exact absurd (hbu.2.trans_le hstop) (not_lt.mpr hcu.1)
    · rcases mem_cons.mp hc with rfl | hc
      · have hstop := hmore.le_start hb
        exact absurd (hcu.2.trans_le hstop) (not_lt.mpr hbu.1)
      · exact ih hb hc

theorem Tiles.hours (h : Tiles z w .hour hi inclusive start bs) :
    hi ≤ start + hour * bs.length := by
  induction h with
  | @done start hdone =>
    have hend : hi ≤ start := not_lt.mp fun hlt => hdone (.inl hlt)
    simpa using hend
  | @bucket start _ _ _ _ hnext _ ih =>
    have hopens : opening z .hour (start + hour) ≤ start + hour := opening_hour_le _
    have hstop := following_of_next hnext
    simp only [following] at hstop
    rw [length_cons]
    push_cast
    unfold hour at *
    split at hstop <;> omega

theorem InOrder.opening_following (h : InOrder z unit lo hi inclusive) {v : Int}
    (hv : Covered lo hi inclusive v)
    (hx : Covered lo hi inclusive (following z unit (opening z unit v))) :
    opening z unit (following z unit (opening z unit v)) =
      following z unit (opening z unit v) := by
  obtain ⟨hle, hlt⟩ := h.within v hv
  generalize hnext : following z unit (opening z unit v) = x at hlt hx ⊢
  obtain ⟨hcx, hxc⟩ := h.within x hx
  by_contra hne
  have hbefore : opening z unit x < x := lt_of_le_of_ne hcx hne
  by_cases hcv : opening z unit x ≤ v
  · -- the stretch of `x` reaches back to `v`, so it is the one of `v`, which ends at `x`
    have hsame := h.apart v x hv hx hcv (hlt.trans hxc)
    rw [← hsame, hnext] at hxc
    exact absurd hxc (lt_irrefl _)
  · -- the opening of `x` lies in both stretches
    have hc : Covered lo hi inclusive (opening z unit x) := by
      refine ⟨by have := hv.1; omega, ?_⟩
      rcases hx.2 with hxhi | ⟨hincl, hxhi⟩
      · exact .inl (by omega)
      · exact .inr ⟨hincl, by omega⟩
    have hfirst := h.apart (opening z unit x) v hc hv (by omega) (by rw [hnext]; exact hbefore)
    have hsecond := h.apart (opening z unit x) x hc hx le_rfl (hbefore.trans hxc)
    omega

/-- **From the opening of one instant of the window on, the buckets are the stretches of the
clock.** -/
theorem Tiles.bucket_of_opening (h : Tiles z w unit hi inclusive start bs)
    (horder : InOrder z unit lo hi inclusive) {u v : Int} (hu : Covered lo hi inclusive u)
    (hv : Covered lo hi inclusive v) (hstart : start = opening z unit v) (hle : start ≤ u) :
    ∃ b ∈ bs, (b.start ≤ u ∧ u < b.stop) ∧ opening z unit u = b.start := by
  induction h generalizing v with
  | done hdone =>
    refine absurd ?_ hdone
    rcases hu.2 with hlt | ⟨hincl, hlt⟩
    · exact .inl (by omega)
    · exact .inr ⟨hincl, by omega⟩
  | @bucket start stop label more hbefore hnext hmore ih =>
    subst hstart
    have hstop := following_of_next hnext
    by_cases hlt : u < stop
    · refine ⟨bucketOf w (opening z unit v) stop label, mem_cons_self, ⟨hle, hlt⟩, ?_⟩
      exact horder.apart u v hu hv hle (hstop ▸ hlt)
    · have hstopped : Covered lo hi inclusive stop := by
        have hwithin := (horder.within v hv).2
        rw [← hstop] at hwithin
        refine ⟨by have := hv.1; omega, ?_⟩
        rcases hu.2 with hlast | ⟨hincl, hlast⟩
        · exact .inl (by omega)
        · exact .inr ⟨hincl, by omega⟩
      have hopens : stop = opening z unit stop := by
        rw [hstop] at hstopped ⊢
        exact (horder.opening_following hv hstopped).symm
      obtain ⟨b, hb, hin, hkey⟩ := ih hstopped hopens (not_lt.mp hlt)
      exact ⟨b, mem_cons_of_mem _ hb, hin, hkey⟩

theorem foldAgrees_of_keyedRight (h : ∀ u, Covered lo hi inclusive u → KeyedRight z unit bs u) :
    FoldAgrees z unit bs lo hi inclusive := by
  refine ⟨h, fun us hus => ?_⟩
  induction us with
  | nil => exact ⟨[], rfl, rfl⟩
  | cons u us ih =>
    rw [forall_mem_cons] at hus
    obtain ⟨b, hb, -, -, hkey⟩ := h u hus.1
    obtain ⟨keys, hkeys, haligned⟩ := ih hus.2
    refine ⟨b.start :: keys, ?_, ?_⟩
    · rw [mapM_cons, hkey, hkeys]
      rfl
    · have hmem : b.start ∈ bs.map (·.start) := List.mem_map_of_mem hb
      simp only [checkAligned, all_cons, Bool.and_eq_true]
      exact ⟨elem_iff.mpr hmem, haligned⟩

theorem inOrder_of_keyedRight (htiles : Tiles z w unit hi inclusive start bs)
    (h : ∀ u, Covered lo hi inclusive u → KeyedRight z unit bs u) :
    InOrder z unit lo hi inclusive := by
  have hbucket : ∀ u, Covered lo hi inclusive u → Dated z unit u ∧ ∃ b ∈ bs,
      opening z unit u = b.start ∧ following z unit (opening z unit u) = b.stop ∧
        (b.start ≤ u ∧ u < b.stop) := by
    intro u hu
    obtain ⟨b, hb, hin, -, hkey⟩ := h u hu
    obtain ⟨hdated, hopening⟩ := periodStart_opening.mp hkey
    refine ⟨hdated, b, hb, hopening, ?_, hin⟩
    rw [hopening]
    exact (following_of_next (htiles.bucket_of_mem hb).2.1).symm
  constructor
  · exact fun u hu => (hbucket u hu).1
  · intro u hu
    obtain ⟨-, b, -, hopening, hfollowing, hin⟩ := hbucket u hu
    rw [hfollowing, hopening]
    exact hin
  · intro u v hu hv hle hlt
    obtain ⟨-, b, hb, hopening, -, hin⟩ := hbucket u hu
    obtain ⟨-, c, hc, hopening', hfollowing', -⟩ := hbucket v hv
    rw [hopening'] at hle
    rw [hfollowing'] at hlt
    rw [hopening, hopening', htiles.unique hb hc hin ⟨hle, hlt⟩]

theorem tiles_of_zone {db : ZoneDatabase} {t : TimeZone} {name : String}
    {earliest latest : Option Int} (hzone : zoneFor db w.tz = some (t, name))
    (hrange : bucketRange w earliest latest = some (lo, hi, inclusive))
    (hbs : calendarBuckets db w unit earliest latest = some bs) :
    ∃ start, periodStart t.zone lo unit = some start ∧
      Tiles t.zone w unit hi inclusive start bs ∧ bs.length ≤ maxGeneratedBuckets := by
  unfold calendarBuckets at hbs
  rw [hrange, hzone] at hbs
  simp only [Option.bind_some] at hbs
  obtain ⟨start, hstart, hbs⟩ := Option.bind_eq_some_iff.mp hbs
  exact ⟨start, hstart, tiles_of_loop hbs⟩

/-- The keys of the records are the buckets of the axis exactly if the openings are in order. -/
theorem foldAgrees_iff_inOrder {db : ZoneDatabase} {t : TimeZone} {name : String}
    {earliest latest : Option Int} (hzone : zoneFor db w.tz = some (t, name))
    (hrange : bucketRange w earliest latest = some (lo, hi, inclusive))
    (hbs : calendarBuckets db w unit earliest latest = some bs) :
    FoldAgrees t.zone unit bs lo hi inclusive ↔ InOrder t.zone unit lo hi inclusive := by
  obtain ⟨start, hstart, htiles, -⟩ := tiles_of_zone hzone hrange hbs
  constructor
  · exact fun h => inOrder_of_keyedRight htiles h.1
  · intro horder
    apply foldAgrees_of_keyedRight
    intro u hu
    have hlo : Covered lo hi inclusive lo := by
      refine ⟨le_rfl, ?_⟩
      have hle := hu.1
      rcases hu.2 with hlt | ⟨hincl, hlt⟩
      · exact .inl (by omega)
      · exact .inr ⟨hincl, by omega⟩
    obtain ⟨-, hopening⟩ := periodStart_opening.mp hstart
    have hfirst : start ≤ u := by
      have := (horder.within lo hlo).1
      have := hu.1
      omega
    obtain ⟨b, hb, hin, hkey⟩ := htiles.bucket_of_opening horder hu hlo hopening.symm hfirst
    refine ⟨b, hb, hin, fun c hc hle hlt => htiles.unique hb hc hin ⟨hle, hlt⟩, ?_⟩
    exact periodStart_opening.mpr ⟨horder.dated u hu, hkey⟩

end Axis

/-! ### A clock that is set back by an hour, and one by half an hour -/

/-- Set back from 03:00 to 02:00. -/
def berlin : Zone :=
  Zone.setBack (739000 * Zones.day + hour) (2 * hour) hour (by decide) (by decide)

def berlinDatabase : ZoneDatabase where
  zoneInfo name := if name = "Europe/Berlin" then some ⟨berlin, fun _ => "CET"⟩ else none
  digit := plainDatabase.digit

/-- Two hours before the change, and two behind it. -/
def fourHours : ResolvedWindow where
  start := some (739000 * Zones.day - hour)
  stop := 739000 * Zones.day + 3 * hour
  label := ""
  tz := "Europe/Berlin"
  token := .text ""

theorem fullHour_berlin (u : Int) : FullHour berlin u := by
  constructor
  · intro x hx hx'
    simp only [berlin, Zone.setBack, Zone.read, Zones.day, hour] at *
    split_ifs at * <;> omega
  · intro x hx hx'
    simp only [wholeHour, berlin, Zone.setBack, Zone.read, Zone.resolve, Zone.resolveLate,
      Zones.day, hour] at *
    split_ifs at * <;> omega

theorem fourHours_buckets :
    ∃ bs, calendarBuckets berlinDatabase fourHours .hour none none = some bs :=
  ⟨_, rfl⟩

def lordHowe : Zone :=
  Zone.setBack (739000 * Zones.day - 9 * hour) (11 * hour) (10 * hour + hour / 2)
    (by decide) (by decide)

def lordHoweDatabase : ZoneDatabase where
  zoneInfo name := if name = "Australia/Lord_Howe" then some ⟨lordHowe, fun _ => "+11"⟩ else none
  digit := plainDatabase.digit

def setBackWindow : ResolvedWindow where
  start := some (739000 * Zones.day - 10 * hour)
  stop := 739000 * Zones.day - 8 * hour
  label := ""
  tz := "Australia/Lord_Howe"
  token := .text ""

/-- The midnight of the day before the one that the clock shows is past: no change of the clock
leaps over more than a day. -/
def YesterdayBegun (z : Zone) : Prop := ∀ u, z.midnight (z.dayOf u - 1) ≤ u

structure Partitions (bs : List CalendarBucket) (lo hi : Int) (inclusive : Bool) : Prop where
  rising : bs.Pairwise fun b c => b.start < c.start
  adjoining : ∀ i b c, bs[i]? = some b → bs[i + 1]? = some c → b.stop = c.start
  first : ∀ b ∈ bs.head?, b.start ≤ lo
  last : ∀ b ∈ bs.getLast?, hi ≤ b.stop ∧ (inclusive = true → hi < b.stop)
  one : ∀ u, Covered lo hi inclusive u → ∃! b, b ∈ bs ∧ b.start ≤ u ∧ u < b.stop

section Partition

variable {z : Zone} {w : ResolvedWindow} {unit : BucketUnit} {lo hi : Int} {inclusive : Bool}
  {start : Int} {bs : List CalendarBucket} {u : Int}

theorem opening_le (hpast : YesterdayBegun z) (h : Dated z unit u) : opening z unit u ≤ u := by
  unfold opening
  split
  · next hlt =>
      obtain ⟨-, hskipped⟩ := h.2.2 hlt
      by_cases hhour : unit = .hour
      · subst hhour
        exact (if_pos hlt).symm.trans_le (opening_hour_le u)
      · have hfirst : shownFirst z unit u ≤ (z.dayOf u).toNat := (periods unit).first_le _
        have hpositive := hskipped.resolve_left hhour
        rw [earlier_days hhour]
        exact (z.midnight_mono (by omega)).trans (hpast u)
  · next hle => exact not_lt.mp hle

section

variable (h : Tiles z w unit hi inclusive start bs)

include h

theorem Tiles.rising : bs.Pairwise fun b c => b.start < c.start := by
  induction h with
  | done => exact .nil
  | @bucket start stop _ _ _ hnext hmore ih =>
    refine .cons (fun c hc => ?_) ih
    have hlt : start < following z unit start := lt_following start
    have hstop := following_of_next hnext
    have hle := hmore.le_start hc
    change start < c.start
    omega

theorem Tiles.adjoining (i : Nat)
    (b c : CalendarBucket) (hb : bs[i]? = some b) (hc : bs[i + 1]? = some c) :
    b.stop = c.start := by
  induction h generalizing i with
  | done => simp at hb
  | bucket _ _ hmore ih =>
    cases i with
    | zero =>
      obtain rfl := Option.some.inj hb
      cases hmore with
      | done => simp at hc
      | bucket =>
        obtain rfl := Option.some.inj hc
        rfl
    | succ i => exact ih i hb hc

theorem Tiles.last {b : CalendarBucket} (hb : b ∈ bs.getLast?) : ¬ Before hi inclusive b.stop := by
  induction h with
  | done => simp at hb
  | bucket _ _ hmore ih =>
    cases hmore with
    | done hdone =>
      obtain rfl := Option.some.inj hb
      exact hdone
    | bucket => exact ih (by rwa [getLast?_cons_cons] at hb)

theorem Tiles.covers (hle : start ≤ u)
    (hu : Before hi inclusive u) : ∃ b ∈ bs, b.start ≤ u ∧ u < b.stop := by
  induction h with
  | done hdone =>
    refine absurd ?_ hdone
    rcases hu with hlt | ⟨hincl, hlast⟩
    · exact .inl (by omega)
    · exact .inr ⟨hincl, by omega⟩
  | @bucket _ stop _ _ _ _ _ ih =>
    by_cases hlt : u < stop
    · exact ⟨_, mem_cons_self, hle, hlt⟩
    · obtain ⟨b, hb, hin⟩ := ih (not_lt.mp hlt)
      exact ⟨b, mem_cons_of_mem _ hb, hin⟩

end

/-- **The buckets of a window partition it**, whenever they are returned. -/
theorem buckets_partition {db : ZoneDatabase} {t : TimeZone} {name : String}
    {earliest latest : Option Int} (hzone : zoneFor db w.tz = some (t, name))
    (hpast : YesterdayBegun t.zone)
    (hrange : bucketRange w earliest latest = some (lo, hi, inclusive))
    (hbs : calendarBuckets db w unit earliest latest = some bs) :
    Partitions bs lo hi inclusive ∧ bs.length ≤ maxGeneratedBuckets := by
  obtain ⟨start, hstart, htiles, hroom⟩ := tiles_of_zone hzone hrange hbs
  obtain ⟨hdated, rfl⟩ := periodStart_opening.mp hstart
  have hle := opening_le hpast hdated
  refine ⟨⟨htiles.rising, htiles.adjoining, fun b hb => ?_, fun b hb => ?_, fun u hu => ?_⟩, hroom⟩
  · cases htiles with
    | done => simp at hb
    | bucket =>
      obtain rfl := Option.some.inj hb
      exact hle
  · have hdone := htiles.last hb
    exact ⟨not_lt.mp fun h => hdone (.inl h), fun hincl => not_le.mp fun h =>
      hdone (.inr ⟨hincl, h⟩)⟩
  · obtain ⟨b, hb, hin⟩ := htiles.covers (hle.trans hu.1) hu.2
    exact ⟨b, ⟨hb, hin⟩, fun c hc => htiles.unique hb hc.1 hin hc.2⟩

end Partition

theorem four_hours_partition :
    ∃ bs, calendarBuckets berlinDatabase fourHours .hour none none = some bs ∧
      Partitions bs (739000 * Zones.day - hour) (739000 * Zones.day + 3 * hour) false := by
  obtain ⟨bs, hbs⟩ := fourHours_buckets
  have hzone : zoneFor berlinDatabase fourHours.tz =
      some (⟨berlin, fun _ => "CET"⟩, "Europe/Berlin") := rfl
  have hpast : YesterdayBegun berlin := by
    intro u
    simp only [Zone.midnight, Zone.resolve, Zone.dayOf, Zone.read, berlin, Zone.setBack,
      Zones.day, hour]
    split_ifs <;> omega
  exact ⟨bs, hbs, (buckets_partition hzone hpast rfl hbs).1⟩

def thirtyYears : ResolvedWindow where
  start := some (726000 * Zones.day)
  stop := 737000 * Zones.day
  label := "30 years"
  tz := "UTC"
  token := .text "30 years"
  kind := .range

theorem thirtyYears_range : bucketRange thirtyYears none none =
    some (726000 * Zones.day, 737000 * Zones.day, false) := by decide

theorem thirtyYears_hours : calendarBuckets plainDatabase thirtyYears .hour none none = none := by
  cases hlist : calendarBuckets plainDatabase thirtyYears .hour none none with
  | none => rfl
  | some bs =>
    have hzone : zoneFor plainDatabase thirtyYears.tz = some (utc, "UTC") :=
      zoneFor_utc plainDatabase
    obtain ⟨start, hstart, htiles, hroom⟩ := tiles_of_zone hzone thirtyYears_range hlist
    obtain ⟨-, hopening⟩ := periodStart_opening.mp hstart
    have hle := @opening_hour_le utc.zone (726000 * Zones.day)
    rw [hopening] at hle
    have hhours := htiles.hours
    have hlength : (bs.length : Int) ≤ 200000 := by exact_mod_cast hroom
    unfold Zones.day hour at *
    omega

/-- Thirty years are too many hours, so they are not broken down into them. -/
theorem thirty_years_refused : ¬ ∃ bs, calendarBuckets plainDatabase thirtyYears .hour none none =
    some bs ∧ Partitions bs (726000 * Zones.day) (737000 * Zones.day) false := by
  rintro ⟨bs, hbs, -⟩
  rw [thirtyYears_hours] at hbs
  cases hbs

end AgenticKibana.Windows
