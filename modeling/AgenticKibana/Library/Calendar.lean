import Mathlib.Tactic

/-!
# The proleptic Gregorian calendar

Days are counted from the first day of year one, which has the ordinal one.  A date is
valid by construction; it and its ordinal determine each other, and the order of the dates
is the order of their ordinals.  A calendar divides the days, counted from zero, into periods that
follow each other: days, weeks, months, and groups of these.
-/

namespace AgenticKibana.Library.Calendar

def IsLeap (year : Nat) : Prop := year % 4 = 0 ∧ (year % 100 ≠ 0 ∨ year % 400 = 0)

instance (year : Nat) : Decidable (IsLeap year) := inferInstanceAs (Decidable (_ ∧ _))

def daysBeforeYear (year : Nat) : Nat :=
  (year - 1) * 365 + (year - 1) / 4 - (year - 1) / 100 + (year - 1) / 400

def yearDays (year : Nat) : Nat := if IsLeap year then 366 else 365

theorem daysBeforeYear_succ {year : Nat} (h : 1 ≤ year) :
    daysBeforeYear (year + 1) = daysBeforeYear year + yearDays year := by
  obtain ⟨y, rfl⟩ : ∃ y, year = y + 1 := ⟨year - 1, by omega⟩
  have h4 : (y + 1) / 4 = y / 4 + if (y + 1) % 4 = 0 then 1 else 0 := by split <;> omega
  have h100 : (y + 1) / 100 = y / 100 + if (y + 1) % 100 = 0 then 1 else 0 := by split <;> omega
  have h400 : (y + 1) / 400 = y / 400 + if (y + 1) % 400 = 0 then 1 else 0 := by split <;> omega
  have hcentury : y / 100 ≤ y / 4 := Nat.div_le_div_left (by decide) (by decide)
  have h100' : (y + 1) % 100 = 0 → (y + 1) % 4 = 0 := by omega
  have h400' : (y + 1) % 400 = 0 → (y + 1) % 100 = 0 := by omega
  unfold daysBeforeYear yearDays
  simp only [Nat.add_sub_cancel]
  rw [h4, h100, h400]
  clear h4 h100 h400
  generalize y / 4 = a at *
  generalize y / 100 = b at *
  generalize y / 400 = c at *
  by_cases hleap : IsLeap (y + 1)
  · rw [if_pos hleap]
    unfold IsLeap at hleap
    rw [if_pos hleap.1]
    rcases hleap.2 with hnot | hyes
    · rw [if_neg hnot, if_neg fun h => hnot (h400' h)]
      omega
    · rw [if_pos (h400' hyes), if_pos hyes]
      omega
  · rw [if_neg hleap]
    unfold IsLeap at hleap
    by_cases hfour : (y + 1) % 4 = 0
    · have hhundred : (y + 1) % 100 = 0 := by
        by_contra hnot
        exact hleap ⟨hfour, .inl hnot⟩
      have hnot : ¬ (y + 1) % 400 = 0 := fun h => hleap ⟨hfour, .inr h⟩
      rw [if_pos hfour, if_pos hhundred, if_neg hnot]
      omega
    · have hhundred : ¬ (y + 1) % 100 = 0 := fun h => hfour (h100' h)
      rw [if_neg hfour, if_neg hhundred, if_neg fun h => hhundred (h400' h)]
      omega

theorem daysBeforeYear_mono {year year' : Nat} (h : 1 ≤ year) (hle : year ≤ year') :
    daysBeforeYear year ≤ daysBeforeYear year' := by
  induction year', hle using Nat.le_induction with
  | base => exact le_rfl
  | succ y hy ih =>
    have hsucc := daysBeforeYear_succ (h.trans hy)
    omega

def monthDays (year month : Nat) : Nat :=
  if month = 2 then if IsLeap year then 29 else 28
  else if month = 4 ∨ month = 6 ∨ month = 9 ∨ month = 11 then 30
  else 31

def daysBeforeMonth (year : Nat) : Nat → Nat
  | 0 => 0
  | 1 => 0
  | month + 2 => daysBeforeMonth year (month + 1) + monthDays year (month + 1)

variable {month : Nat}

theorem daysBeforeMonth_succ (year : Nat) (h : 1 ≤ month) :
    daysBeforeMonth year (month + 1) = daysBeforeMonth year month + monthDays year month := by
  obtain ⟨m, rfl⟩ : ∃ m, month = m + 1 := ⟨month - 1, by omega⟩
  rfl

theorem monthDays_pos (year month : Nat) : 28 ≤ monthDays year month := by
  unfold monthDays
  split
  · split <;> omega
  split <;> omega

theorem daysBeforeMonth_mono {year month' : Nat} (h : 1 ≤ month) (hle : month ≤ month') :
    daysBeforeMonth year month ≤ daysBeforeMonth year month' := by
  induction month', hle using Nat.le_induction with
  | base => exact le_rfl
  | succ m hm ih =>
    have hsucc := daysBeforeMonth_succ year (h.trans hm)
    omega

theorem daysBeforeMonth_year (year : Nat) : daysBeforeMonth year 13 = yearDays year := by
  by_cases h : IsLeap year
  · simp [daysBeforeMonth, monthDays, yearDays, h]
  · simp [daysBeforeMonth, monthDays, yearDays, h]

structure Date where
  year : Nat
  month : Nat
  day : Nat
  year_pos : 1 ≤ year
  month_pos : 1 ≤ month
  month_le : month ≤ 12
  day_pos : 1 ≤ day
  day_le : day ≤ monthDays year month
  deriving DecidableEq

variable {d e : Date}

theorem Date.ext' (hy : d.year = e.year) (hm : d.month = e.month) (hd : d.day = e.day) : d = e := by
  cases d
  cases e
  simp_all

def Date.dayOfYear (d : Date) : Nat := daysBeforeMonth d.year d.month + d.day

/-- `date.toordinal()`. -/
def Date.ordinal (d : Date) : Nat := daysBeforeYear d.year + d.dayOfYear

theorem Date.dayOfYear_pos (d : Date) : 1 ≤ d.dayOfYear := by
  have hday := d.day_pos
  unfold Date.dayOfYear
  omega

theorem Date.dayOfYear_le (d : Date) : d.dayOfYear ≤ yearDays d.year := by
  have hmonth : daysBeforeMonth d.year (d.month + 1) ≤ daysBeforeMonth d.year 13 :=
    daysBeforeMonth_mono (Nat.le_add_left 1 d.month) (Nat.succ_le_succ d.month_le)
  have hsucc := daysBeforeMonth_succ d.year d.month_pos
  have hyear := daysBeforeMonth_year d.year
  have hday := d.day_le
  unfold Date.dayOfYear
  omega

/-! ### The date of an ordinal -/

def yearOf (ordinal : Nat) : Nat :=
  let n := ordinal - 1
  let n400 := n / 146097
  let n100 := n % 146097 / 36524
  let n4 := n % 146097 % 36524 / 1461
  let n1 := n % 146097 % 36524 % 1461 / 365
  let year := n400 * 400 + n100 * 100 + n4 * 4 + n1
  if n100 = 4 ∨ n1 = 4 then year else year + 1

theorem daysBeforeYear_cycles (a b c d : Nat) (hb : b ≤ 3) (hc : c ≤ 24) (hd : d ≤ 3) :
    daysBeforeYear (a * 400 + b * 100 + c * 4 + d + 1) =
      a * 146097 + b * 36524 + c * 1461 + d * 365 := by
  have h4 : (a * 400 + b * 100 + c * 4 + d) / 4 = a * 100 + b * 25 + c := by omega
  have h100 : (a * 400 + b * 100 + c * 4 + d) / 100 = a * 4 + b := by omega
  have h400 : (a * 400 + b * 100 + c * 4 + d) / 400 = a := by omega
  unfold daysBeforeYear
  rw [Nat.add_sub_cancel, h4, h100, h400]
  omega

variable {ordinal : Nat}

theorem yearOf_spec (h : 1 ≤ ordinal) :
    1 ≤ yearOf ordinal ∧ daysBeforeYear (yearOf ordinal) < ordinal ∧
      ordinal ≤ daysBeforeYear (yearOf ordinal + 1) := by
  obtain ⟨n, rfl⟩ : ∃ n, ordinal = n + 1 := ⟨ordinal - 1, by omega⟩
  unfold yearOf
  dsimp only
  rw [Nat.add_sub_cancel]
  generalize ha : n / 146097 = a
  generalize hb : n % 146097 / 36524 = b
  generalize hc : n % 146097 % 36524 / 1461 = c
  generalize hd : n % 146097 % 36524 % 1461 / 365 = d
  have hb4 : b ≤ 4 := by omega
  have hc24 : c ≤ 24 := by omega
  have hd4 : d ≤ 4 := by omega
  by_cases hlast : b = 4 ∨ d = 4
  · -- the last day of a cycle falls in its last year
    rw [if_pos hlast]
    by_cases hb' : b = 4
    · have hcd : c = 0 ∧ d = 0 := by omega
      have hyear : a * 400 + b * 100 + c * 4 + d = a * 400 + 3 * 100 + 24 * 4 + 3 + 1 := by omega
      have hnext : a * 400 + b * 100 + c * 4 + d + 1 = (a + 1) * 400 + 1 := by
        rw [hb', hcd.1, hcd.2]
        ring
      have hcycle : daysBeforeYear ((a + 1) * 400 + 1) = (a + 1) * 146097 := by
        have hzero := daysBeforeYear_cycles (a + 1) 0 0 0 (by decide) (by decide) (by decide)
        simpa only [Nat.zero_mul, Nat.add_zero] using hzero
      have hbefore := (congrArg daysBeforeYear hyear).trans
        (daysBeforeYear_cycles a 3 24 3 le_rfl le_rfl le_rfl)
      have hafter := (congrArg daysBeforeYear hnext).trans hcycle
      rw [hbefore, hafter]
      omega
    · obtain rfl : d = 4 := by omega
      have hc23 : c ≤ 23 := by omega
      obtain ⟨y, hy⟩ : ∃ y, y = a * 400 + b * 100 + c * 4 + 4 := ⟨_, rfl⟩
      have hyear : y = a * 400 + b * 100 + c * 4 + 3 + 1 := by omega
      have hbefore := (congrArg daysBeforeYear hyear).trans
        (daysBeforeYear_cycles a b c 3 (by omega) hc24 le_rfl)
      have hsucc := @daysBeforeYear_succ y (by omega)
      have hleap : yearDays y = 366 := by
        apply if_pos
        unfold IsLeap
        omega
      rw [← hy]
      omega
  · rw [if_neg hlast]
    have hbefore := daysBeforeYear_cycles a b c d (by omega) hc24 (by omega)
    have hsucc := @daysBeforeYear_succ (a * 400 + b * 100 + c * 4 + d + 1) (by omega)
    have hdays : 365 ≤ yearDays (a * 400 + b * 100 + c * 4 + d + 1) := by
      unfold yearDays
      split <;> omega
    omega

def monthFrom (year dayOfYear : Nat) : Nat → Nat → Nat
  | 0, month => month
  | more + 1, month =>
    if dayOfYear ≤ daysBeforeMonth year (month + 1) then month
    else monthFrom year dayOfYear more (month + 1)

theorem monthFrom_spec {year dayOfYear more month : Nat} (hmonth : 1 ≤ month)
    (hlow : daysBeforeMonth year month < dayOfYear)
    (hhigh : dayOfYear ≤ daysBeforeMonth year (month + more + 1)) :
    month ≤ monthFrom year dayOfYear more month ∧
      monthFrom year dayOfYear more month ≤ month + more ∧
      daysBeforeMonth year (monthFrom year dayOfYear more month) < dayOfYear ∧
      dayOfYear ≤ daysBeforeMonth year (monthFrom year dayOfYear more month + 1) := by
  induction more generalizing month with
  | zero => exact ⟨le_rfl, le_rfl, hlow, hhigh⟩
  | succ more ih =>
    unfold monthFrom
    by_cases h : dayOfYear ≤ daysBeforeMonth year (month + 1)
    · rw [if_pos h]
      exact ⟨le_rfl, Nat.le_add_right _ _, hlow, h⟩
    · rw [if_neg h]
      have hhigh' : dayOfYear ≤ daysBeforeMonth year (month + 1 + more + 1) := by
        rw [show month + 1 + more + 1 = month + (more + 1) + 1 by omega]
        exact hhigh
      obtain ⟨hge, hle, hbefore, hafter⟩ :=
        ih (Nat.le_add_left 1 month) (Nat.lt_of_not_le h) hhigh'
      exact ⟨by omega, by omega, hbefore, hafter⟩

def monthOf (year dayOfYear : Nat) : Nat := monthFrom year dayOfYear 11 1

/-- `date.fromordinal()`. -/
def ofOrdinal (ordinal : Nat) (h : 1 ≤ ordinal) : Date :=
  have hyear := yearOf_spec h
  have hmonth := @monthFrom_spec (yearOf ordinal) (ordinal - daysBeforeYear (yearOf ordinal)) 11 1
    le_rfl (Nat.sub_pos_of_lt hyear.2.1) (by
      have hsucc := daysBeforeYear_succ hyear.1
      have hdays := daysBeforeMonth_year (yearOf ordinal)
      have hlast := hyear.2.2
      change _ ≤ daysBeforeMonth (yearOf ordinal) 13
      omega)
  { year := yearOf ordinal
    month := monthOf (yearOf ordinal) (ordinal - daysBeforeYear (yearOf ordinal))
    day := ordinal - daysBeforeYear (yearOf ordinal) -
      daysBeforeMonth (yearOf ordinal)
        (monthOf (yearOf ordinal) (ordinal - daysBeforeYear (yearOf ordinal)))
    year_pos := hyear.1
    month_pos := hmonth.1
    month_le := hmonth.2.1
    day_pos := Nat.sub_pos_of_lt hmonth.2.2.1
    day_le := by
      have hsucc := daysBeforeMonth_succ (yearOf ordinal) hmonth.1
      have hlast := hmonth.2.2.2
      unfold monthOf
      omega }

theorem ordinal_ofOrdinal (h : 1 ≤ ordinal) : (ofOrdinal ordinal h).ordinal = ordinal := by
  have hday := (ofOrdinal ordinal h).day_pos
  have hyear := (yearOf_spec h).2.1
  unfold Date.ordinal Date.dayOfYear
  unfold ofOrdinal at hday ⊢
  dsimp only at hday ⊢
  omega

theorem Date.ordinal_le (d : Date) : d.ordinal ≤ daysBeforeYear (d.year + 1) := by
  have hsucc := daysBeforeYear_succ d.year_pos
  have hday := d.dayOfYear_le
  unfold Date.ordinal
  omega

theorem Date.ordinal_lt_of_year_lt (h : d.year < e.year) : d.ordinal < e.ordinal := by
  have hd := d.ordinal_le
  have hmono := daysBeforeYear_mono (Nat.le_add_left 1 d.year) h
  have he := e.dayOfYear_pos
  unfold Date.ordinal at hd ⊢
  omega

theorem Date.ordinal_lt_of_month_lt (hy : d.year = e.year) (h : d.month < e.month) :
    d.ordinal < e.ordinal := by
  have hsucc := daysBeforeMonth_succ d.year d.month_pos
  have hmono : daysBeforeMonth d.year (d.month + 1) ≤ daysBeforeMonth d.year e.month :=
    daysBeforeMonth_mono (Nat.le_add_left 1 d.month) h
  have hd := d.day_le
  have he := e.day_pos
  unfold Date.ordinal Date.dayOfYear
  rw [hy] at *
  omega

theorem Date.ordinal_lt_of_day_lt (hy : d.year = e.year) (hm : d.month = e.month)
    (h : d.day < e.day) : d.ordinal < e.ordinal := by
  unfold Date.ordinal Date.dayOfYear
  rw [hy, hm]
  omega

/-- **The order of the dates**: by year, month and day. -/
theorem Date.ordinal_lt_iff : d.ordinal < e.ordinal ↔ d.year < e.year ∨ d.year = e.year ∧
      (d.month < e.month ∨ d.month = e.month ∧ d.day < e.day) := by
  constructor
  · intro h
    rcases Nat.lt_trichotomy d.year e.year with hy | hy | hy
    · exact .inl hy
    · rcases Nat.lt_trichotomy d.month e.month with hm | hm | hm
      · exact .inr ⟨hy, .inl hm⟩
      · rcases Nat.lt_trichotomy d.day e.day with hd | hd | hd
        · exact .inr ⟨hy, .inr ⟨hm, hd⟩⟩
        · rw [Date.ext' hy hm hd] at h
          exact absurd h (Nat.lt_irrefl _)
        · exact absurd (Date.ordinal_lt_of_day_lt hy.symm hm.symm hd) (Nat.lt_asymm h)
      · exact absurd (Date.ordinal_lt_of_month_lt hy.symm hm) (Nat.lt_asymm h)
    · exact absurd (Date.ordinal_lt_of_year_lt hy) (Nat.lt_asymm h)
  · rintro (hy | ⟨hy, hm | ⟨hm, hd⟩⟩)
    · exact Date.ordinal_lt_of_year_lt hy
    · exact Date.ordinal_lt_of_month_lt hy hm
    · exact Date.ordinal_lt_of_day_lt hy hm hd

theorem Date.ordinal_inj (h : d.ordinal = e.ordinal) : d = e := by
  have hde : ¬ d.ordinal < e.ordinal := by omega
  have hed : ¬ e.ordinal < d.ordinal := by omega
  rw [Date.ordinal_lt_iff] at hde hed
  apply Date.ext' <;> omega

/-! ### Dividing the days -/

/-- Periods of whole days: the first day of each, from the period `base` on, and the period of each
day. -/
structure Periods where
  first : Nat → Nat
  index : Nat → Nat
  base : Nat
  base_le : ∀ d, base ≤ index d
  first_le : ∀ d, first (index d) ≤ d
  lt_next : ∀ d, d < first (index d + 1)
  first_lt : ∀ i, base ≤ i → first i < first (i + 1)

namespace Periods

variable (P : Periods) {i : Nat}

theorem add_le_first (hi : P.base ≤ i) (k : Nat) : P.first i + k ≤ P.first (i + k) := by
  induction k with
  | zero => exact le_rfl
  | succ k ih =>
    have := P.first_lt (i + k) (by omega)
    rw [show i + (k + 1) = i + k + 1 by omega]
    omega

theorem first_strictMono {j : Nat} (hi : P.base ≤ i) (h : i < j) : P.first i < P.first j := by
  have := P.add_le_first hi (j - i)
  rw [show i + (j - i) = j by omega] at this
  omega

theorem first_mono {j : Nat} (hi : P.base ≤ i) (h : i ≤ j) : P.first i ≤ P.first j := by
  rcases Nat.lt_or_eq_of_le h with hlt | rfl
  · exact (P.first_strictMono hi hlt).le
  · exact le_rfl

theorem first_le_iff {d : Nat} (hi : P.base ≤ i) : P.first i ≤ d ↔ i ≤ P.index d := by
  constructor
  · intro h
    by_contra hlt
    have hnext := P.first_mono (by have := P.base_le d; omega : P.base ≤ P.index d + 1)
      (by omega : P.index d + 1 ≤ i)
    have := P.lt_next d
    omega
  · intro h
    exact (P.first_mono hi h).trans (P.first_le d)

@[simp] theorem index_first (hi : P.base ≤ i) : P.index (P.first i) = i := by
  have hle : i ≤ P.index (P.first i) := (P.first_le_iff hi).mp le_rfl
  have hge : ¬ i + 1 ≤ P.index (P.first i) := by
    intro h
    have := (P.first_le_iff (by omega : P.base ≤ i + 1)).mpr h
    have := P.first_lt i hi
    omega
  omega

theorem index_eq {d : Nat} (hi : P.base ≤ i) (hlow : P.first i ≤ d) (hhigh : d < P.first (i + 1)) :
    P.index d = i := by
  have hle : i ≤ P.index d := (P.first_le_iff hi).mp hlow
  have hge : ¬ i + 1 ≤ P.index d := fun h => by
    have := (P.first_le_iff (by omega : P.base ≤ i + 1)).mpr h
    omega
  omega

/-- Groups of `n` periods. -/
def group (n : Nat) (hn : 0 < n) (hbase : P.base % n = 0) : Periods where
  first i := P.first (n * i)
  index d := P.index d / n
  base := P.base / n
  base_le d := Nat.div_le_div_right (P.base_le d)
  first_le d := by
    have hle : P.base ≤ n * (P.index d / n) := by
      have := Nat.div_le_div_right (c := n) (P.base_le d)
      calc P.base = n * (P.base / n) := by rw [Nat.mul_div_cancel' (Nat.dvd_of_mod_eq_zero hbase)]
        _ ≤ n * (P.index d / n) := Nat.mul_le_mul_left n this
    exact (P.first_le_iff hle).mpr (Nat.mul_div_le _ _)
  lt_next d := by
    have hmul : P.index d + 1 ≤ n * (P.index d / n + 1) := by
      have := Nat.lt_mul_div_succ (P.index d) hn
      omega
    have := P.first_mono (by have := P.base_le d; omega : P.base ≤ P.index d + 1) hmul
    exact (P.lt_next d).trans_le this
  first_lt i hi := by
    have hle : P.base ≤ n * i := by
      calc P.base = n * (P.base / n) := by rw [Nat.mul_div_cancel' (Nat.dvd_of_mod_eq_zero hbase)]
        _ ≤ n * i := Nat.mul_le_mul_left n hi
    exact P.first_strictMono hle (by rw [Nat.mul_succ]; omega)

end Periods

/-! ### Days, weeks and months -/

def days : Periods where
  first i := i
  index d := d
  base := 0
  base_le := Nat.zero_le
  first_le _ := le_rfl
  lt_next d := Nat.lt_succ_self d
  first_lt i _ := Nat.lt_succ_self i

def weeks : Periods := days.group 7 (by decide) rfl

def monthStart (m : Nat) : Nat := daysBeforeYear (m / 12) + daysBeforeMonth (m / 12) (m % 12 + 1)

def dateOfDay (d : Nat) : Date := ofOrdinal (d + 1) (Nat.le_add_left 1 d)

def monthIndex (d : Nat) : Nat := (dateOfDay d).year * 12 + ((dateOfDay d).month - 1)

theorem dateOfDay_day (d : Nat) :
    daysBeforeYear (dateOfDay d).year + daysBeforeMonth (dateOfDay d).year (dateOfDay d).month +
      ((dateOfDay d).day - 1) = d := by
  have hordinal : (dateOfDay d).ordinal = d + 1 := ordinal_ofOrdinal _
  have hday := (dateOfDay d).day_pos
  unfold Date.ordinal Date.dayOfYear at hordinal
  omega

theorem monthIndex_div (d : Nat) : monthIndex d / 12 = (dateOfDay d).year := by
  have := (dateOfDay d).month_pos
  have := (dateOfDay d).month_le
  unfold monthIndex
  omega

theorem monthIndex_mod (d : Nat) : monthIndex d % 12 + 1 = (dateOfDay d).month := by
  have := (dateOfDay d).month_pos
  have := (dateOfDay d).month_le
  unfold monthIndex
  omega

theorem monthStart_monthIndex (d : Nat) :
    monthStart (monthIndex d) + ((dateOfDay d).day - 1) = d := by
  rw [monthStart, monthIndex_div, monthIndex_mod]
  exact dateOfDay_day d

theorem monthStart_succ {m : Nat} (h : 12 ≤ m) :
    monthStart (m + 1) = monthStart m + monthDays (m / 12) (m % 12 + 1) := by
  have hsucc := daysBeforeMonth_succ (m / 12) (Nat.le_add_left 1 (m % 12))
  by_cases hlast : m % 12 = 11
  · have hyear : (m + 1) / 12 = m / 12 + 1 := by omega
    have hmonth : (m + 1) % 12 = 0 := by omega
    have hdays := @daysBeforeYear_succ (m / 12) (by omega)
    have hwhole := daysBeforeMonth_year (m / 12)
    unfold monthStart
    rw [hyear, hmonth, hlast] at *
    simp only [Nat.zero_add, daysBeforeMonth, Nat.add_zero] at *
    omega
  · have hyear : (m + 1) / 12 = m / 12 := by omega
    have hmonth : (m + 1) % 12 = m % 12 + 1 := by omega
    unfold monthStart
    rw [hyear, hmonth, hsucc]
    omega

def months : Periods where
  first := monthStart
  index := monthIndex
  base := 12
  base_le d := by
    have := (dateOfDay d).year_pos
    unfold monthIndex
    omega
  first_le d := by
    have := monthStart_monthIndex d
    omega
  lt_next d := by
    have hbase : 12 ≤ monthIndex d := by
      have := (dateOfDay d).year_pos
      unfold monthIndex
      omega
    have hday := monthStart_monthIndex d
    have hle := (dateOfDay d).day_le
    rw [monthStart_succ hbase, monthIndex_div, monthIndex_mod]
    have := (dateOfDay d).day_pos
    omega
  first_lt m hm := by
    have := monthDays_pos (m / 12) (m % 12 + 1)
    rw [monthStart_succ hm]
    omega

def quarters : Periods := months.group 3 (by decide) rfl

def years : Periods := months.group 12 (by decide) rfl

end AgenticKibana.Library.Calendar
