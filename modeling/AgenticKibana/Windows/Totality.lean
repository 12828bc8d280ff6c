import AgenticKibana.Windows.Failures

/-!
# Windows that are not empty

A specification resolves to a window with its start before its end, or is refused with a
`ValueError`, but for a few: the present period at the very instant at which it begins, a day that
the clock skips, and what fails outside the reach of the resolution's own handler.
-/

namespace AgenticKibana.Windows

open AgenticKibana.Library
open AgenticKibana.Library.Calendar
open AgenticKibana.Library.TextLines (strip)
open AgenticKibana.Library.Zones

/-! ### Empty spans -/

def Span.Empty (span : Span) : Prop := ∃ start, span.start = some start ∧ span.stop ≤ start

def Hollow (x : Except Failure Span) : Prop := ∃ span, x = .ok span ∧ span.Empty

def EmptyDays (z : Zone) (first next : Nat) : Prop :=
  ∃ start stop, localMidnight z first = some start ∧ localMidnight z next = some stop ∧ stop ≤ start

/-- A calendar token is empty at the instant at which the present period begins, or if the day
before has been skipped. -/
def EmptyToken (z : Zone) (now : Int) (token : CalendarToken) : Prop :=
  ∃ d first, localDay z now = some d ∧ periodFirst token.unit d = some first ∧
    ((token.present = true ∧ ∃ start, localMidnight z first = some start ∧ now ≤ start) ∨
      (token = .yesterday ∧ ∃ before, before + 1 = first ∧ EmptyDays z before first))

def EmptyLiteral (z : Zone) : Literal → Prop
  | .date year month day =>
    ∃ d, dayOfDate year month day = some d ∧ 1970 ≤ year ∧ year ≤ 9998 ∧ DayInRange (d + 1) ∧
      EmptyDays z d (d + 1)
  | _ => False

section Spans

variable {z : Zone} {now : Int}

theorem not_hollow_error (failure : Failure) : ¬ Hollow (.error failure) := by
  rintro ⟨span, h, _⟩
  exact nomatch h

variable {α : Type}

theorem orFail_eq_ok {failure : Failure} {o : Option α} {a : α} :
    orFail failure o = .ok a ↔ o = some a := by
  cases o <;> simp [orFail]

variable {x : Except Failure α}

theorem bind_eq_ok {β : Type} {f : α → Except Failure β} {b : β} :
    x >>= f = .ok b ↔ ∃ a, x = .ok a ∧ f a = .ok b := by
  cases x with
  | error failure | ok a => simp [bind, Except.bind]

theorem map_eq_ok {β : Type} {f : α → β} {b : β} : x.map f = .ok b ↔ ∃ a, x = .ok a ∧ f a = b := by
  cases x with
  | error failure | ok a => simp [Except.map]

theorem not_hollow_relativeSpan {amount : Nat} (hpos : 0 < amount) (unit : SpanUnit) :
    ¬ Hollow (relativeSpan z now amount unit) := by
  rintro ⟨span, h, start, hstart, hle⟩
  obtain ⟨s, hs, rfl⟩ := map_eq_ok.mp h
  cases hstart
  have := relativeStart_lt hpos (orFail_eq_ok.mp hs)
  exact absurd hle (not_le.mpr this)

variable {d : Nat}

theorem midnightOf_eq_ok {m : Int} :
    midnightOf z d = .ok m ↔ localMidnight z d = some m := orFail_eq_ok

theorem not_emptyDays {e : Nat} (h : d + 2 ≤ e) : ¬ EmptyDays z d e := by
  rintro ⟨start, stop, hstart, hstop, hle⟩
  obtain ⟨_, rfl⟩ := localMidnight_eq_some.mp hstart
  obtain ⟨_, rfl⟩ := localMidnight_eq_some.mp hstop
  have := z.midnight_lt (by exact_mod_cast h : (d : Int) + 2 ≤ e)
  omega

variable {first next : Nat}

theorem hollow_periodSpan {label token : String} :
    Hollow (periodSpan z first next label token) ↔ EmptyDays z first next := by
  constructor
  · rintro ⟨span, h, start, hstart, hle⟩
    obtain ⟨from', hfrom, h⟩ := bind_eq_ok.mp h
    obtain ⟨stop, hstop, h⟩ := bind_eq_ok.mp h
    cases h
    cases hstart
    exact ⟨_, _, midnightOf_eq_ok.mp hfrom, midnightOf_eq_ok.mp hstop, hle⟩
  · rintro ⟨start, stop, hstart, hstop, hle⟩
    exact ⟨_, bind_eq_ok.mpr ⟨start, midnightOf_eq_ok.mpr hstart,
      bind_eq_ok.mpr ⟨stop, midnightOf_eq_ok.mpr hstop, rfl⟩⟩, start, rfl, hle⟩

variable {before : Nat}

theorem firstOfMonth_before {k : Nat} (hk : 1 ≤ k)
    (h : firstOfMonth (addMonths (dateOfDay d).year (dateOfDay d).month (-(k : Int))).1
      (addMonths (dateOfDay d).year (dateOfDay d).month (-(k : Int))).2 = some before) :
    before + 28 ≤ d := by
  rw [addMonths_date, firstOfMonth_index] at h
  split at h
  swap
  · exact nomatch h
  next hrange =>
  have hnat : ((monthIndex d : Int) + -(k : Int)).toNat = monthIndex d - k := by omega
  rw [hnat] at h
  have hlong := monthStart_succ (m := monthIndex d - k) (by omega)
  have hdays := monthDays_pos ((monthIndex d - k) / 12) ((monthIndex d - k) % 12 + 1)
  have hmono : monthStart (monthIndex d - k + 1) ≤ monthStart (monthIndex d) :=
    months.first_mono (show 12 ≤ _ by omega) (by omega)
  have hfirst : monthStart (monthIndex d) ≤ d := months.first_le d
  have hbefore := Option.some.inj h
  omega

theorem previousFirst_spec {unit : BucketUnit} (h : previousFirst unit first = .ok before) :
    (unit = .day ∧ before + 1 = first) ∨ before + 2 ≤ first := by
  cases unit with
  | hour => exact nomatch h
  | day =>
    have hshift := orFail_eq_ok.mp h
    change (if 0 ≤ (first : Int) + -1 then checkedDay ((first : Int) + -1).toNat else none) =
      some before at hshift
    split at hshift
    · have := (checkedDay_eq_some.mp hshift).2
      exact .inl ⟨rfl, by omega⟩
    · exact nomatch hshift
  | week =>
    have hshift := orFail_eq_ok.mp h
    change (if 0 ≤ (first : Int) + 7 * -1 then checkedDay ((first : Int) + 7 * -1).toNat
      else none) = some before at hshift
    split at hshift
    · have := (checkedDay_eq_some.mp hshift).2
      exact .inr (by omega)
    · exact nomatch hshift
  | month =>
    have := firstOfMonth_before (k := 1) le_rfl (orFail_eq_ok.mp h)
    exact .inr (by omega)
  | quarter =>
    have := firstOfMonth_before (k := 3) (by decide) (orFail_eq_ok.mp h)
    exact .inr (by omega)
  | year =>
    have := firstOfMonth_before (k := 12) (by decide) (orFail_eq_ok.mp h)
    exact .inr (by omega)

theorem hollow_calendarSpan {token : CalendarToken} :
    Hollow (calendarSpan z now token) ↔ EmptyToken z now token := by
  constructor
  · rintro ⟨span, h, start, hstart, hle⟩
    obtain ⟨d, hd, h⟩ := bind_eq_ok.mp h
    obtain ⟨first, hfirst, h⟩ := bind_eq_ok.mp h
    refine ⟨d, first, orFail_eq_ok.mp hd, orFail_eq_ok.mp hfirst, ?_⟩
    split at h
    · next hpresent =>
        obtain ⟨s, hs, h⟩ := bind_eq_ok.mp h
        cases h
        cases hstart
        exact .inl ⟨hpresent, start, midnightOf_eq_ok.mp hs, hle⟩
    · next hpast =>
        obtain ⟨before, hbefore, h⟩ := bind_eq_ok.mp h
        obtain ⟨s, hs, h⟩ := bind_eq_ok.mp h
        obtain ⟨stop, hstop, h⟩ := bind_eq_ok.mp h
        cases h
        cases hstart
        have hempty : EmptyDays z before first :=
          ⟨start, stop, midnightOf_eq_ok.mp hs, midnightOf_eq_ok.mp hstop, hle⟩
        rcases previousFirst_spec hbefore with ⟨hday, hnext⟩ | hfar
        · refine .inr ⟨?_, before, hnext, hempty⟩
          cases token with
          | yesterday => rfl
          | today => exact absurd rfl hpast
          | thisWeek | lastWeek | thisMonth | lastMonth | thisQuarter | lastQuarter | ytd |
              thisYear | lastYear => exact nomatch hday
        · exact absurd hempty (not_emptyDays hfar)
  · rintro ⟨d, first, hd, hfirst, hcase⟩
    rcases hcase with ⟨hpresent, s, hs, hle⟩ | ⟨rfl, before, rfl, s, stop, hs, hstop, hle⟩
    · have hspan : calendarSpan z now token = .ok {
          start := some s, stop := now, label := calendarLabel token first,
          token := .text token.name, kind := .calendar, zoneDependent := true,
          dateAligned := true } := by
        refine bind_eq_ok.mpr ⟨d, orFail_eq_ok.mpr hd, bind_eq_ok.mpr ⟨first,
          orFail_eq_ok.mpr hfirst, ?_⟩⟩
        rw [if_pos hpresent]
        exact bind_eq_ok.mpr ⟨s, midnightOf_eq_ok.mpr hs, rfl⟩
      exact ⟨_, hspan, s, rfl, hle⟩
    · cases hfirst
      have hbefore : previousFirst .day (before + 1) = .ok before := by
        have hday := (localDay_eq_some.mp hd).1
        have hchecked := checkedDay_of (dayInRange_of_le (Nat.le_succ before) hday)
        refine orFail_eq_ok.mpr ?_
        change (if 0 ≤ ((before + 1 : Nat) : Int) + -1 then
          checkedDay (((before + 1 : Nat) : Int) + -1).toNat else none) = some before
        rw [if_pos (by omega), show (((before + 1 : Nat) : Int) + -1).toNat = before by omega]
        exact hchecked
      have hspan : calendarSpan z now .yesterday = .ok {
          start := some s, stop, label := calendarLabel .yesterday before,
          token := .text "yesterday", kind := .calendar, zoneDependent := true,
          dateAligned := true } := by
        refine bind_eq_ok.mpr ⟨_, orFail_eq_ok.mpr hd, bind_eq_ok.mpr ⟨_,
          orFail_eq_ok.mpr (rfl : periodFirst .day (before + 1) = some (before + 1)), ?_⟩⟩
        exact bind_eq_ok.mpr ⟨before, hbefore, bind_eq_ok.mpr ⟨s, midnightOf_eq_ok.mpr hs,
          bind_eq_ok.mpr ⟨stop, midnightOf_eq_ok.mpr hstop, rfl⟩⟩⟩
      exact ⟨_, hspan, s, rfl, hle⟩

variable {month : Nat}

theorem firstOfMonth_eq_some {year : Int} (h : firstOfMonth year month = some first) :
    1 ≤ year ∧ first = daysBeforeYear year.toNat + daysBeforeMonth year.toNat month := by
  unfold firstOfMonth at h
  split at h
  · next hyear => exact ⟨hyear.1, (Option.some.inj h).symm⟩
  · exact nomatch h

theorem firstOfMonth_lt {year k : Nat} (hmonth : 1 ≤ month ∧ month ≤ 12) (hk : 1 ≤ k)
    (hfirst : firstOfMonth year month = some first)
    (hnext : firstOfMonth (addMonths year month k).1 (addMonths year month k).2 = some next) :
    first + 2 ≤ next := by
  have hyear := (firstOfMonth_eq_some hfirst).1
  have hindex : firstOfMonth year month = some (monthStart (year * 12 + (month - 1))) := by
    have hat := firstOfMonth_index ((year * 12 + (month - 1) : Nat) : Int)
    have hdiv : ((year * 12 + (month - 1) : Nat) : Int) / 12 = year := by omega
    have hmod : (((year * 12 + (month - 1) : Nat) : Int) % 12).toNat + 1 = month := by omega
    rw [hdiv, hmod, Int.toNat_natCast] at hat
    rw [hfirst] at hat ⊢
    split at hat
    · exact hat
    · exact nomatch hat
  have hadd : addMonths year month k =
      (((year * 12 + (month - 1) + k : Nat) : Int) / 12,
        (((year * 12 + (month - 1) + k : Nat) : Int) % 12).toNat + 1) := by
    unfold addMonths
    have hsum : (year : Int) * 12 + ((month : Int) - 1) + k =
        ((year * 12 + (month - 1) + k : Nat) : Int) := by omega
    rw [hsum]
  rw [hadd, firstOfMonth_index] at hnext
  split at hnext
  swap
  · exact nomatch hnext
  rw [hindex] at hfirst
  have hlong := monthStart_succ (m := year * 12 + (month - 1)) (by omega)
  have hdays := monthDays_pos ((year * 12 + (month - 1)) / 12) ((year * 12 + (month - 1)) % 12 + 1)
  have hmono : monthStart (year * 12 + (month - 1) + 1) ≤
      monthStart (year * 12 + (month - 1) + k) :=
    months.first_mono (show 12 ≤ _ by omega) (by omega)
  have heq := Option.some.inj hfirst
  have heq' := Option.some.inj hnext
  rw [Int.toNat_natCast] at heq'
  omega

theorem addMonths_year (year : Nat) : addMonths year 1 (12 : Nat) = ((year : Int) + 1, 1) := by
  apply Prod.ext
  · change ((year : Int) * 12 + ((1 : Nat) - 1 : Int) + (12 : Nat)) / 12 = (year : Int) + 1
    omega
  · change (((year : Int) * 12 + ((1 : Nat) - 1 : Int) + (12 : Nat)) % 12).toNat + 1 = 1
    omega

theorem not_hollow_periodSpan {label token : String} (h : first + 2 ≤ next) :
    ¬ Hollow (periodSpan z first next label token) :=
  fun hollow => not_emptyDays h (hollow_periodSpan.mp hollow)

theorem hollow_bind {f : α → Except Failure Span} :
    Hollow (x >>= f) ↔ ∃ a, x = .ok a ∧ Hollow (f a) := by
  cases x with
  | error failure =>
    constructor
    · exact fun h => absurd h (not_hollow_error failure)
    · rintro ⟨a, ha, _⟩
      exact nomatch ha
  | ok a =>
    constructor
    · exact fun h => ⟨a, rfl, h⟩
    · rintro ⟨b, hb, h⟩
      cases hb
      exact h

theorem hollow_literalSpan {literal : Literal} :
    Hollow (literalSpan z literal) ↔ EmptyLiteral z literal := by
  cases literal with
  | year year =>
    refine iff_of_false (fun h => ?_) id
    obtain ⟨_, _, h⟩ := hollow_bind.mp h
    obtain ⟨first, hfirst, h⟩ := hollow_bind.mp h
    obtain ⟨next, hnext, h⟩ := hollow_bind.mp h
    have hnext := orFail_eq_ok.mp hnext
    refine not_hollow_periodSpan (firstOfMonth_lt (k := 12) (by decide) (by decide)
      (orFail_eq_ok.mp hfirst) ?_) h
    rw [addMonths_year]
    exact hnext
  | month year month =>
    refine iff_of_false (fun h => ?_) id
    obtain ⟨_, _, h⟩ := hollow_bind.mp h
    dsimp only at h
    split at h
    · exact absurd h (not_hollow_error _)
    · next hmonth =>
        obtain ⟨first, hfirst, h⟩ := hollow_bind.mp h
        obtain ⟨next, hnext, h⟩ := hollow_bind.mp h
        exact not_hollow_periodSpan (firstOfMonth_lt (k := 1) (not_not.mp hmonth) le_rfl
          (orFail_eq_ok.mp hfirst) (orFail_eq_ok.mp hnext)) h
  | quarter year quarter =>
    refine iff_of_false (fun h => ?_) id
    obtain ⟨_, _, h⟩ := hollow_bind.mp h
    obtain ⟨first, hfirst, h⟩ := hollow_bind.mp h
    obtain ⟨next, hnext, h⟩ := hollow_bind.mp h
    exact not_hollow_periodSpan (firstOfMonth_lt (k := 3) (by omega) (by decide)
      (orFail_eq_ok.mp hfirst) (orFail_eq_ok.mp hnext)) h
  | week year week =>
    refine iff_of_false (fun h => ?_) id
    obtain ⟨_, _, h⟩ := hollow_bind.mp h
    obtain ⟨monday, _, h⟩ := hollow_bind.mp h
    obtain ⟨next, hnext, h⟩ := hollow_bind.mp h
    have hnext := (checkedDay_eq_some.mp (orFail_eq_ok.mp hnext)).2
    exact not_hollow_periodSpan (by omega) h
  | date year month day =>
    constructor
    · intro h
      obtain ⟨d, hd, h⟩ := hollow_bind.mp h
      obtain ⟨_, hyear, h⟩ := hollow_bind.mp h
      obtain ⟨next, hnext, h⟩ := hollow_bind.mp h
      obtain ⟨hrange, rfl⟩ := checkedDay_eq_some.mp (orFail_eq_ok.mp hnext)
      unfold checkYear at hyear
      split at hyear
      · next hin =>
          exact ⟨d, orFail_eq_ok.mp hd, hin.1, hin.2, hrange, hollow_periodSpan.mp h⟩
      · exact nomatch hyear
    · rintro ⟨d, hd, hlow, hhigh, hrange, hempty⟩
      refine hollow_bind.mpr ⟨d, orFail_eq_ok.mpr hd, hollow_bind.mpr ⟨(), ?_,
        hollow_bind.mpr ⟨d + 1, ?_, hollow_periodSpan.mpr hempty⟩⟩⟩
      · unfold checkYear
        rw [if_pos ⟨hlow, hhigh⟩]
      · exact orFail_eq_ok.mpr (checkedDay_of hrange)

end Spans

/-! ### Empty windows -/

section Windows

variable (rt : Runtime) (z : Zone) (now : Int)

def EmptyText (text : Text) : Prop :=
  let raw := strip text
  isAll (rt.lower raw) = false ∧ partition "..".toList raw = none ∧
    partition "/".toList raw = none ∧ parseRelative rt raw = none ∧
    match calendarToken rt raw with
    | some token => EmptyToken z now token
    | none =>
      match parseLiteral rt (strip raw) with
      | some literal => EmptyLiteral z literal
      | none => False

def EmptySpec : Nat → Value → Prop
  | _, .text t => EmptyText rt z now t
  | room, .dict entries =>
    match dictForm (lowered rt entries) with
    | .window v =>
      match room with
      | 0 => False
      | room + 1 => EmptySpec room v
    | _ => False
  | _, _ => False

theorem not_hollow_composeBounds (room : Nat) (lo hi : Value) :
    ¬ Hollow (composeBounds rt z now room lo hi) := by
  intro h
  obtain ⟨from', _, h⟩ := hollow_bind.mp h
  obtain ⟨upto, _, h⟩ := hollow_bind.mp h
  dsimp only at h
  split at h
  · exact not_hollow_error _ h
  · next hchecked =>
      obtain ⟨label, _, h⟩ := hollow_bind.mp h
      obtain ⟨span, hspan, start, hstart, hle⟩ := h
      cases hspan
      apply hchecked
      dsimp only at hstart
      rw [hstart]
      exact decide_eq_true hle

theorem not_hollow_composeRange (room : Nat) (lo hi : Value) :
    ¬ Hollow (composeRange rt z now room lo hi) := by
  intro h
  obtain ⟨blank, _, h⟩ := hollow_bind.mp h
  split at h
  · split at h
    · next hpositive => exact not_hollow_relativeSpan hpositive.2 _ h
    · exact not_hollow_composeBounds rt z now room lo hi h
  · exact not_hollow_composeBounds rt z now room lo hi h

theorem not_hollow_allSpan : ¬ Hollow (.ok (allSpan now)) := by
  rintro ⟨span, h, start, hstart, _⟩
  cases h
  exact nomatch hstart

theorem not_hollow_hoursSpan (hours : Int) : ¬ Hollow (hoursSpan z now hours) := by
  unfold hoursSpan
  split
  · exact not_hollow_allSpan now
  split
  · exact not_hollow_error _
  split
  · exact not_hollow_relativeSpan (by omega) _
  · exact not_hollow_relativeSpan (by omega) _

theorem not_hollow_doubleSpan (f : Double) : ¬ Hollow (doubleSpan z now f) := by
  cases f with
  | nan | infinite negative => exact not_hollow_error _
  | finite q =>
    change ¬ Hollow (if q.den = 1 then _ else _)
    split
    · exact not_hollow_hoursSpan z now _
    split
    · exact not_hollow_error _
    dsimp only
    split
    · exact not_hollow_error _
    · exact not_hollow_relativeSpan (by omega) _

theorem hollow_ok {span : Span} : Hollow (.ok span) ↔ span.Empty := by
  constructor
  · rintro ⟨other, h, hempty⟩
    cases h
    exact hempty
  · exact fun h => ⟨span, rfl, h⟩

theorem single_empty {raw : Text} (hrelative : parseRelative rt raw = none) :
    (∃ span, singleSpan rt z now raw = .ok (some span) ∧ span.Empty) ↔
      match calendarToken rt raw with
      | some token => EmptyToken z now token
      | none =>
        match parseLiteral rt (strip raw) with
        | some literal => EmptyLiteral z literal
        | none => False := by
  have hmap : ∀ x : Except Failure Span,
      (∃ span, x.map some = .ok (some span) ∧ span.Empty) ↔ Hollow x := by
    intro x
    cases x with
    | error failure => simp [Hollow, Except.map]
    | ok span => simp [hollow_ok, Except.map]
  unfold singleSpan
  rw [hrelative]
  dsimp only
  cases htoken : calendarToken rt raw with
  | some token => exact (hmap _).trans hollow_calendarSpan
  | none =>
    unfold periodLiteral
    cases hliteral : parseLiteral rt (strip raw) with
    | some literal => exact (hmap _).trans hollow_literalSpan
    | none => simp

variable {room : Nat}

theorem hollow_textSpan {text : Text} :
    Hollow (textSpan rt z now room text) ↔ EmptyText rt z now text := by
  unfold textSpan EmptyText
  dsimp only
  by_cases hall : isAll (rt.lower (strip text)) = true
  · rw [if_pos hall]
    simp only [hall, Bool.true_eq_false, false_and, iff_false]
    exact not_hollow_allSpan now
  rw [if_neg hall]
  cases hsplit : (partition "..".toList (strip text) <|> partition "/".toList (strip text)) with
  | some parts =>
    refine iff_of_false (not_hollow_composeRange rt z now room _ _) ?_
    rintro ⟨_, hdots, hslash, _⟩
    rw [hdots, hslash] at hsplit
    exact nomatch hsplit
  | none =>
    obtain ⟨hdots, hslash⟩ : partition "..".toList (strip text) = none ∧
        partition "/".toList (strip text) = none := by
      cases hdots : partition "..".toList (strip text) with
      | some parts =>
        rw [hdots] at hsplit
        exact nomatch hsplit
      | none =>
        rw [hdots] at hsplit
        exact ⟨rfl, hsplit⟩
    simp only [Bool.not_eq_true] at hall
    simp only [hall, hdots, hslash, true_and]
    constructor
    · intro h
      obtain ⟨found, hfound, h⟩ := hollow_bind.mp h
      cases found with
      | none =>
        obtain ⟨instant, _, h⟩ := hollow_bind.mp h
        cases instant with
        | none => exact absurd h (not_hollow_error _)
        | some instant => exact absurd h (not_hollow_composeRange rt z now room _ _)
      | some span =>
        have hrelative : parseRelative rt (strip text) = none := by
          cases hparse : parseRelative rt (strip text) with
          | none => rfl
          | some relative =>
            obtain ⟨amount, unit⟩ := relative
            unfold singleSpan at hfound
            rw [hparse] at hfound
            dsimp only at hfound
            split at hfound
            · exact nomatch hfound
            · next hpositive =>
                obtain ⟨other, hother, hsome⟩ := map_eq_ok.mp hfound
                cases hsome
                exact absurd ⟨span, hother, hollow_ok.mp h⟩
                  (not_hollow_relativeSpan (Nat.pos_of_ne_zero hpositive) unit)
        exact ⟨hrelative, (single_empty rt z now hrelative).mp ⟨span, hfound, hollow_ok.mp h⟩⟩
    · rintro ⟨hrelative, hempty⟩
      obtain ⟨span, hspan, hempty⟩ := (single_empty rt z now hrelative).mpr hempty
      exact hollow_bind.mpr ⟨some span, hspan, hollow_ok.mpr hempty⟩

theorem hollow_resolveSpec {v : Value} :
    Hollow (resolveSpec rt z now room v) ↔ EmptySpec rt z now room v := by
  have hdict : ∀ room entries,
      (∀ w, dictForm (lowered rt entries) = .window w →
        (Hollow (resolveSpec rt z now room (.dict entries)) ↔
          EmptySpec rt z now room (.dict entries))) →
      (Hollow (resolveSpec rt z now room (.dict entries)) ↔
        EmptySpec rt z now room (.dict entries)) := by
    intro room entries hwindow
    cases hform : dictForm (lowered rt entries) with
    | window w => exact hwindow w hform
    | unknown =>
      unfold resolveSpec EmptySpec
      rw [hform]
      exact iff_of_false (not_hollow_error _) id
    | range lo hi =>
      unfold resolveSpec EmptySpec
      rw [hform]
      exact iff_of_false (not_hollow_composeRange rt z now room lo hi) id
  induction room generalizing v with
  | zero =>
    cases v with
    | int hours => exact iff_of_false (not_hollow_hoursSpan z now hours) id
    | float f => exact iff_of_false (not_hollow_doubleSpan z now f) id
    | text t => exact hollow_textSpan rt z now
    | null | bool | moment | other => exact iff_of_false (not_hollow_error _) id
    | dict entries =>
      refine hdict 0 entries fun w hform => ?_
      unfold resolveSpec EmptySpec
      rw [hform]
      exact iff_of_false (not_hollow_error _) id
  | succ room ih =>
    cases v with
    | int hours => exact iff_of_false (not_hollow_hoursSpan z now hours) id
    | float f => exact iff_of_false (not_hollow_doubleSpan z now f) id
    | text t => exact hollow_textSpan rt z now
    | null | bool | moment | other => exact iff_of_false (not_hollow_error _) id
    | dict entries =>
      refine hdict (room + 1) entries fun w hform => ?_
      unfold resolveSpec EmptySpec
      rw [hform]
      exact ih

end Windows

/-! ### When every specification is resolved or refused -/

def Mistyped (db : ZoneDatabase) (tz : String) : Prop :=
  let name := String.ofList (strip tz.toList)
  name ≠ "" ∧ name ∉ utcNames ∧
    match matchOffset db name.toList with
    | some (_, hours, minutes) => Zones.day ≤ (60 * hours + minutes : Int) * (60 * second)
    | none => db.zoneInfo name = none

section Total

variable (rt : Runtime) (room : Nat) (spec : Value) (tz : String) (now : Moment) (default : Text)

/-- A specification is resolved to a window that is not empty, or refused with a `ValueError`; and
one that is accepted is accepted under a mistyped zone too. -/
def Total : Prop :=
  (∀ failure, resolveWindow rt room spec tz now default = .error failure → failure = .value) ∧
    (∀ w start, resolveWindow rt room spec tz now default = .ok w → w.start = some start →
      start < w.stop) ∧
    (Mistyped rt.toZoneDatabase tz → ∀ w, resolveWindow rt room spec "UTC" now default = .ok w →
      ∃ w', resolveWindow rt room spec tz now default = .ok w')

/-- What it takes: an offset below a day where the specification is accepted, a clock in range,
dictionaries that do not nest too deeply, and no period without an instant. -/
def Resolvable : Prop :=
  match zoneFor rt.toZoneDatabase tz with
  | none => ∀ w, resolveWindow rt room spec "UTC" now default ≠ .ok w
  | some (t, _) => ∃ instant chosen, awareUtc now = .ok instant ∧
      chosenSpec room spec default = .ok chosen ∧ Shallow rt room chosen ∧
      ¬ EmptySpec rt t.zone instant room chosen

end Total

section Totality

variable {rt : Runtime} {room : Nat} {spec : Value} {tz : String} {now : Moment} {default : Text}
  {α : Type} {x : Except Failure α}

theorem caught_eq_ok {a : α} : caught x = .ok a ↔ x = .ok a := by
  cases x with
  | ok b => simp [caught]
  | error failure => cases failure <;> simp [caught]

variable {failure : Failure}

theorem caught_eq_error (hx : Plain x) (h : caught x = .error failure) : failure = .value := by
  cases x with
  | ok b => exact nomatch h
  | error f =>
    cases f with
    | value | overflow =>
      cases h
      rfl
    | recursion => exact absurd rfl hx

variable {t : TimeZone} {name : String}

theorem resolveWindow_of_zone (hzone : zoneFor rt.toZoneDatabase tz = some (t, name)) :
    resolveWindow rt room spec tz now default = (do
      let instant ← awareUtc now
      let chosen ← chosenSpec room spec default
      let span ← caught (resolveSpec rt t.zone instant room chosen)
      return windowOf span name instant) := by
  unfold resolveWindow
  rw [hzone]
  rfl

theorem resolveWindow_of_none (hzone : zoneFor rt.toZoneDatabase tz = none) :
    resolveWindow rt room spec tz now default = .error .value := by
  unfold resolveWindow
  rw [hzone]
  rfl

theorem zoneFor_mistyped (h : Mistyped rt.toZoneDatabase tz) :
    zoneFor rt.toZoneDatabase tz = none ∨ zoneFor rt.toZoneDatabase tz = some (utc, "UTC") := by
  obtain ⟨hblank, hutc, hname⟩ := h
  unfold zoneFor
  dsimp only
  rw [if_neg (by simp [hblank, hutc])]
  cases hoffset : matchOffset rt.toZoneDatabase (String.ofList (strip tz.toList)).toList with
  | some offset =>
    obtain ⟨negative, hours, minutes⟩ := offset
    rw [hoffset] at hname
    dsimp only at hname ⊢
    have hpos : (0 : Int) < Zones.day := by decide
    rw [if_neg (by omega), if_neg (by omega)]
    exact .inl rfl
  | none =>
    rw [hoffset] at hname
    dsimp only at hname ⊢
    rw [hname]
    exact .inr rfl

theorem mistyped_of_none (h : zoneFor rt.toZoneDatabase tz = none) :
    Mistyped rt.toZoneDatabase tz := by
  unfold zoneFor at h
  dsimp only at h
  split at h
  · exact nomatch h
  next hname =>
  refine ⟨fun hblank => hname (.inl hblank), fun hutc => hname (.inr hutc), ?_⟩
  cases hoffset : matchOffset rt.toZoneDatabase (String.ofList (strip tz.toList)).toList with
  | some offset =>
    obtain ⟨negative, hours, minutes⟩ := offset
    rw [hoffset] at h
    dsimp only at h ⊢
    split at h
    · exact nomatch h
    split at h
    · exact nomatch h
    · next hlarge => exact not_lt.mp hlarge
  | none =>
    rw [hoffset] at h
    dsimp only at h ⊢
    split at h
    · exact nomatch h
    · exact nomatch h

theorem awareUtc_error (h : awareUtc now = .error failure) : failure = .overflow := by
  unfold awareUtc at h
  split at h
  · cases hchecked : checked (now.wall - _) with
    | none =>
      rw [hchecked] at h
      cases h
      rfl
    | some instant =>
      rw [hchecked] at h
      exact nomatch h
  · exact nomatch h

theorem chosenSpec_error (h : chosenSpec room spec default = .error failure) :
    failure = .recursion := by
  unfold chosenSpec at h
  cases hblank : isBlank room spec with
  | error f =>
    rw [hblank] at h
    cases h
    exact isBlank_error hblank
  | ok blank =>
    rw [hblank] at h
    cases blank <;> exact nomatch h

theorem resolveWindow_of_chosen {instant : Int} {chosen : Value}
    (hzone : zoneFor rt.toZoneDatabase tz = some (t, name)) (hnow : awareUtc now = .ok instant)
    (hchosen : chosenSpec room spec default = .ok chosen) :
    resolveWindow rt room spec tz now default =
      (caught (resolveSpec rt t.zone instant room chosen)).map fun span =>
        windowOf span name instant := by
  rw [resolveWindow_of_zone hzone, hnow, hchosen]
  change (caught (resolveSpec rt t.zone instant room chosen) >>= fun span => _) = _
  cases caught (resolveSpec rt t.zone instant room chosen) <;> rfl

/-- **A specification is resolved to a window that is not empty or refused with a `ValueError`, and
accepted under a mistyped zone if it is accepted at all, exactly if it is resolvable.** -/
theorem resolve_window_total_iff :
    Total rt room spec tz now default ↔ Resolvable rt room spec tz now default := by
  unfold Resolvable
  cases hzone : zoneFor rt.toZoneDatabase tz with
  | none =>
    have hrefused := @resolveWindow_of_none rt room spec tz now default hzone
    dsimp only
    constructor
    · rintro ⟨_, _, haccepted⟩ w hw
      obtain ⟨w', hw'⟩ := haccepted (mistyped_of_none hzone) w hw
      rw [hrefused] at hw'
      exact nomatch hw'
    · intro hnone
      refine ⟨?_, ?_, fun _ w hw => absurd hw (hnone w)⟩
      · intro failure h
        rw [hrefused] at h
        cases h
        rfl
      · intro w start h
        rw [hrefused] at h
        exact nomatch h
  | some zone =>
    obtain ⟨t, name⟩ := zone
    dsimp only
    constructor
    · rintro ⟨hvalue, hfilled, _⟩
      cases hnow : awareUtc now with
      | error failure =>
        have hfailed : resolveWindow rt room spec tz now default = .error failure := by
          rw [resolveWindow_of_zone hzone, hnow]
          rfl
        rw [awareUtc_error hnow] at hfailed
        exact nomatch hvalue _ hfailed
      | ok instant =>
      cases hchosen : chosenSpec room spec default with
      | error failure =>
        have hfailed : resolveWindow rt room spec tz now default = .error failure := by
          rw [resolveWindow_of_zone hzone, hnow, hchosen]
          rfl
        rw [chosenSpec_error hchosen] at hfailed
        exact nomatch hvalue _ hfailed
      | ok chosen =>
      have hwindow := resolveWindow_of_chosen hzone hnow hchosen
      refine ⟨instant, chosen, rfl, rfl, ?_, ?_⟩
      · rw [← plain_resolveSpec_iff rt t.zone instant]
        by_contra hdeep
        rw [not_plain.mp hdeep] at hwindow
        exact nomatch hvalue _ hwindow
      · intro hempty
        obtain ⟨span, hspan, start, hstart, hle⟩ := (hollow_resolveSpec rt _ _).mpr hempty
        rw [hspan] at hwindow
        have := hfilled _ start hwindow hstart
        exact absurd hle (not_le.mpr this)
    · rintro ⟨instant, chosen, hnow, hchosen, hshallow, hfilled⟩
      have hwindow := resolveWindow_of_chosen hzone hnow hchosen
      have hplain := (plain_resolveSpec_iff rt t.zone instant).mpr hshallow
      refine ⟨?_, ?_, ?_⟩
      · intro failure h
        rw [hwindow] at h
        cases hcaught : caught (resolveSpec rt t.zone instant room chosen) with
        | ok span =>
          rw [hcaught] at h
          exact nomatch h
        | error f =>
          rw [hcaught] at h
          cases h
          exact caught_eq_error hplain hcaught
      · intro w start h hstart
        rw [hwindow] at h
        obtain ⟨span, hspan, rfl⟩ := map_eq_ok.mp h
        by_contra hle
        exact hfilled ((hollow_resolveSpec rt _ _).mp
          ⟨span, caught_eq_ok.mp hspan, start, hstart, not_lt.mp hle⟩)
      · intro hmistyped w hw
        rcases zoneFor_mistyped hmistyped with hnone | hutc
        · rw [hnone] at hzone
          exact nomatch hzone
        · have hsame := resolveWindow_of_chosen (zoneFor_utc rt.toZoneDatabase) hnow hchosen
          rw [resolveWindow_of_chosen hutc hnow hchosen, ← hsame]
          exact ⟨w, hw⟩

end Totality

def plainRuntime : Runtime where
  toZoneDatabase := plainDatabase
  lower := List.map Char.toLower
  str _ := []
  fromIso _ := none

theorem zoneFor_of_offset {db : ZoneDatabase} {tz : String} {negative : Bool} {hours minutes : Nat}
    (hname : ¬ (String.ofList (strip tz.toList) = "" ∨
      String.ofList (strip tz.toList) ∈ utcNames))
    (hoffset : matchOffset db (String.ofList (strip tz.toList)).toList =
      some (negative, hours, minutes))
    (hlarge : Zones.day ≤ (60 * hours + minutes : Int) * (60 * second)) :
    zoneFor db tz = none := by
  have hpos : (0 : Int) < Zones.day := by decide
  unfold zoneFor
  dsimp only
  rw [if_neg hname, hoffset]
  dsimp only
  rw [if_neg (by omega), if_neg (by omega)]

/-- An offset of 99 hours refuses what UTC accepts: no window in hours, which is all time. -/
theorem ninety_nine_hours_refused :
    ¬ Total plainRuntime 0 (.int 0) "+99:00" ⟨739000 * Zones.day, none⟩ [] := by
  have hoffset : matchOffset plainRuntime.toZoneDatabase
      (String.ofList (strip "+99:00".toList)).toList = some (false, 99, 0) := by decide
  have hzone : zoneFor plainRuntime.toZoneDatabase "+99:00" = none :=
    zoneFor_of_offset (by decide) hoffset (by decide)
  have hwindow : resolveWindow plainRuntime 0 (.int 0) "UTC" ⟨739000 * Zones.day, none⟩ [] =
      .ok (windowOf (allSpan (739000 * Zones.day)) "UTC" (739000 * Zones.day)) := by
    have hnow : awareUtc ⟨739000 * Zones.day, none⟩ = .ok (739000 * Zones.day) := rfl
    have hchosen : chosenSpec 0 (.int 0) [] = .ok (.int 0) := rfl
    have hutc : zoneFor plainRuntime.toZoneDatabase "UTC" = some (utc, "UTC") := zoneFor_utc _
    rw [resolveWindow_of_chosen hutc hnow hchosen]
    rfl
  rintro ⟨_, _, haccepted⟩
  obtain ⟨w, hw⟩ := haccepted (mistyped_of_none hzone) _ hwindow
  rw [resolveWindow_of_none hzone] at hw
  exact nomatch hw

end AgenticKibana.Windows
