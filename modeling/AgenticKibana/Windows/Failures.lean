import AgenticKibana.Windows.Resolution

/-!
# What the resolution of a window raises

The functions of the resolution raise a `ValueError` or an overflow; only dictionaries that are
nested too deeply exhaust the stack.
-/

namespace AgenticKibana.Windows

open AgenticKibana.Library
open AgenticKibana.Library.Calendar
open AgenticKibana.Library.Zones

/-! ### Results without a stack overflow -/

/-- A result that is no `RecursionError`. -/
def Plain {α : Type} (x : Except Failure α) : Prop := x ≠ .error .recursion

section Plain

variable {α β : Type}

@[simp] theorem plain_ok (a : α) : Plain (.ok a : Except Failure α) := by simp [Plain]

@[simp] theorem plain_pure (a : α) : Plain (pure a : Except Failure α) := plain_ok a

@[simp] theorem plain_value : Plain (.error .value : Except Failure α) := by simp [Plain]

@[simp] theorem plain_overflow : Plain (.error .overflow : Except Failure α) := by simp [Plain]

theorem plain_orFail {failure : Failure} (h : failure ≠ .recursion) (o : Option α) :
    Plain (orFail failure o) := by
  cases o with
  | none => simpa [orFail, Plain] using h
  | some a => exact plain_ok a

@[simp] theorem plain_orFail_value (o : Option α) : Plain (orFail .value o) :=
  plain_orFail (by decide) o

@[simp] theorem plain_orFail_overflow (o : Option α) : Plain (orFail .overflow o) :=
  plain_orFail (by decide) o

variable {x : Except Failure α}

theorem plain_bind {f : α → Except Failure β} (hx : Plain x) (hf : ∀ a, x = .ok a → Plain (f a)) :
    Plain (x >>= f) := by
  cases x with
  | error failure =>
    intro h
    apply hx
    cases failure with
    | recursion => rfl
    | value | overflow => exact nomatch h
  | ok a => exact hf a rfl

theorem plain_map {f : α → β} (hx : Plain x) : Plain (x.map f) := by
  cases x with
  | error failure =>
    intro h
    apply hx
    cases failure with
    | recursion => rfl
    | value | overflow => exact nomatch h
  | ok a => exact plain_ok _

theorem plain_ite {c : Prop} [Decidable c] {y : Except Failure α} (hx : c → Plain x)
    (hy : ¬ c → Plain y) : Plain (if c then x else y) := by
  split
  · next h => exact hx h
  · next h => exact hy h

end Plain

section Functions

variable (rt : Runtime) (z : Zone) (now : Int)

theorem plain_relativeSpan (amount : Nat) (unit : SpanUnit) :
    Plain (relativeSpan z now amount unit) := plain_map (plain_orFail_value _)

theorem plain_midnightOf (d : Nat) : Plain (midnightOf z d) := plain_orFail_overflow _

theorem plain_previousFirst (unit : BucketUnit) (first : Nat) :
    Plain (previousFirst unit first) := by
  unfold previousFirst
  split
  · exact plain_orFail_overflow _
  · exact plain_orFail_overflow _
  · exact plain_orFail_value _

theorem plain_calendarSpan (token : CalendarToken) : Plain (calendarSpan z now token) := by
  refine plain_bind (plain_orFail_overflow _) fun d _ => ?_
  refine plain_bind (plain_orFail_value _) fun first _ => ?_
  apply plain_ite
  · intro _
    exact plain_bind (plain_midnightOf z _) fun _ _ => plain_pure _
  · intro _
    refine plain_bind (plain_previousFirst _ _) fun before _ => ?_
    refine plain_bind (plain_midnightOf z _) fun _ _ => ?_
    exact plain_bind (plain_midnightOf z _) fun _ _ => plain_pure _

theorem plain_checkYear (year : Nat) : Plain (checkYear year) :=
  plain_ite (fun _ => plain_ok _) fun _ => plain_value

theorem plain_periodSpan (first next : Nat) (label token : String) :
    Plain (periodSpan z first next label token) :=
  plain_bind (plain_midnightOf z _) fun _ _ =>
    plain_bind (plain_midnightOf z _) fun _ _ => plain_pure _

theorem plain_literalSpan (literal : Literal) : Plain (literalSpan z literal) := by
  cases literal with
  | year year =>
    refine plain_bind (plain_checkYear _) fun _ _ => ?_
    refine plain_bind (plain_orFail_value _) fun _ _ => ?_
    exact plain_bind (plain_orFail_value _) fun _ _ => plain_periodSpan z _ _ _ _
  | month year month =>
    refine plain_bind (plain_checkYear _) fun _ _ => ?_
    refine plain_ite (fun _ => plain_value) fun _ => ?_
    refine plain_bind (plain_orFail_value _) fun _ _ => ?_
    exact plain_bind (plain_orFail_value _) fun _ _ => plain_periodSpan z _ _ _ _
  | quarter year quarter =>
    refine plain_bind (plain_checkYear _) fun _ _ => ?_
    refine plain_bind (plain_orFail_value _) fun _ _ => ?_
    exact plain_bind (plain_orFail_value _) fun _ _ => plain_periodSpan z _ _ _ _
  | week year week =>
    refine plain_bind (plain_checkYear _) fun _ _ => ?_
    refine plain_bind (plain_orFail_value _) fun _ _ => ?_
    exact plain_bind (plain_orFail_overflow _) fun _ _ => plain_periodSpan z _ _ _ _
  | date year month day =>
    refine plain_bind (plain_orFail_value _) fun _ _ => ?_
    refine plain_bind (plain_checkYear _) fun _ _ => ?_
    exact plain_bind (plain_orFail_overflow _) fun _ _ => plain_periodSpan z _ _ _ _

theorem plain_periodLiteral (raw : Text) : Plain (periodLiteral rt z raw) := by
  unfold periodLiteral
  split
  · exact plain_ok _
  · exact plain_map (plain_literalSpan z _)

theorem plain_singleSpan (raw : Text) : Plain (singleSpan rt z now raw) := by
  unfold singleSpan
  split
  · exact plain_ite (fun _ => plain_value) fun _ => plain_map (plain_relativeSpan z now _ _)
  · split
    · exact plain_map (plain_calendarSpan z now _)
    · exact plain_periodLiteral rt z _

theorem plain_parseInstant (raw : Text) : Plain (parseInstant rt z raw) := by
  unfold parseInstant
  refine plain_ite (fun _ => plain_ok _) fun _ => ?_
  split
  · exact plain_ok _
  · split
    · exact plain_ok _
    · exact plain_map (plain_orFail_overflow _)

theorem plain_textBound (isFrom : Bool) (text : Text) :
    Plain (textBound rt z now isFrom text) := by
  refine plain_ite (fun _ => plain_pure _) fun _ => ?_
  split
  · exact plain_bind (plain_relativeSpan z now _ _) fun _ _ => plain_pure _
  refine plain_ite (fun _ => plain_pure _) fun _ => ?_
  split
  · exact plain_bind (plain_calendarSpan z now _) fun _ _ => plain_pure _
  refine plain_bind (plain_periodLiteral rt z _) fun found _ => ?_
  cases found with
  | some span => exact plain_pure _
  | none =>
    refine plain_bind (plain_parseInstant rt z _) fun found _ => ?_
    cases found with
    | some instant => exact plain_pure _
    | none => exact plain_value

theorem plain_isMidnight (instant : Int) : Plain (isMidnight z instant) :=
  plain_map (plain_orFail_overflow _)

theorem plain_fmtInstant (instant : Int) : Plain (fmtInstant z instant) :=
  plain_map (plain_orFail_overflow _)

theorem plain_lastDay (instant : Int) : Plain (lastDay z instant) :=
  plain_bind (plain_orFail_overflow _) fun _ _ =>
    plain_bind (plain_orFail_overflow _) fun _ _ => plain_pure _

theorem plain_aligned (value : Value) (span : Option Span) (instant : Int) :
    Plain (aligned rt z value span instant) :=
  plain_ite (fun _ => plain_ok _) fun _ => plain_isMidnight z _

theorem plain_untilLabel (stop : Int) (hiIsNow endAligned : Bool) :
    Plain (untilLabel z stop hiIsNow endAligned) := by
  refine plain_ite (fun _ => plain_ok _) fun _ => plain_ite (fun _ => ?_) fun _ => ?_
  · exact plain_map (plain_lastDay z _)
  · exact plain_map (plain_fmtInstant z _)

theorem plain_sinceLabel (start : Int) (startAligned : Bool) :
    Plain (sinceLabel z start startAligned) :=
  plain_ite (fun _ => plain_map (plain_orFail_overflow _)) fun _ => plain_map (plain_fmtInstant z _)

theorem plain_betweenLabel (start stop : Int) (wholeDays : Bool) :
    Plain (betweenLabel z start stop wholeDays) := by
  refine plain_ite (fun _ => ?_) fun _ => ?_
  · exact plain_bind (plain_orFail_overflow _) fun _ _ => plain_map (plain_lastDay z _)
  · exact plain_bind (plain_fmtInstant z _) fun _ _ => plain_map (plain_fmtInstant z _)

theorem plain_rangeLabel (start : Option Int) (stop : Int) (lo hi : Value)
    (loSpan hiSpan : Option Span) (openToNow : Bool) :
    Plain (rangeLabel rt z start stop lo hi loSpan hiSpan openToNow) := by
  refine plain_bind ?_ fun atStart _ => plain_bind ?_ fun atEnd _ => ?_
  · cases start with
    | none => exact plain_ok _
    | some start => exact plain_aligned rt z _ _ _
  · exact plain_ite (fun _ => plain_ok _) fun _ => plain_aligned rt z _ _ _
  · cases start with
    | none => exact plain_untilLabel z _ _ _
    | some start =>
      exact plain_ite (fun _ => plain_sinceLabel z _ _) fun _ => plain_betweenLabel z _ _ _

theorem plain_numberBound (q : ℚ) : Plain (numberBound q) := plain_map (plain_orFail_value _)

variable {room : Nat}

theorem plain_bound {value : Value} (isFrom : Bool) (h : Plain (isBlank room value)) :
    Plain (bound rt z now room isFrom value) := by
  refine plain_bind h fun _ _ => ?_
  refine plain_ite (fun _ => plain_pure _) fun _ => ?_
  split
  · exact plain_value
  · exact plain_bind (plain_orFail_overflow _) fun _ _ => plain_pure _
  · exact plain_ite (fun _ => plain_numberBound _) fun _ => plain_overflow
  · exact plain_value
  · exact plain_overflow
  · exact plain_numberBound _
  · exact plain_textBound rt z now _ _

theorem plain_composeBounds {lo hi : Value} (hlo : Plain (isBlank room lo))
    (hhi : Plain (isBlank room hi)) : Plain (composeBounds rt z now room lo hi) := by
  refine plain_bind (plain_bound rt z now true hlo) fun _ _ => ?_
  refine plain_bind (plain_bound rt z now false hhi) fun _ _ => ?_
  refine plain_ite (fun _ => plain_value) fun _ => ?_
  exact plain_bind (plain_rangeLabel rt z _ _ _ _ _ _ _) fun _ _ => plain_pure _

theorem not_plain {α : Type} {x : Except Failure α} : ¬ Plain x ↔ x = .error .recursion := by
  unfold Plain
  exact not_not

theorem bind_not_plain {α β : Type} {x : Except Failure α} (h : ¬ Plain x)
    (f : α → Except Failure β) : ¬ Plain (x >>= f) := by
  rw [not_plain] at h ⊢
  rw [h]
  rfl

theorem plain_isBlank_text (room : Nat) (t : Text) : Plain (isBlank room (.text t)) := by
  cases room <;> exact plain_ok _

theorem plain_isBlank_null (room : Nat) : Plain (isBlank room .null) := by
  cases room <;> exact plain_ok _

variable {v : Value}

theorem isBlank_error {failure : Failure} (h : isBlank room v = .error failure) :
    failure = .recursion := by
  induction room generalizing v with
  | zero =>
    cases v with
    | dict entries =>
      cases h
      rfl
    | null | bool | int | float | text | moment | other => exact nomatch h
  | succ room ih =>
    cases v with
    | dict entries =>
      have hany : anyFilled (isBlank room) entries = .error failure := by
        change (anyFilled (isBlank room) entries).map _ = _ at h
        cases hfilled : anyFilled (isBlank room) entries with
        | ok b =>
          rw [hfilled] at h
          exact nomatch h
        | error f =>
          rw [hfilled] at h
          cases h
          rfl
      clear h
      induction entries with
      | nil => exact nomatch hany
      | cons entry more ihmore =>
        obtain ⟨key, v⟩ := entry
        cases hv : isBlank room v with
        | error f =>
          rw [anyFilled, hv] at hany
          cases hany
          exact ih hv
        | ok b =>
          rw [anyFilled, hv] at hany
          cases b with
          | true => exact ihmore hany
          | false => exact nomatch hany
    | null | bool | int | float | text | moment | other => exact nomatch h

theorem plain_composeRange_iff {lo hi : Value} : Plain (composeRange rt z now room lo hi) ↔
      Plain (isBlank room lo) ∧ Plain (isBlank room hi) := by
  constructor
  · intro h
    have hhi : Plain (isBlank room hi) := by
      by_contra hdeep
      exact bind_not_plain hdeep _ h
    refine ⟨?_, hhi⟩
    by_contra hdeep
    -- the bound is a dictionary, so no relative window is named
    have hrelative : relativeBound rt lo = none := by
      cases lo with
      | text t => exact absurd (plain_isBlank_text room t) hdeep
      | null | bool | int | float | dict | moment | other => rfl
    cases hblank : isBlank room hi with
    | error failure =>
      rw [isBlank_error hblank] at hblank
      exact hhi hblank
    | ok blank =>
      have hrange : composeRange rt z now room lo hi = composeBounds rt z now room lo hi := by
        unfold composeRange
        rw [hblank, hrelative]
        rfl
      rw [hrange] at h
      exact bind_not_plain (bind_not_plain hdeep _) _ h
  · rintro ⟨hlo, hhi⟩
    refine plain_bind hhi fun _ _ => ?_
    split
    · exact plain_ite (fun _ => plain_relativeSpan z now _ _) fun _ =>
        plain_composeBounds rt z now hlo hhi
    · exact plain_composeBounds rt z now hlo hhi

theorem plain_stripped (room : Nat) (t : Text) : Plain (isBlank room (stripped t)) := by
  unfold stripped
  split
  · exact plain_isBlank_null room
  · exact plain_isBlank_text room _

theorem plain_hoursSpan (hours : Int) : Plain (hoursSpan z now hours) := by
  refine plain_ite (fun _ => plain_ok _) fun _ => plain_ite (fun _ => plain_value) fun _ => ?_
  exact plain_ite (fun _ => plain_relativeSpan z now _ _) fun _ => plain_relativeSpan z now _ _

theorem plain_doubleSpan (f : Double) : Plain (doubleSpan z now f) := by
  cases f with
  | nan => exact plain_value
  | infinite negative =>
    cases negative with
    | true => exact plain_value
    | false => exact plain_overflow
  | finite q =>
    refine plain_ite (fun _ => plain_hoursSpan z now _) fun _ => ?_
    refine plain_ite (fun _ => plain_value) fun _ => ?_
    exact plain_ite (fun _ => plain_value) fun _ => plain_relativeSpan z now _ _

theorem plain_textSpan (room : Nat) (text : Text) : Plain (textSpan rt z now room text) := by
  unfold textSpan
  refine plain_ite (fun _ => plain_pure _) fun _ => ?_
  split
  · exact (plain_composeRange_iff rt z now).mpr ⟨plain_stripped room _, plain_stripped room _⟩
  refine plain_bind (plain_singleSpan rt z now _) fun found _ => ?_
  cases found with
  | some span => exact plain_pure _
  | none =>
    refine plain_bind (plain_parseInstant rt z _) fun found _ => ?_
    cases found with
    | some instant =>
      exact (plain_composeRange_iff rt z now).mpr
        ⟨plain_isBlank_text room _, plain_isBlank_null room⟩
    | none => exact plain_value

def Shallow : Nat → Value → Prop
  | room, .dict entries =>
    match dictForm (lowered rt entries) with
    | .unknown => True
    | .range lo hi => Plain (isBlank room lo) ∧ Plain (isBlank room hi)
    | .window v =>
      match room with
      | 0 => False
      | room + 1 => Shallow room v
  | _, _ => True

theorem plain_resolveSpec_iff : Plain (resolveSpec rt z now room v) ↔ Shallow rt room v := by
  induction room generalizing v with
  | zero =>
    cases v with
    | int hours => simpa [resolveSpec, Shallow] using plain_hoursSpan z now hours
    | float f => simpa [resolveSpec, Shallow] using plain_doubleSpan z now f
    | text t => simpa [resolveSpec, Shallow] using plain_textSpan rt z now 0 t
    | dict entries =>
      unfold resolveSpec Shallow
      cases dictForm (lowered rt entries) with
      | unknown => simp
      | range lo hi => exact plain_composeRange_iff rt z now
      | window v => simp [Plain]
    | null | bool | moment | other => simp [resolveSpec, Shallow]
  | succ room ih =>
    cases v with
    | int hours => simpa [resolveSpec, Shallow] using plain_hoursSpan z now hours
    | float f => simpa [resolveSpec, Shallow] using plain_doubleSpan z now f
    | text t => simpa [resolveSpec, Shallow] using plain_textSpan rt z now (room + 1) t
    | dict entries =>
      unfold resolveSpec Shallow
      cases dictForm (lowered rt entries) with
      | unknown => simp
      | range lo hi => exact plain_composeRange_iff rt z now
      | window v => exact ih
    | null | bool | moment | other => simp [resolveSpec, Shallow]

end Functions

end AgenticKibana.Windows
